import Mathlib.Data.List.TakeWhile
import SshTunnel.Client
import SshTunnel.Connector.State
import SshTunnel.Lib.Lines

/-!
# Appending to `known_hosts` (`dialer/sshdialer.go:69-87`, `511-525`)

`appendKnownHost` prints one line at the end of the file and does not look at
what is there. The package `knownhosts` enters as a parameter: its parser of one
line, the line that it makes for a host and a key, and which addresses a host
pattern covers. It reads a file line by line; a database gives its verdict by the
revoked keys and by the keys listed for a host.
-/

namespace SshTunnel.KnownHosts

open Lib.Net (Text)
open Lib.Lines
open Connector (PublicKey Verdict)
open Client (isSpace)

inductive Entry where
  | listed (pattern : Text) (key : PublicKey)
  | revoked (key : PublicKey)
  deriving DecidableEq

/-- What is used of the package `knownhosts`; `normalize` is the host text that
`Line` writes. -/
structure Package where
  parseLine : Text → Except Text (Option Entry)
  line : Text → PublicKey → Text
  normalize : Text → Text
  covers : Text → Text → Bool

section Package

variable (kh : Package)

def Package.new (content : Text) : Except Text (List Entry) :=
  readLines kh.parseLine (scanLines content)

def Package.keyFor (host : Text) : Entry → Option PublicKey
  | .listed pattern key => if kh.covers pattern host then some key else none
  | .revoked _ => none

def revokedText : Text := "knownhosts: key is revoked".toList

def Package.verdict (entries : List Entry) (host : Text) (key : PublicKey) : Verdict :=
  if .revoked key ∈ entries then .other revokedText
  else if key ∈ entries.filterMap (kh.keyFor host) then .ok
  else .keyError (entries.filterMap (kh.keyFor host))

def Package.appendKnownHost (content host : Text) (key : PublicKey) : Text :=
  content ++ kh.line host key ++ ['\n']

end Package

/-! ### Lines of the format -/

def isBlank (l : Text) : Bool := l.all isSpace

def isSeparator (c : Char) : Bool := c = ' ' || c = '\t'

def word (t : Text) : Text := t.takeWhile fun c => !isSeparator c

/-- What follows the first word, if it is followed by a separator. -/
def afterWord (t : Text) : Option Text :=
  if t.any isSeparator then some ((t.dropWhile fun c => !isSeparator c).dropWhile isSpace) else none

/-- The host, the type and the key are followed by a separator. -/
def afterKey (t : Text) : Option Text := ((afterWord t).bind afterWord).bind afterWord

/-- A line that takes more text as a comment: a comment, or an entry with a
separator behind its key. -/
def isLoose (l : Text) : Bool :=
  let t := l.dropWhile isSpace
  if t.head? = some '#' then true
  else if word t = "@cert-authority".toList ∨ word t = "@revoked".toList then
    ((afterWord t).bind afterKey).isSome
  else (afterKey t).isSome

/-- The behaviour of the package that the statements rest on: the line of a host
and a key parses back, blanks in front of a line do not count, and text behind a
line that has parsed is a comment or spoils its key. -/
structure Package.Documented (kh : Package) (host : Text) (key : PublicKey) : Prop where
  parses : kh.parseLine (kh.line host key) = .ok (some (.listed (kh.normalize host) key))
  covers : kh.covers (kh.normalize host) host = true
  newline : '\n' ∉ kh.line host key
  ends : (kh.line host key).getLast? ≠ some '\r'
  blank : ∀ l, isBlank l = true → kh.parseLine l = .ok none
  leading : ∀ l, isBlank l = true →
    kh.parseLine (l ++ kh.line host key) = kh.parseLine (kh.line host key)
  loose : ∀ l e, '\n' ∉ l → isBlank l = false → isLoose l = true →
    kh.parseLine (dropCR l) = .ok e → kh.parseLine (l ++ kh.line host key) = .ok e
  tight : ∀ l e, '\n' ∉ l → isBlank l = false → isLoose l = false →
    kh.parseLine (dropCR l) = .ok e → ∃ err, kh.parseLine (l ++ kh.line host key) = .error err

/-- The file is accepted again, has the key for the host, and says the same about
the hosts that the new line does not cover. -/
def Kept (kh : Package) (content host : Text) (key : PublicKey) (entries : List Entry) : Prop :=
  ∃ entries', kh.new (kh.appendKnownHost content host key) = .ok entries' ∧
    kh.verdict entries' host key = .ok ∧
    ∀ host' key', kh.covers (kh.normalize host) host' = false →
      kh.verdict entries' host' key' = kh.verdict entries host' key'

section Verdicts

variable {kh : Package} {host : Text} {key : PublicKey} {entries : List Entry}

theorem verdict_listed (hcovers : kh.covers (kh.normalize host) host = true) :
    kh.verdict (entries ++ [.listed (kh.normalize host) key]) host key = .ok ↔
      .revoked key ∉ entries := by
  have hkey : kh.keyFor host (.listed (kh.normalize host) key) = some key := if_pos hcovers
  have hmem : key ∈
      (entries ++ [Entry.listed (kh.normalize host) key]).filterMap (kh.keyFor host) := by
    rw [List.filterMap_append, List.filterMap_cons, hkey]
    exact List.mem_append_right _ List.mem_cons_self
  rw [Package.verdict, if_pos hmem]
  simp

theorem verdict_other {host' : Text} (hother : kh.covers (kh.normalize host) host' = false)
    (key' : PublicKey) :
    kh.verdict (entries ++ [.listed (kh.normalize host) key]) host' key' =
      kh.verdict entries host' key' := by
  have hkey : kh.keyFor host' (.listed (kh.normalize host) key) = none :=
    if_neg (by rw [hother]; decide)
  simp [Package.verdict, List.filterMap_append, hkey]

end Verdicts

section File

variable {kh : Package} {content host : Text} {key : PublicKey} {entries : List Entry}

theorem isBlank_dropCR {l : Text} (h : isBlank l = true) : isBlank (dropCR l) = true := by
  unfold dropCR
  split
  · exact List.all_eq_true.mpr fun c hc =>
      List.all_eq_true.mp h c (List.dropLast_subset l hc)
  · exact h

theorem line_ne_nil (h : kh.Documented host key) : kh.line host key ≠ [] := by
  intro hnil
  have hparses := h.parses
  rw [hnil, h.blank [] rfl] at hparses
  cases hparses

/-- What is read of the new file: the complete lines as before, and the last line
with the new one behind it. -/
theorem new_append (h : kh.Documented host key) {fs : List Entry}
    (hfs : readLines kh.parseLine ((splitLines content).1.map dropCR) = .ok fs) :
    kh.new (kh.appendKnownHost content host key) =
      (kh.parseLine (lastLine content ++ kh.line host key)).map fun e => fs ++ e.toList := by
  rw [Package.new, Package.appendKnownHost, scanLines_append h.newline (line_ne_nil h) h.ends,
    readLines_append, hfs, readLines_singleton]
  cases kh.parseLine (lastLine content ++ kh.line host key) <;> rfl

theorem kept_of_ok {entries' : List Entry}
    (h : kh.new (kh.appendKnownHost content host key) = .ok entries') :
    Kept kh content host key entries ↔ kh.verdict entries' host key = .ok ∧
      ∀ host' key', kh.covers (kh.normalize host) host' = false →
        kh.verdict entries' host' key' = kh.verdict entries host' key' := by
  unfold Kept
  rw [h]
  constructor
  · rintro ⟨es, he, hv⟩
    cases he
    exact hv
  · exact fun hv => ⟨entries', rfl, hv⟩

/-- Behind a finished line, or a blank one, the new line is a line. -/
theorem kept_blank (h : kh.Documented host key) (hnew : kh.new content = .ok entries)
    (hblank : isBlank (lastLine content) = true) :
    Kept kh content host key entries ↔ .revoked key ∉ entries := by
  obtain ⟨fs, gs, hfs, rfl, hlast⟩ := readLines_scanLines kh.parseLine hnew
  have hgs : gs = [] := by
    rcases hlast with ⟨-, hgs⟩ | ⟨-, e, he, hgs⟩
    · exact hgs
    · rw [h.blank _ (isBlank_dropCR hblank), Except.ok.injEq] at he
      rw [hgs, ← he, Option.toList_none]
  have hok := new_append h hfs
  rw [h.leading _ hblank, h.parses] at hok
  rw [kept_of_ok hok, hgs, List.append_nil]
  refine ⟨fun hk => (verdict_listed h.covers).mp hk.1, fun hr => ⟨?_, ?_⟩⟩
  · exact (verdict_listed h.covers).mpr hr
  · exact fun host' key' hother => verdict_other hother key'

/-- Behind an unfinished line the new one is a comment, or the file is spoilt. -/
theorem kept_unfinished (h : kh.Documented host key) (hnew : kh.new content = .ok entries)
    (hblank : isBlank (lastLine content) = false) :
    Kept kh content host key entries ↔
      isLoose (lastLine content) = true ∧ kh.verdict entries host key = .ok := by
  obtain ⟨fs, gs, hfs, rfl, hlast⟩ := readLines_scanLines kh.parseLine hnew
  obtain ⟨e, he, rfl⟩ : ∃ e, kh.parseLine (dropCR (lastLine content)) = .ok e ∧ gs = e.toList := by
    rcases hlast with ⟨hnil, -⟩ | ⟨-, hlast⟩
    · rw [hnil] at hblank
      cases hblank
    · exact hlast
  have happend := new_append h hfs
  have hnl := lastLine_notMem content
  cases hloose : isLoose (lastLine content) with
  | true =>
    rw [h.loose _ e hnl hblank hloose he] at happend
    rw [kept_of_ok happend]
    simp
  | false =>
    obtain ⟨err, herr⟩ := h.tight _ e hnl hblank hloose he
    rw [herr] at happend
    refine iff_of_false ?_ (by simp)
    rintro ⟨entries', hok, -⟩
    rw [happend] at hok
    cases hok

end File

/-- After `appendKnownHost` the file is accepted, lists the key and says the same
about other hosts exactly when its last line is finished or blank and the key is
not revoked, or the last line takes the new one as a comment and the key was
listed before. -/
theorem appendKnownHost_iff (kh : Package) (content host : Text) (key : PublicKey)
    (entries : List Entry) (hkh : kh.Documented host key) (hnew : kh.new content = .ok entries) :
    Kept kh content host key entries ↔
      isBlank (lastLine content) = true ∧ .revoked key ∉ entries ∨
        isBlank (lastLine content) = false ∧ isLoose (lastLine content) = true ∧
          kh.verdict entries host key = .ok := by
  cases hblank : isBlank (lastLine content) with
  | true =>
    rw [kept_blank hkh hnew hblank]
    simp
  | false =>
    rw [kept_unfinished hkh hnew hblank]
    simp

section Example

/-- The wire format of an ed25519 key whose 32 bytes are all `b`. -/
def edKey (b : Lib.Net.Byte) : PublicKey :=
  [0, 0, 0, 11, 115, 115, 104, 45, 101, 100, 50, 53, 53, 49, 57, 0, 0, 0, 32] ++
    List.replicate 32 b

/-- The type and what all these keys begin with in base64. -/
def keyHead : Text := "ssh-ed25519 ".toList ++ "AAAAC3NzaC1lZDI1NTE5AAAAI".toList

def firstLine : Text := "a.example ".toList ++ keyHead ++ List.replicate 43 'A'

def secondLine : Text :=
  "b.example ".toList ++ keyHead ++ 'A' :: (List.replicate 10 "EBAQ".toList).flatten ++ "EB".toList

def samplePackage : Package where
  parseLine l :=
    let t := l.dropWhile isSpace
    if t = [] then .ok none
    else if t = firstLine then .ok (some (.listed "a.example".toList (edKey 0)))
    else if t = secondLine then .ok (some (.listed "b.example".toList (edKey 1)))
    else .error "knownhosts: illegal base64 data".toList
  line _ _ := secondLine
  normalize host := if ":22".toList <:+ host then host.take (host.length - 3) else host
  covers pattern host := pattern = if ":22".toList <:+ host then host.take (host.length - 3) else host

theorem isBlank_iff {l : Text} : isBlank l = true ↔ l.dropWhile isSpace = [] := by
  rw [isBlank, List.all_eq_true, List.dropWhile_eq_nil_iff]

theorem dropWhile_nonblank {l : Text} (h : isBlank l = false) (t : Text) :
    l.dropWhile isSpace ≠ [] ∧ (l ++ t).dropWhile isSpace = l.dropWhile isSpace ++ t := by
  have hne : l.dropWhile isSpace ≠ [] := by
    rw [ne_eq, ← isBlank_iff, h]
    decide
  exact ⟨hne, by rw [List.dropWhile_append, if_neg (by simpa using hne)]⟩

theorem dropCR_cases (l : Text) : dropCR l = l ∨ l = dropCR l ++ ['\r'] := by
  unfold dropCR
  split
  · rename_i h
    obtain ⟨m, rfl⟩ := List.getLast?_eq_some_iff.mp h
    exact .inr (by rw [List.dropLast_concat])
  · exact .inl rfl

theorem sample_lines {l : Text} {e : Option Entry} (hblank : isBlank l = false)
    (h : samplePackage.parseLine (dropCR l) = .ok e) :
    ∃ t ∈ [firstLine, secondLine], l.dropWhile isSpace = t ∨
      l.dropWhile isSpace = t ++ ['\r'] := by
  have hnb : isBlank (dropCR l) = false := by
    rcases dropCR_cases l with hl | hl
    · rwa [hl]
    · rw [hl] at hblank
      simpa [isBlank, isSpace] using hblank
  obtain ⟨hne, happend⟩ := dropWhile_nonblank hnb ['\r']
  have ht : ∃ t ∈ [firstLine, secondLine], (dropCR l).dropWhile isSpace = t := by
    simp only [samplePackage, if_neg hne] at h
    split at h
    · exact ⟨firstLine, List.mem_cons_self, by assumption⟩
    · split at h
      · exact ⟨secondLine, List.mem_cons_of_mem _ List.mem_cons_self, by assumption⟩
      · cases h
  obtain ⟨t, hmem, ht⟩ := ht
  refine ⟨t, hmem, ?_⟩
  rcases dropCR_cases l with hl | hl
  · rw [hl] at ht
    exact .inl ht
  · right
    rw [hl, happend, ht]

theorem samplePackage_documented : samplePackage.Documented "b.example:22".toList (edKey 1) where
  parses := by decide +kernel
  covers := by decide
  newline := by decide
  ends := by decide
  blank l h := by
    simp only [samplePackage, isBlank_iff.mp h, if_true]
  leading l h := by
    simp only [samplePackage, List.dropWhile_append_of_pos (List.all_eq_true.mp h)]
  loose l e _ hblank hloose h := by
    obtain ⟨t, hmem, ht⟩ := sample_lines hblank h
    simp only [List.mem_cons, List.not_mem_nil, or_false] at hmem
    rcases hmem with rfl | rfl <;> rcases ht with ht | ht <;>
      · simp only [isLoose, ht] at hloose
        exact absurd hloose (by decide +kernel)
  tight l e _ hblank _ h := by
    obtain ⟨t, hmem, ht⟩ := sample_lines hblank h
    refine ⟨"knownhosts: illegal base64 data".toList, ?_⟩
    simp only [List.mem_cons, List.not_mem_nil, or_false] at hmem
    simp only [samplePackage, (dropWhile_nonblank hblank secondLine).2]
    rcases hmem with rfl | rfl <;> rcases ht with ht | ht <;> rw [ht] <;> decide +kernel

theorem appendKnownHost_newline :
    Kept samplePackage (firstLine ++ ['\n']) "b.example:22".toList (edKey 1)
      [.listed "a.example".toList (edKey 0)] :=
  (appendKnownHost_iff samplePackage (firstLine ++ ['\n']) "b.example:22".toList (edKey 1)
    [.listed "a.example".toList (edKey 0)] samplePackage_documented (by decide +kernel)).mpr
    (.inl ⟨by decide +kernel, by decide +kernel⟩)

theorem appendKnownHost_without_newline :
    ¬∀ (kh : Package) (content host : Text) (key : PublicKey) (entries : List Entry),
      kh.Documented host key → kh.new content = .ok entries →
        Kept kh content host key entries := by
  intro hall
  obtain ⟨entries', hok, -⟩ := hall samplePackage firstLine "b.example:22".toList (edKey 1)
    [.listed "a.example".toList (edKey 0)] samplePackage_documented (by decide +kernel)
  have herr : samplePackage.new (samplePackage.appendKnownHost firstLine
      "b.example:22".toList (edKey 1)) = .error "knownhosts: illegal base64 data".toList := by
    decide +kernel
  rw [herr] at hok
  cases hok

end Example

end SshTunnel.KnownHosts
