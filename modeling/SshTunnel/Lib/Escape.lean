import SshTunnel.Lib.Net

/-!
# Percent encoding (Go's package `net/url`)

`escape` and `unescape` for the parts of a url. Texts are byte strings here: a byte
is the character with its number, and the results about round trips are for texts
of such characters (`IsBytes`).
-/

namespace SshTunnel.Lib.Url

open Net (Text hexVal Byte)

inductive Mode where
  | path
  | host
  | zone
  | userPassword
  | fragment
  deriving DecidableEq

def hostChars : Text := "!$&'()*+,;=:[]<>\"".toList
def reserved : Text := "$&+,/:;=?@".toList

def Mode.isHost : Mode → Bool
  | .host | .zone => true
  | _ => false

def shouldEscape (mode : Mode) (c : Char) : Bool :=
  if c.isAlphanum then false
  else if mode.isHost ∧ c ∈ hostChars then false
  else if c ∈ "-_.~".toList then false
  else if c ∈ reserved then
    match mode with
    | .path => c = '?'
    | .userPassword => c = '@' || c = '/' || c = '?' || c = ':'
    | .fragment => false
    | .host | .zone => true
  else if mode = .fragment ∧ c ∈ "!()*".toList then false
  else true

def upperHex (d : ℕ) : Char := "0123456789ABCDEF".toList[d]?.getD '0'

def escapeChar (mode : Mode) (c : Char) : Text :=
  if shouldEscape mode c then ['%', upperHex (c.toNat / 16), upperHex (c.toNat % 16)] else [c]

def escape (mode : Mode) (s : Text) : Text := s.flatMap (escapeChar mode)

/-- The escapes that `unescape` refuses: in a host those of ASCII characters, in a
zone those of characters that a host cannot have; `%25` is one in neither. -/
def refused (mode : Mode) (x y : ℕ) : Bool :=
  match mode with
  | .host => x < 8 && (x, y) ≠ (2, 5)
  | .zone => (x, y) ≠ (2, 5) && Char.ofNat (16 * x + y) ≠ ' ' &&
      shouldEscape .host (Char.ofNat (16 * x + y))
  | _ => false

def refusedChar (mode : Mode) (c : Char) : Bool :=
  mode.isHost && c.toNat < 128 && shouldEscape mode c

def unescape (mode : Mode) : Text → Option Text
  | [] => some []
  | c :: s =>
    if c = '%' then
      match s with
      | a :: b :: s =>
        match hexVal a, hexVal b with
        | some x, some y =>
          if refused mode x y then none
          else (unescape mode s).map (Char.ofNat (16 * x + y) :: ·)
        | _, _ => none
      | _ => none
    else if refusedChar mode c then none
    else (unescape mode s).map (c :: ·)

def IsBytes (s : Text) : Prop := ∀ c ∈ s, c.toNat < 256

instance decidableIsBytes (s : Text) : Decidable (IsBytes s) :=
  List.decidableBAll (fun c : Char => c.toNat < 256) s

/-! ### Characters -/

/-- A property of all bytes is checked byte by byte. -/
theorem forall_byte {P : Char → Prop} (h : ∀ b : Byte, P (Char.ofNat b.val)) {c : Char}
    (hc : c.toNat < 256) : P c := by
  have hb := h ⟨c.toNat, hc⟩
  rwa [Char.ofNat_toNat] at hb

def modes : List Mode := [.path, .host, .zone, .userPassword, .fragment]

theorem mem_modes (mode : Mode) : mode ∈ modes := by cases mode <;> decide

/-- The two digits of an escape. -/
theorem hexVal_upperHex (d : Fin 16) : hexVal (upperHex d.val) = some d.val := by
  revert d
  decide

section Chars

variable {mode mode' : Mode} {c d : Char} {s t : Text}

theorem hexVal_high (hc : c.toNat < 256) : hexVal (upperHex (c.toNat / 16)) = some (c.toNat / 16) :=
  hexVal_upperHex ⟨c.toNat / 16, by omega⟩

theorem hexVal_low (c : Char) : hexVal (upperHex (c.toNat % 16)) = some (c.toNat % 16) :=
  hexVal_upperHex ⟨c.toNat % 16, Nat.mod_lt _ (by decide)⟩

theorem hexVal_lt {x : ℕ} (h : hexVal c = some x) : x < 16 := by
  unfold hexVal at h
  split_ifs at h with hd hl hu
  · cases h
    have h1 := Char.isDigit_iff_toNat.mp hd
    have h2 : '0'.toNat = 48 := rfl
    have h3 : '9'.toNat = 57 := rfl
    omega
  · cases h
    have h1 : c.toNat ≤ 'f'.toNat := hl.2
    have h2 : 'f'.toNat = 102 := rfl
    omega
  · cases h
    have h1 : c.toNat ≤ 'F'.toNat := hu.2
    have h2 : 'F'.toNat = 70 := rfl
    omega

theorem unescape_cons (hc : c ≠ '%') (hr : refusedChar mode c = false) (s : Text) :
    unescape mode (c :: s) = (unescape mode s).map (c :: ·) := by
  conv_lhs => unfold unescape
  rw [if_neg hc, hr, if_neg Bool.false_ne_true]

theorem unescape_id (h : ∀ c ∈ s, c ≠ '%' ∧ refusedChar mode c = false) :
    unescape mode s = some s := by
  induction s with
  | nil => rfl
  | cons c s ih =>
    obtain ⟨⟨hc, hr⟩, hs⟩ := List.forall_mem_cons.mp h
    rw [unescape_cons hc hr, ih hs, Option.map_some]

theorem unescape_percent (a b : Char) (s : Text) :
    unescape mode ('%' :: a :: b :: s) =
      match hexVal a, hexVal b with
      | some x, some y =>
        if refused mode x y then none
        else (unescape mode s).map (Char.ofNat (16 * x + y) :: ·)
      | _, _ => none := by
  rw [unescape, if_pos rfl]

/-- What `unescape` may read back of a character that `escape` has written. -/
def Readable (mode mode' : Mode) (c : Char) : Prop :=
  if shouldEscape mode c then c.toNat < 256 ∧ refused mode' (c.toNat / 16) (c.toNat % 16) = false
  else c ≠ '%' ∧ refusedChar mode' c = false

theorem escape_id (h : ∀ c ∈ s, shouldEscape mode c = false) : escape mode s = s := by
  induction s with
  | nil => rfl
  | cons c s ih =>
    obtain ⟨hc, hs⟩ := List.forall_mem_cons.mp h
    rw [escape, List.flatMap_cons, ← escape, ih hs, escapeChar, if_neg (Bool.eq_false_iff.mp hc),
      List.singleton_append]

theorem unescape_escapeChar (h : Readable mode mode' c) (t : Text) :
    unescape mode' (escapeChar mode c ++ t) = (unescape mode' t).map (c :: ·) := by
  unfold Readable at h
  unfold escapeChar
  split at h
  · rename_i hs
    obtain ⟨hc, hr⟩ := h
    have hchar : Char.ofNat (16 * (c.toNat / 16) + c.toNat % 16) = c := by
      rw [Nat.div_add_mod, Char.ofNat_toNat]
    rw [if_pos hs, List.cons_append, List.cons_append, List.cons_append, List.nil_append,
      unescape_percent]
    simp only [hexVal_high hc, hexVal_low, hr, Bool.false_eq_true, if_false, hchar]
  · rename_i hs
    rw [if_neg hs, List.singleton_append, unescape_cons h.1 h.2]

theorem escape_append (mode : Mode) (s t : Text) :
    escape mode (s ++ t) = escape mode s ++ escape mode t := List.flatMap_append

theorem escape_cons (mode : Mode) (c : Char) (s : Text) :
    escape mode (c :: s) = escapeChar mode c ++ escape mode s := List.flatMap_cons

theorem unescape_escape_append (h : ∀ c ∈ s, Readable mode mode' c) (t : Text) :
    unescape mode' (escape mode s ++ t) = (unescape mode' t).map (s ++ ·) := by
  induction s with
  | nil => exact Option.map_id'.symm
  | cons c s ih =>
    rw [escape_cons, List.append_assoc, unescape_escapeChar (h c List.mem_cons_self),
      ih fun d hd => h d (List.mem_cons_of_mem c hd), Option.map_map]
    rfl

theorem unescape_escape (h : ∀ c ∈ s, Readable mode mode' c) :
    unescape mode' (escape mode s) = some s := by
  have happend := unescape_escape_append h []
  rw [List.append_nil] at happend
  rw [happend, unescape, Option.map_some, List.append_nil]

/-! What the modes read back. -/

theorem readable_component (hmode : mode = .path ∨ mode = .userPassword ∨ mode = .fragment)
    (hc : c.toNat < 256) : Readable mode mode c := by
  have hall : ∀ b : Byte, ∀ m ∈ [Mode.path, .userPassword, .fragment],
      Readable m m (Char.ofNat b.val) := by
    unfold Readable
    decide +kernel
  refine forall_byte (P := fun c => Readable mode mode c) (fun b => hall b mode ?_) hc
  rcases hmode with rfl | rfl | rfl <;> decide

/-- A character that a host may have: a byte from 128 on, a percent sign or one that
need not be escaped. -/
def IsHostChar (c : Char) : Prop :=
  c.toNat < 256 ∧ (128 ≤ c.toNat ∨ c = '%' ∨ shouldEscape .host c = false)

/-- A character of a zone that can be read back. -/
def IsZoneChar (c : Char) : Prop :=
  c.toNat < 128 ∧ (c = '%' ∨ c = ' ' ∨ shouldEscape .host c = false)

theorem readable_host (h : IsHostChar c) : Readable .host .host c := by
  have hall : ∀ b : Byte, IsHostChar (Char.ofNat b.val) →
      Readable .host .host (Char.ofNat b.val) := by
    unfold Readable IsHostChar
    decide +kernel
  exact forall_byte (P := fun c => IsHostChar c → Readable .host .host c) hall h.1 h

theorem readable_zone (h : IsZoneChar c) : Readable .host .zone c := by
  have hall : ∀ b : Byte, IsZoneChar (Char.ofNat b.val) →
      Readable .host .zone (Char.ofNat b.val) := by
    unfold Readable IsZoneChar
    decide +kernel
  exact forall_byte (P := fun c => IsZoneChar c → Readable .host .zone c) hall
    (Nat.lt_trans h.1 (by decide)) h

theorem unescape_escape_component
    (hmode : mode = .path ∨ mode = .userPassword ∨ mode = .fragment) (hs : IsBytes s) :
    unescape mode (escape mode s) = some s :=
  unescape_escape fun c hc => readable_component hmode (hs c hc)

/-! What an encoded text consists of. -/

theorem isAlphanum_upperHex (d : ℕ) : (upperHex d).isAlphanum = true := by
  have hall : "0123456789ABCDEF".toList.all Char.isAlphanum = true := by decide
  unfold upperHex
  cases h : "0123456789ABCDEF".toList[d]? with
  | none => rfl
  | some c => exact List.all_eq_true.mp hall c (List.mem_of_getElem? h)

theorem mem_escapeChar (h : d ∈ escapeChar mode c) :
    d = '%' ∨ d.isAlphanum = true ∨ d = c ∧ shouldEscape mode c = false := by
  unfold escapeChar at h
  split at h
  · simp only [List.mem_cons, List.not_mem_nil, or_false] at h
    rcases h with rfl | rfl | rfl
    · exact .inl rfl
    · exact .inr (.inl (isAlphanum_upperHex _))
    · exact .inr (.inl (isAlphanum_upperHex _))
  · rename_i hs
    exact .inr (.inr ⟨List.mem_singleton.mp h, Bool.eq_false_iff.mpr hs⟩)

theorem mem_escape (h : d ∈ escape mode s) :
    d = '%' ∨ d.isAlphanum = true ∨ d ∈ s ∧ shouldEscape mode d = false := by
  obtain ⟨c, hc, hd⟩ := List.mem_flatMap.mp h
  rcases mem_escapeChar hd with hp | halnum | ⟨rfl, hs⟩
  · exact .inl hp
  · exact .inr (.inl halnum)
  · exact .inr (.inr ⟨hc, hs⟩)

theorem isAlphanum_of_shouldEscape (h : shouldEscape mode d = true) : d.isAlphanum = false := by
  unfold shouldEscape at h
  split at h
  · cases h
  · rename_i hd
    exact Bool.eq_false_iff.mpr hd

theorem notMem_escape (hd : shouldEscape mode d = true) (hp : d ≠ '%') : d ∉ escape mode s := by
  intro h
  rcases mem_escape h with rfl | halnum | ⟨-, hs⟩
  · exact hp rfl
  · rw [isAlphanum_of_shouldEscape hd] at halnum
    cases halnum
  · rw [hd] at hs
    cases hs

/-- A separator that the mode leaves alone is in an encoded text where it was before. -/
theorem mem_escape_iff (hd : shouldEscape mode d = false) (halnum : d.isAlphanum = false)
    (hp : d ≠ '%') : d ∈ escape mode s ↔ d ∈ s := by
  constructor
  · intro h
    rcases mem_escape h with h | h | h
    · exact absurd h hp
    · rw [halnum] at h
      cases h
    · exact h.1
  · intro h
    refine List.mem_flatMap.mpr ⟨d, h, ?_⟩
    rw [escapeChar, if_neg (Bool.eq_false_iff.mp hd)]
    exact List.mem_singleton_self d

/-! What a decoded text consists of. -/

/-- The texts that are decoded, character by character. -/
inductive Decodes (mode : Mode) : Text → Text → Prop where
  | nil : Decodes mode [] []
  | char {c : Char} {s t : Text} (hc : c ≠ '%') (hr : refusedChar mode c = false)
      (h : Decodes mode s t) : Decodes mode (c :: s) (c :: t)
  | escaped {a b : Char} {x y : ℕ} {s t : Text} (ha : hexVal a = some x) (hb : hexVal b = some y)
      (hr : refused mode x y = false) (h : Decodes mode s t) :
      Decodes mode ('%' :: a :: b :: s) (Char.ofNat (16 * x + y) :: t)

theorem decodes_of_unescape (h : unescape mode s = some t) : Decodes mode s t := by
  induction s using unescape.induct mode generalizing t with
  | case1 =>
    cases h
    exact .nil
  | case2 a b s x y hb ha hr =>
    rw [unescape_percent, ha, hb] at h
    simp only [if_pos hr] at h
    cases h
  | case3 a b s x y hb ha hr ih =>
    rw [unescape_percent, ha, hb] at h
    simp only [if_neg hr] at h
    obtain ⟨u, hu, rfl⟩ := Option.map_eq_some_iff.mp h
    exact .escaped ha hb (Bool.eq_false_iff.mpr hr) (ih hu)
  | case4 a b s hno =>
    rw [unescape_percent] at h
    split at h
    · rename_i x y ha hb
      exact absurd hb (hno x y ha)
    · cases h
  | case5 s hno =>
    unfold unescape at h
    rw [if_pos rfl] at h
    split at h
    · rename_i a b s
      exact (hno a b s rfl).elim
    · cases h
  | case6 c s hc hr =>
    unfold unescape at h
    rw [if_neg hc, if_pos hr] at h
    cases h
  | case7 c s hc hr ih =>
    rw [unescape_cons hc (Bool.eq_false_iff.mpr hr)] at h
    obtain ⟨u, hu, rfl⟩ := Option.map_eq_some_iff.mp h
    exact .char hc (Bool.eq_false_iff.mpr hr) (ih hu)

theorem Decodes.forall {P : Char → Prop} (h : Decodes mode s t)
    (hchar : ∀ c ∈ s, c ≠ '%' → refusedChar mode c = false → P c)
    (hescaped : ∀ x < 16, ∀ y < 16, refused mode x y = false → P (Char.ofNat (16 * x + y))) :
    ∀ c ∈ t, P c := by
  induction h with
  | nil => exact fun c hc => absurd hc List.not_mem_nil
  | char hc hr h ih =>
    exact List.forall_mem_cons.mpr
      ⟨hchar _ List.mem_cons_self hc hr, ih fun d hd => hchar d (List.mem_cons_of_mem _ hd)⟩
  | escaped ha hb hr h ih =>
    exact List.forall_mem_cons.mpr
      ⟨hescaped _ (hexVal_lt ha) _ (hexVal_lt hb) hr, ih fun d hd => hchar d (by simp [hd])⟩

theorem Decodes.eq (h : Decodes mode s t) (hs : '%' ∉ s) : t = s := by
  induction h with
  | nil => rfl
  | char hc hr h ih => rw [ih fun hp => hs (List.mem_cons_of_mem _ hp)]
  | escaped ha hb hr h ih => exact absurd List.mem_cons_self hs

theorem toNat_escaped {x y : ℕ} (hx : x < 16) (hy : y < 16) :
    (Char.ofNat (16 * x + y)).toNat = 16 * x + y := by
  have hvalid : (16 * x + y).isValidChar := .inl (by omega)
  rw [Char.ofNat, dif_pos hvalid]
  rfl

theorem Decodes.isBytes (h : Decodes mode s t) (hs : IsBytes s) : IsBytes t := by
  refine h.forall (fun c hc _ _ => hs c hc) fun x hx y hy _ => ?_
  rw [toNat_escaped hx hy]
  omega

end Chars

end SshTunnel.Lib.Url
