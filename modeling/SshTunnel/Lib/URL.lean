import Mathlib.Data.List.TakeWhile
import SshTunnel.Lib.Escape
import SshTunnel.Lib.HostPort

/-!
# Urls (Go's package `net/url`)

`url.Parse` and `URL.String`. A parsed url whose user has been replaced is written
and read again with the same user, and with the same host unless its zone holds a
character that the reader of zones refuses.

A host without brackets may have further colons in front of its port, but not in the
urls of `http` and `https`.
-/

namespace SshTunnel.Lib.Url

open Net (Text hexVal)
open HostPort (cutLast validOptionalPort)

structure Userinfo where
  username : Text
  password : Option Text
  deriving DecidableEq

structure URL where
  scheme : Text
  opaquePart : Text
  user : Option Userinfo
  host : Text
  path : Text
  rawPath : Text
  omitHost : Bool
  forceQuery : Bool
  rawQuery : Text
  fragment : Text
  rawFragment : Text
  deriving DecidableEq

/-! ### Parse -/

/-- `strings.Cut` at a character. -/
def cut (c : Char) (s : Text) : Text × Text :=
  (s.takeWhile (· ≠ c), (s.dropWhile (· ≠ c)).drop 1)

def isCTL (c : Char) : Bool := c.toNat < 32 || c.toNat = 127

def isSchemeChar (c : Char) : Bool := c.isAlphanum || c = '+' || c = '-' || c = '.'

/-- The scheme and what follows its colon; an empty scheme where the text has none. -/
def getScheme (rawURL : Text) : Option (Text × Text) :=
  let scheme := rawURL.takeWhile isSchemeChar
  match rawURL.dropWhile isSchemeChar with
  | ':' :: rest =>
    match scheme with
    | [] => none
    | c :: _ => some (if c.isAlpha then (scheme, rest) else ([], rawURL))
  | _ => some ([], rawURL)

def isUserinfoChar (c : Char) : Bool := c.isAlphanum || c ∈ "-._:~!$&'()*+,;=%@".toList

/-- The text in front of the first `%25` and the text from there on. -/
def cutZone : Text → Option (Text × Text)
  | [] => none
  | c :: s =>
    if "%25".toList <+: c :: s then some ([], c :: s)
    else (cutZone s).map fun r => (c :: r.1, r.2)

def unescapeLiteral (hostname : Text) : Option Text :=
  match cutZone hostname with
  | some (name, zone) => (unescape .host name).bind fun n => (unescape .zone zone).map (n ++ ·)
  | none => unescape .host hostname

/-- An address that may stand in brackets. -/
def isLiteral (hostname : Text) : Bool :=
  match Net.parseAddr hostname with
  | some addr => addr.bytes.length ≠ 4
  | none => false

/-- The text from the first colon on. -/
def fromColon (s : Text) : Text := s.dropWhile (· ≠ ':')

/-- The text from the last colon on. -/
def fromLastColon (s : Text) : Text := (cutLast ':' s).elim [] fun r => ':' :: r.2

def IsHttp (scheme : Text) : Prop := scheme = "http".toList ∨ scheme = "https".toList

instance decidableIsHttp (scheme : Text) : Decidable (IsHttp scheme) :=
  inferInstanceAs (Decidable (_ ∨ _))

/-- What `parseHost` checks as the port of a host without brackets. -/
def portText (scheme host : Text) : Text :=
  if IsHttp scheme then fromColon host else fromLastColon host

def parseHost (scheme host : Text) : Option Text :=
  match cutLast '[' host with
  | some ([], inner) =>
    match cutLast ']' inner with
    | some (hostname, colonPort) =>
      if validOptionalPort colonPort then
        match unescapeLiteral hostname, unescape .host colonPort with
        | some name, some port =>
          if isLiteral name then some ('[' :: name ++ ']' :: port) else none
        | _, _ => none
      else none
    | none => none
  | some (_ :: _, _) => none
  | none =>
    if validOptionalPort (portText scheme host) then unescape .host host else none

def parseUserinfo (userinfo : Text) : Option Userinfo :=
  if ¬userinfo.all isUserinfoChar then none
  else if ':' ∉ userinfo then (unescape .userPassword userinfo).map fun name => ⟨name, none⟩
  else
    (unescape .userPassword (cut ':' userinfo).1).bind fun name =>
      (unescape .userPassword (cut ':' userinfo).2).map fun password => ⟨name, some password⟩

def parseAuthority (scheme authority : Text) : Option (Option Userinfo × Text) :=
  match cutLast '@' authority with
  | none => (parseHost scheme authority).map fun host => (none, host)
  | some (userinfo, host) =>
    (parseHost scheme host).bind fun host =>
      (parseUserinfo userinfo).map fun user => (some user, host)

/-- The text of `RawPath` and `RawFragment`: empty where the default encoding gives it. -/
def raw (mode : Mode) (text decoded : Text) : Text :=
  if text = escape mode decoded then [] else text

def URL.setPath (url : URL) (p : Text) : Option URL :=
  (unescape .path p).map fun path => { url with path := path, rawPath := raw .path p path }

def URL.setFragment (url : URL) (f : Text) : Option URL :=
  (unescape .fragment f).map fun fragment =>
    { url with fragment := fragment, rawFragment := raw .fragment f fragment }

/-- `parse`, behind the scheme and in front of the query. -/
def URL.parseRest (url : URL) (rest : Text) : Option URL :=
  if rest.head? ≠ some '/' ∧ url.scheme ≠ [] then some { url with opaquePart := rest }
  else if rest.head? ≠ some '/' ∧ ':' ∈ (cut '/' rest).1 then none
  else if "//".toList <+: rest ∧ (url.scheme ≠ [] ∨ ¬"///".toList <+: rest) then
    let authority := (rest.drop 2).takeWhile (· ≠ '/')
    (parseAuthority url.scheme authority).bind fun r =>
      { url with user := r.1, host := r.2 }.setPath ((rest.drop 2).dropWhile (· ≠ '/'))
  else { url with omitHost := url.scheme ≠ [] && rest.head? = some '/' }.setPath rest

def emptyURL : URL := ⟨[], [], none, [], [], [], false, false, [], [], []⟩

/-- `parse`: a url without a fragment. -/
def parseMain (rawURL : Text) : Option URL :=
  if rawURL.any isCTL then none
  else if rawURL = ['*'] then some { emptyURL with path := ['*'] }
  else
    (getScheme rawURL).bind fun r =>
      { emptyURL with
        scheme := r.1.map Char.toLower
        forceQuery := r.2.getLast? = some '?' && r.2.count '?' = 1
        rawQuery := (cut '?' r.2).2 }.parseRest (cut '?' r.2).1

def parse (rawURL : Text) : Option URL :=
  let fragment := (cut '#' rawURL).2
  (parseMain (cut '#' rawURL).1).bind fun url =>
    if fragment = [] then some url else url.setFragment fragment

/-! ### String -/

def Userinfo.string (u : Userinfo) : Text :=
  if u.username ≠ [] ∨ u.password.getD [] ≠ [] then
    escape .userPassword u.username ++
      (u.password.elim [] fun password => ':' :: escape .userPassword password)
  else []

/-- The characters that a path or a fragment keeps, beyond those that need no escape. -/
def rawChars : Text := "!$&'()*+,;=:@[]%".toList

def validEncoded (mode : Mode) (s : Text) : Bool :=
  s.all fun c => c ∈ rawChars || !shouldEscape mode c

/-- `EscapedPath` and `EscapedFragment`, but for the path `*`. -/
def encoded (mode : Mode) (decoded rawText : Text) : Text :=
  if rawText ≠ [] ∧ validEncoded mode rawText ∧ unescape mode rawText = some decoded then rawText
  else escape mode decoded

def URL.escapedPath (url : URL) : Text :=
  if url.path = ['*'] ∧ ¬(url.rawPath ≠ [] ∧ validEncoded .path url.rawPath ∧
      unescape .path url.rawPath = some url.path) then ['*']
  else encoded .path url.path url.rawPath

def URL.escapedFragment (url : URL) : Text := encoded .fragment url.fragment url.rawFragment

def URL.authorityText (url : URL) : Text :=
  if url.scheme = [] ∧ url.host = [] ∧ url.user = none ∨
      url.omitHost ∧ url.host = [] ∧ url.user = none then []
  else
    (if url.host ≠ [] ∨ url.path ≠ [] ∨ url.user ≠ none then "//".toList else []) ++
      (url.user.elim [] fun user => user.string ++ ['@']) ++ escape .host url.host

def URL.pathText (url : URL) : Text :=
  let before := (if url.scheme = [] then [] else url.scheme ++ [':']) ++ url.authorityText
  let path := url.escapedPath
  if path ≠ [] ∧ path.head? ≠ some '/' ∧ url.host ≠ [] then '/' :: path
  else if before = [] ∧ ':' ∈ (cut '/' path).1 then "./".toList ++ path
  else path

def URL.queryText (url : URL) : Text :=
  if url.forceQuery ∨ url.rawQuery ≠ [] then '?' :: url.rawQuery else []

def URL.fragmentText (url : URL) : Text :=
  if url.fragment ≠ [] then '#' :: url.escapedFragment else []

def URL.string (url : URL) : Text :=
  (if url.scheme = [] then [] else url.scheme ++ [':']) ++
    (if url.opaquePart ≠ [] then url.opaquePart else url.authorityText ++ url.pathText) ++
    url.queryText ++ url.fragmentText

/-- A text without a character, in the form that `takeWhile` and `dropWhile` ask for. -/
theorem forall_ne {c : Char} {s : Text} (h : c ∉ s) : ∀ d ∈ s, decide (d ≠ c) = true := by
  intro d hd
  refine decide_eq_true ?_
  rintro rfl
  exact h hd

/-! ### Hosts -/

/-- A character that a zone may have. It can be read back if it is below 128. -/
def IsZoneByte (c : Char) : Prop :=
  c.toNat < 256 ∧ (128 ≤ c.toNat ∨ c = '%' ∨ c = ' ' ∨ shouldEscape .host c = false)

/-- The hosts that `parseHost` gives for a scheme. -/
inductive HostForm (scheme : Text) : Text → Prop
  | name {host : Text} (hname : ∀ c ∈ host, IsHostChar c ∧ c ≠ '[')
      (hport : validOptionalPort (portText scheme host) = true) : HostForm scheme host
  | literal {name zone port : Text} (hname : ∀ c ∈ name, IsHostChar c ∧ c ≠ '[' ∧ c ≠ '%')
      (hzone : zone = [] ∨ ∃ z, zone = '%' :: z) (hbytes : ∀ c ∈ zone, IsZoneByte c)
      (hliteral : isLiteral (name ++ zone) = true) (hport : validOptionalPort port = true) :
      HostForm scheme ('[' :: (name ++ zone) ++ ']' :: port)

/-- What stands behind the first percent sign of a host in brackets. -/
def zoneText (host : Text) : Text :=
  if host.head? = some '[' then host.dropWhile (· ≠ '%') else []

/-- The zone has no character that `parseHost` refuses after `String` has escaped it. -/
def ZoneKept (host : Text) : Prop := ∀ c ∈ zoneText host, c ≠ '[' ∧ c.toNat < 128

instance decidableZoneKept (host : Text) : Decidable (ZoneKept host) :=
  List.decidableBAll (fun c : Char => c ≠ '[' ∧ c.toNat < 128) (zoneText host)

section Host

variable {mode : Mode} {c : Char} {s t name zone host port scheme : Text}

theorem shouldEscape_zone (c : Char) : shouldEscape .zone c = shouldEscape .host c := rfl

theorem refusedChar_false (hmode : mode = .host ∨ mode = .zone) (h : refusedChar mode c = false) :
    128 ≤ c.toNat ∨ shouldEscape .host c = false := by
  by_contra hnot
  rw [not_or, not_le, Bool.not_eq_false] at hnot
  rcases hmode with rfl | rfl <;>
    simp [refusedChar, Mode.isHost, shouldEscape_zone, hnot.1, hnot.2] at h

theorem percent_of_pair {x y : ℕ} (h : (x, y) = (2, 5)) : Char.ofNat (16 * x + y) = '%' := by
  cases h
  rfl

/-- ASCII characters but the percent sign stand in the text of a host as they are. -/
theorem Decodes.isHostChar (h : Decodes .host s t) (hs : IsBytes s) :
    ∀ c ∈ t, IsHostChar c ∧ (c.toNat < 128 → c ≠ '%' → c ∈ s) := by
  refine h.forall (fun c hc _ hr => ⟨⟨hs c hc, ?_⟩, fun _ _ => hc⟩) fun x hx y hy hr => ?_
  · rcases refusedChar_false (.inl rfl) hr with hhigh | hkept
    · exact .inl hhigh
    · exact .inr (.inr hkept)
  · have hnat := toNat_escaped hx hy
    by_cases hpair : (x, y) = (2, 5)
    · rw [percent_of_pair hpair]
      exact ⟨⟨by decide, .inr (.inl rfl)⟩, fun _ hp => absurd rfl hp⟩
    · have hhigh : 8 ≤ x := by
        by_contra hlt
        simp [refused, hpair, Nat.not_le.mp hlt] at hr
      exact ⟨⟨by omega, .inl (by omega)⟩, fun hlow => absurd hlow (by omega)⟩

theorem Decodes.isZoneByte (h : Decodes .zone s t) (hs : IsBytes s) : ∀ c ∈ t, IsZoneByte c := by
  refine h.forall (fun c hc _ hr => ⟨hs c hc, ?_⟩) fun x hx y hy hr => ⟨?_, ?_⟩
  · rcases refusedChar_false (.inr rfl) hr with hhigh | hkept
    · exact .inl hhigh
    · exact .inr (.inr (.inr hkept))
  · rw [toNat_escaped hx hy]
    omega
  · by_cases hpair : (x, y) = (2, 5)
    · exact .inr (.inl (percent_of_pair hpair))
    · by_cases hspace : Char.ofNat (16 * x + y) = ' '
      · exact .inr (.inr (.inl hspace))
      · refine .inr (.inr (.inr ?_))
        simpa [refused, hpair, hspace] using hr

/-! The first `%25` of a text. -/

theorem cutZone_cons_none :
    cutZone (c :: s) = none ↔ ¬"%25".toList <+: c :: s ∧ cutZone s = none := by
  rw [cutZone]
  split
  · rename_i hp
    exact iff_of_false (by simp) fun h => h.1 hp
  · rename_i hp
    rw [Option.map_eq_none_iff]
    exact ⟨fun h => ⟨hp, h⟩, fun h => h.2⟩

theorem cutZone_some (h : cutZone s = some (name, zone)) :
    s = name ++ zone ∧ (∃ z, zone = '%' :: '2' :: '5' :: z) ∧ cutZone name = none := by
  induction s generalizing name with
  | nil => cases h
  | cons c s ih =>
    rw [cutZone] at h
    split at h
    · rename_i hp
      obtain ⟨rfl, rfl⟩ := Prod.mk.inj (Option.some.inj h)
      obtain ⟨z, hz⟩ := hp
      exact ⟨rfl, ⟨z, hz.symm⟩, rfl⟩
    · rename_i hp
      obtain ⟨⟨name', zone'⟩, hs, hr⟩ := Option.map_eq_some_iff.mp h
      obtain ⟨rfl, rfl⟩ := Prod.mk.inj hr
      obtain ⟨rfl, hzone, hnone⟩ := ih hs
      refine ⟨rfl, hzone, cutZone_cons_none.mpr ⟨fun hname => hp ?_, hnone⟩⟩
      exact hname.trans (List.prefix_append (c :: name') zone')

theorem hexVal_digit {x : ℕ} (h : hexVal c = some x) (hx : x < 10) : c.toNat = 48 + x := by
  unfold hexVal at h
  split_ifs at h with hd hl hu
  · cases h
    have h1 := Char.isDigit_iff_toNat.mp hd
    have h2 : '0'.toNat = 48 := rfl
    omega
  · cases h
    have h1 : 'a'.toNat ≤ c.toNat := hl.1
    have h2 : 'a'.toNat = 97 := rfl
    omega
  · cases h
    have h1 : 'A'.toNat ≤ c.toNat := hu.1
    have h2 : 'A'.toNat = 65 := rfl
    omega

theorem hexVal_inj_digit {d : Char} {x : ℕ} (hc : hexVal c = some x) (hd : hexVal d = some x)
    (hx : x < 10) : c = d :=
  Char.toNat_inj.mp ((hexVal_digit hc hx).trans (hexVal_digit hd hx).symm)

/-- In front of the first `%25` no percent sign is decoded. -/
theorem Decodes.notMem_percent (h : Decodes .host s t) (hcut : cutZone s = none) : '%' ∉ t := by
  induction h with
  | nil => exact List.not_mem_nil
  | char hc hr h ih =>
    have htail := ih (cutZone_cons_none.mp hcut).2
    exact fun hmem => (List.mem_cons.mp hmem).elim (fun he => hc he.symm) htail
  | @escaped a b x y s t ha hb hr h ih =>
    obtain ⟨hp, hcut⟩ := cutZone_cons_none.mp hcut
    have htail := ih (cutZone_cons_none.mp (cutZone_cons_none.mp hcut).2).2
    refine fun hmem => (List.mem_cons.mp hmem).elim (fun he => hp ?_) htail
    have hnat := congrArg Char.toNat he
    rw [toNat_escaped (hexVal_lt ha) (hexVal_lt hb)] at hnat
    have hpercent : '%'.toNat = 37 := rfl
    have hy := hexVal_lt hb
    obtain rfl : x = 2 := by omega
    obtain rfl : y = 5 := by omega
    rw [hexVal_inj_digit ha (by decide : hexVal '2' = some 2) (by decide),
      hexVal_inj_digit hb (by decide : hexVal '5' = some 5) (by decide)]
    exact ⟨s, rfl⟩

theorem cutZone_cons (hc : c ≠ '%') (s : Text) :
    cutZone (c :: s) = (cutZone s).map fun r => (c :: r.1, r.2) := by
  rw [cutZone, if_neg]
  rintro ⟨z, hz⟩
  exact hc (List.cons.inj hz).1.symm

theorem upperHex_ne_percent (d : ℕ) : upperHex d ≠ '%' := by
  intro h
  have halnum := isAlphanum_upperHex d
  rw [h] at halnum
  exact absurd halnum (by decide)

theorem cutZone_escapeChar (hc : c.toNat < 256) (hp : c ≠ '%') (s : Text) :
    cutZone (escapeChar mode c ++ s) =
      (cutZone s).map fun r => (escapeChar mode c ++ r.1, r.2) := by
  unfold escapeChar
  split
  · rw [List.cons_append, List.cons_append, List.cons_append, List.nil_append, cutZone, if_neg,
      cutZone_cons (upperHex_ne_percent _), cutZone_cons (upperHex_ne_percent _), Option.map_map,
      Option.map_map]
    · rfl
    · rintro ⟨z, hz⟩
      have hz := (List.cons.inj hz).2
      have hhigh := hexVal_high hc
      have hlow := hexVal_low c
      rw [← (List.cons.inj hz).1] at hhigh
      rw [← (List.cons.inj (List.cons.inj hz).2).1] at hlow
      have h2 : c.toNat / 16 = 2 := Option.some.inj (hhigh.symm.trans (by decide))
      have h5 : c.toNat % 16 = 5 := Option.some.inj (hlow.symm.trans (by decide))
      have hpercent : '%'.toNat = 37 := rfl
      exact hp (Char.toNat_inj.mp (by omega))
  · exact cutZone_cons hp s

theorem cutZone_escape (hname : ∀ c ∈ name, c.toNat < 256 ∧ c ≠ '%') (s : Text) :
    cutZone (escape mode name ++ s) =
      (cutZone s).map fun r => (escape mode name ++ r.1, r.2) := by
  induction name with
  | nil => exact Option.map_id'.symm
  | cons c name ih =>
    obtain ⟨⟨hc, hp⟩, hname⟩ := List.forall_mem_cons.mp hname
    rw [escape_cons, List.append_assoc, cutZone_escapeChar hc hp, ih hname, Option.map_map]
    refine congrFun (congrArg Option.map (funext fun r => ?_)) _
    rw [Function.comp_apply, List.append_assoc]

/-! A zone, a literal and a host that are written and read again. -/

theorem unescape_zone_high (hbytes : ∀ c ∈ zone, IsZoneByte c) (hhigh : ∃ c ∈ zone, 128 ≤ c.toNat) :
    unescape .zone (escape .host zone) = none := by
  have hrefused : ∀ b : Net.Byte, 128 ≤ (Char.ofNat b.val).toNat →
      shouldEscape .host (Char.ofNat b.val) = true ∧
        refused .zone ((Char.ofNat b.val).toNat / 16) ((Char.ofNat b.val).toNat % 16) = true := by
    decide +kernel
  induction zone with
  | nil =>
    obtain ⟨c, hc, -⟩ := hhigh
    exact absurd hc List.not_mem_nil
  | cons c zone ih =>
    obtain ⟨hc, hzone⟩ := List.forall_mem_cons.mp hbytes
    rw [escape_cons]
    by_cases h128 : 128 ≤ c.toNat
    · obtain ⟨hs, hr⟩ := forall_byte (P := fun c => 128 ≤ c.toNat → shouldEscape .host c = true ∧
        refused .zone (c.toNat / 16) (c.toNat % 16) = true) hrefused hc.1 h128
      rw [escapeChar, if_pos hs, List.cons_append, List.cons_append, List.cons_append,
        unescape_percent, hexVal_high hc.1, hexVal_low]
      simp only [if_pos hr]
    · obtain ⟨d, hd, hd128⟩ := hhigh
      have hrest : ∃ d ∈ zone, 128 ≤ d.toNat := by
        rcases List.mem_cons.mp hd with rfl | hd
        · exact absurd hd128 h128
        · exact ⟨d, hd, hd128⟩
      have hread : IsZoneChar c := ⟨Nat.not_le.mp h128, hc.2.resolve_left h128⟩
      rw [unescape_escapeChar (readable_zone hread), ih hzone hrest]
      rfl

theorem unescape_zone_low (hbytes : ∀ c ∈ zone, IsZoneByte c) (hlow : ∀ c ∈ zone, c.toNat < 128) :
    unescape .zone (escape .host zone) = some zone := by
  refine unescape_escape fun c hc => readable_zone ⟨hlow c hc, ?_⟩
  exact (hbytes c hc).2.resolve_left (Nat.not_le.mpr (hlow c hc))

theorem unescapeLiteral_escape (hname : ∀ c ∈ name, IsHostChar c ∧ c ≠ '%')
    (hzone : zone = [] ∨ ∃ z, zone = '%' :: z) :
    unescapeLiteral (escape .host (name ++ zone)) =
      (unescape .zone (escape .host zone)).map (name ++ ·) := by
  have hread : unescape .host (escape .host name) = some name :=
    unescape_escape fun c hc => readable_host (hname c hc).1
  have hcut : cutZone (escape .host name ++ escape .host zone) = _ :=
    cutZone_escape (fun c hc => ⟨(hname c hc).1.1, (hname c hc).2⟩) (escape .host zone)
  rw [unescapeLiteral, escape_append, hcut]
  rcases hzone with rfl | ⟨z, rfl⟩
  · have hnil : escape .host [] = [] := rfl
    rw [hnil, cutZone, Option.map_none, unescape, Option.map_some, List.append_nil, List.append_nil]
    exact hread
  · have hpercent : escape .host ('%' :: z) = '%' :: '2' :: '5' :: escape .host z := rfl
    have hfirst : cutZone (escape .host ('%' :: z)) = some ([], escape .host ('%' :: z)) := by
      rw [hpercent, cutZone, if_pos ⟨_, rfl⟩]
    rw [hfirst]
    simp only [Option.map_some, List.append_nil, hread, Option.bind_some]

theorem port_char (h : validOptionalPort port = true) (hc : c ∈ port) :
    c = ':' ∨ c.isDigit = true := by
  cases port with
  | nil => cases hc
  | cons d ds =>
    simp only [validOptionalPort, Bool.and_eq_true, decide_eq_true_eq, List.all_eq_true] at h
    rcases List.mem_cons.mp hc with rfl | hc
    · exact .inl h.1
    · exact .inr (h.2 c hc)

theorem shouldEscape_port (h : validOptionalPort port = true) (hc : c ∈ port) :
    shouldEscape .host c = false := by
  rcases port_char h hc with rfl | hd
  · decide
  · rw [shouldEscape, if_pos]
    rw [Char.isAlphanum, hd, Bool.or_true]

theorem port_lt (h : validOptionalPort port = true) (hc : c ∈ port) : c.toNat < 128 := by
  rcases port_char h hc with rfl | hd
  · decide
  · have hnine : c.toNat ≤ '9'.toNat := (Char.isDigit_iff_toNat.mp hd).2
    exact Nat.lt_of_le_of_lt hnine (by decide)

theorem notMem_port (h : validOptionalPort port = true) (hc : c ≠ ':') (hd : c.isDigit = false) :
    c ∉ port := by
  intro hmem
  rcases port_char h hmem with rfl | hdigit
  · exact hc rfl
  · rw [hd] at hdigit
    cases hdigit

theorem unescape_port (h : validOptionalPort port = true) : unescape .host port = some port := by
  refine unescape_id fun c hc => ⟨?_, ?_⟩
  · rintro rfl
    exact notMem_port h (by decide) (by decide) hc
  · rw [refusedChar, shouldEscape_port h hc, Bool.and_false]

theorem fromColon_colon (s : Text) : fromColon (':' :: s) = ':' :: s :=
  List.dropWhile_cons_of_neg (by decide)

theorem fromColon_cons (hc : c ≠ ':') (s : Text) : fromColon (c :: s) = fromColon s :=
  List.dropWhile_cons_of_pos (decide_eq_true hc)

theorem fromColon_append (hs : ':' ∉ s) (t : Text) : fromColon (s ++ t) = fromColon t :=
  List.dropWhile_append_of_pos (forall_ne hs)

theorem fromColon_idem (s : Text) : fromColon (fromColon s) = fromColon s := by
  induction s with
  | nil => rfl
  | cons c s ih =>
    by_cases hc : c = ':'
    · rw [hc, fromColon_colon, fromColon_colon]
    · rw [fromColon_cons hc, ih]

theorem fromLastColon_append (ht : ':' ∉ t) (s : Text) :
    fromLastColon (s ++ ':' :: t) = ':' :: t := by
  rw [fromLastColon, HostPort.cutLast_append ht, Option.elim_some]

theorem fromLastColon_of_notMem (hs : ':' ∉ s) : fromLastColon s = [] := by
  rw [fromLastColon, HostPort.cutLast_none.mpr hs, Option.elim_none]

theorem fromLastColon_cons_of_mem (hs : ':' ∈ s) (c : Char) :
    fromLastColon (c :: s) = fromLastColon s := by
  cases hcut : cutLast ':' s with
  | none => exact absurd hs (HostPort.cutLast_none.mp hcut)
  | some r =>
    obtain ⟨rfl, hafter⟩ := HostPort.cutLast_some hcut
    rw [← List.cons_append, fromLastColon_append hafter, fromLastColon_append hafter]

theorem fromLastColon_cons (hc : c ≠ ':') (s : Text) :
    fromLastColon (c :: s) = fromLastColon s := by
  by_cases hs : ':' ∈ s
  · exact fromLastColon_cons_of_mem hs c
  · rw [fromLastColon_of_notMem hs,
      fromLastColon_of_notMem (List.not_mem_cons_of_ne_of_not_mem hc.symm hs)]

theorem mem_escape_colon : ':' ∈ escape .host s ↔ ':' ∈ s :=
  mem_escape_iff (by decide) (by decide) (by decide)

theorem fromColon_escape (hport : validOptionalPort (fromColon host) = true) :
    fromColon (escape .host host) = fromColon host := by
  have hcolon : ':' ∉ escape .host (host.takeWhile (· ≠ ':')) := fun hc =>
    absurd (List.mem_takeWhile_imp (mem_escape_colon.mp hc)) (by decide)
  have hsplit : host.takeWhile (· ≠ ':') ++ fromColon host = host :=
    List.takeWhile_append_dropWhile
  conv_lhs => rw [← hsplit]
  rw [escape_append, escape_id fun c hc => shouldEscape_port hport hc, fromColon_append hcolon,
    fromColon_idem]

theorem fromLastColon_escape (hport : validOptionalPort (fromLastColon host) = true) :
    fromLastColon (escape .host host) = fromLastColon host := by
  cases hcut : cutLast ':' host with
  | none =>
    have hhost := HostPort.cutLast_none.mp hcut
    rw [fromLastColon_of_notMem hhost, fromLastColon_of_notMem (mt mem_escape_colon.mp hhost)]
  | some r =>
    obtain ⟨rfl, hafter⟩ := HostPort.cutLast_some hcut
    rw [fromLastColon_append hafter] at hport
    have hsame : escape .host (':' :: r.2) = ':' :: r.2 :=
      escape_id fun c hc => shouldEscape_port hport hc
    rw [escape_append, hsame, fromLastColon_append hafter, fromLastColon_append hafter]

theorem portText_escape (hport : validOptionalPort (portText scheme host) = true) :
    portText scheme (escape .host host) = portText scheme host := by
  unfold portText at hport ⊢
  split_ifs at hport ⊢
  · exact fromColon_escape hport
  · exact fromLastColon_escape hport

theorem parseHost_escape_name (hname : ∀ c ∈ host, IsHostChar c ∧ c ≠ '[')
    (hport : validOptionalPort (portText scheme host) = true) :
    parseHost scheme (escape .host host) = some host := by
  have hopen : '[' ∉ escape .host host := by
    rw [mem_escape_iff (by decide) (by decide) (by decide)]
    exact fun h => (hname '[' h).2 rfl
  rw [parseHost, HostPort.cutLast_none.mpr hopen]
  simp only [portText_escape hport, if_pos hport]
  exact unescape_escape fun c hc => readable_host (hname c hc).1

theorem escape_literal (hport : validOptionalPort port = true) (hostname : Text) :
    escape .host ('[' :: hostname ++ ']' :: port) =
      '[' :: escape .host hostname ++ ']' :: port := by
  have hopen : escapeChar .host '[' = ['['] := rfl
  have hclose : escapeChar .host ']' = [']'] := rfl
  rw [escape_append, escape_cons, escape_cons, hopen, hclose,
    escape_id fun c hc => shouldEscape_port hport hc]
  rfl

theorem parseHost_literal (hport : validOptionalPort port = true) {hostname : Text}
    (hopen : '[' ∉ hostname) :
    parseHost scheme ('[' :: hostname ++ ']' :: port) =
      (unescapeLiteral hostname).bind fun name =>
        if isLiteral name then some ('[' :: name ++ ']' :: port) else none := by
  have hinner : '[' ∉ hostname ++ ']' :: port := by
    have hnot : '[' ∉ port := notMem_port hport (by decide) (by decide)
    simp [hopen, hnot]
  have hclose : ']' ∉ port := notMem_port hport (by decide) (by decide)
  rw [parseHost, List.cons_append,
    show cutLast '[' ('[' :: (hostname ++ ']' :: port)) = some ([], hostname ++ ']' :: port) from
      HostPort.cutLast_append hinner []]
  simp only [HostPort.cutLast_append hclose, if_pos hport, unescape_port hport]
  cases unescapeLiteral hostname with
  | none => rfl
  | some name => rfl

theorem zoneText_literal (hname : '%' ∉ name) (hzone : zone = [] ∨ ∃ z, zone = '%' :: z)
    (hport : validOptionalPort port = true) :
    zoneText ('[' :: (name ++ zone) ++ ']' :: port) =
      if zone = [] then [] else zone ++ ']' :: port := by
  have hpercent : '%' ∉ port := notMem_port hport (by decide) (by decide)
  have hnot : '%' ∉ '[' :: name := List.not_mem_cons_of_ne_of_not_mem (by decide) hname
  have htail : '%' ∉ ']' :: port := List.not_mem_cons_of_ne_of_not_mem (by decide) hpercent
  have hs : '[' :: (name ++ zone) ++ ']' :: port = ('[' :: name) ++ (zone ++ ']' :: port) := by
    simp
  rw [zoneText, if_pos (by rfl), hs, List.dropWhile_append_of_pos (forall_ne hnot)]
  rcases hzone with rfl | ⟨z, rfl⟩
  · rw [if_pos rfl, List.nil_append]
    exact List.dropWhile_eq_nil_iff.mpr (forall_ne htail)
  · rw [if_neg (List.cons_ne_nil '%' z), List.cons_append, List.dropWhile_cons_of_neg (by decide)]

theorem zoneKept_literal (hname : '%' ∉ name) (hzone : zone = [] ∨ ∃ z, zone = '%' :: z)
    (hport : validOptionalPort port = true) :
    ZoneKept ('[' :: (name ++ zone) ++ ']' :: port) ↔ ∀ c ∈ zone, c ≠ '[' ∧ c.toNat < 128 := by
  rw [ZoneKept, zoneText_literal hname hzone hport]
  split
  · rename_i hnil
    subst hnil
    simp
  · constructor
    · exact fun h c hc => h c (List.mem_append_left _ hc)
    · intro h c hc
      rcases List.mem_append.mp hc with hc | hc
      · exact h c hc
      · rcases List.mem_cons.mp hc with rfl | hc
        · decide
        · refine ⟨?_, ?_⟩
          · rintro rfl
            exact notMem_port hport (by decide) (by decide) hc
          · exact port_lt hport hc

theorem zoneKept_name (hname : ∀ c ∈ host, c ≠ '[') : ZoneKept host := by
  rw [ZoneKept, zoneText, if_neg fun h => hname '[' (List.mem_of_head? h) rfl]
  exact fun c hc => absurd hc List.not_mem_nil

/-- A host is read again as it was, or not at all. -/
theorem parseHost_escape (h : HostForm scheme host) :
    parseHost scheme (escape .host host) = if ZoneKept host then some host else none := by
  cases h with
  | name hname hport =>
    rw [parseHost_escape_name hname hport, if_pos (zoneKept_name fun c hc => (hname c hc).2)]
  | @literal name zone port hname hzone hbytes hliteral hport =>
    have hkept := zoneKept_literal (fun hc => (hname '%' hc).2.2 rfl) hzone hport
    rw [escape_literal hport]
    by_cases hopen : '[' ∈ zone
    · have hmem : '[' ∈ escape .host (name ++ zone) :=
        (mem_escape_iff (by decide) (by decide) (by decide)).mpr (List.mem_append_right name hopen)
      have hnot : ¬ZoneKept ('[' :: (name ++ zone) ++ ']' :: port) := fun h =>
        (hkept.mp h '[' hopen).1 rfl
      rw [if_neg hnot, parseHost]
      cases hcut : cutLast '[' ('[' :: escape .host (name ++ zone) ++ ']' :: port) with
      | none => exact absurd (by simp) (HostPort.cutLast_none.mp hcut)
      | some r =>
        obtain ⟨before, after⟩ := r
        obtain ⟨hs, hafter⟩ := HostPort.cutLast_some hcut
        cases before with
        | nil =>
          rw [List.nil_append, List.cons_append] at hs
          rw [← (List.cons.inj hs).2] at hafter
          exact absurd (List.mem_append_left _ hmem) hafter
        | cons c before => rfl
    · have hnot : '[' ∉ escape .host (name ++ zone) := by
        rw [mem_escape_iff (by decide) (by decide) (by decide), List.mem_append, not_or]
        exact ⟨fun hc => (hname '[' hc).2.1 rfl, hopen⟩
      rw [parseHost_literal hport hnot,
        unescapeLiteral_escape (fun c hc => ⟨(hname c hc).1, (hname c hc).2.2⟩) hzone]
      by_cases hlow : ∀ c ∈ zone, c.toNat < 128
      · rw [unescape_zone_low hbytes hlow, Option.map_some, Option.bind_some, if_pos hliteral,
          if_pos]
        exact hkept.mpr fun c hc => ⟨fun he => hopen (he ▸ hc), hlow c hc⟩
      · rw [if_neg fun h => hlow fun c hc => (hkept.mp h c hc).2]
        push Not at hlow
        rw [unescape_zone_high hbytes hlow]
        rfl

theorem unescapeLiteral_form (h : unescapeLiteral s = some t) (hs : IsBytes s) (hopen : '[' ∉ s) :
    ∃ name zone, t = name ++ zone ∧ (∀ c ∈ name, IsHostChar c ∧ c ≠ '[' ∧ c ≠ '%') ∧
      (zone = [] ∨ ∃ z, zone = '%' :: z) ∧ ∀ c ∈ zone, IsZoneByte c := by
  have hname : ∀ {p n : Text}, p <+: s → cutZone p = none → unescape .host p = some n →
      ∀ c ∈ n, IsHostChar c ∧ c ≠ '[' ∧ c ≠ '%' := by
    intro p n hp hcut hread c hc
    have hdecodes := decodes_of_unescape hread
    obtain ⟨hchar, hlow⟩ := hdecodes.isHostChar (fun d hd => hs d (hp.subset hd)) c hc
    have hpercent : c ≠ '%' := fun he => hdecodes.notMem_percent hcut (he ▸ hc)
    refine ⟨hchar, ?_, hpercent⟩
    rintro rfl
    exact hopen (hp.subset (hlow (by decide) (by decide)))
  unfold unescapeLiteral at h
  cases hcut : cutZone s with
  | none =>
    simp only [hcut] at h
    exact ⟨t, [], (List.append_nil t).symm, hname (List.prefix_refl s) hcut h, .inl rfl,
      fun c hc => absurd hc List.not_mem_nil⟩
  | some r =>
    obtain ⟨p, z⟩ := r
    simp only [hcut] at h
    obtain ⟨rfl, ⟨w, rfl⟩, hnone⟩ := cutZone_some hcut
    obtain ⟨n, hn, hz⟩ := Option.bind_eq_some_iff.mp h
    obtain ⟨u, hu, rfl⟩ := Option.map_eq_some_iff.mp hz
    have hzone := (decodes_of_unescape hu).isZoneByte
      fun c hc => hs c (List.mem_append_right p hc)
    refine ⟨n, u, rfl, hname (List.prefix_append p _) hnone hn, .inr ?_, hzone⟩
    rw [unescape_percent] at hu
    obtain ⟨v, -, rfl⟩ := Option.map_eq_some_iff.mp hu
    exact ⟨v, rfl⟩

theorem hexVal_ne_colon {x : ℕ} (h : hexVal c = some x) : c ≠ ':' := by
  rintro rfl
  cases h

theorem ne_colon_of_refused {x y : ℕ} (hx : x < 16) (hy : y < 16)
    (hr : refused .host x y = false) : Char.ofNat (16 * x + y) ≠ ':' := by
  intro he
  have hnat := congrArg Char.toNat he
  rw [toNat_escaped hx hy] at hnat
  have hcolon : ':'.toNat = 58 := rfl
  obtain rfl : x = 3 := by omega
  obtain rfl : y = 10 := by omega
  exact absurd hr (by decide)

/-- A port has no percent sign to decode. -/
theorem Decodes.eq_of_port (h : Decodes .host s t)
    (hport : validOptionalPort (':' :: s) = true) : t = s :=
  h.eq fun hp => notMem_port hport (by decide) (by decide) (List.mem_cons_of_mem ':' hp)

/-- The port of a host is not encoded, and no colon is. -/
theorem Decodes.fromColon (h : Decodes .host s t)
    (hport : validOptionalPort (fromColon s) = true) :
    validOptionalPort (Url.fromColon t) = true := by
  induction h with
  | nil => rfl
  | @char c s t hc hr h ih =>
    by_cases hcolon : c = ':'
    · subst hcolon
      rw [fromColon_colon] at hport ⊢
      rwa [h.eq_of_port hport]
    · rw [fromColon_cons hcolon] at hport ⊢
      exact ih hport
  | @escaped a b x y s t ha hb hr h ih =>
    rw [fromColon_cons (by decide), fromColon_cons (hexVal_ne_colon ha),
      fromColon_cons (hexVal_ne_colon hb)] at hport
    rw [fromColon_cons (ne_colon_of_refused (hexVal_lt ha) (hexVal_lt hb) hr)]
    exact ih hport

theorem Decodes.mem_colon (h : Decodes .host s t) : ':' ∈ t ↔ ':' ∈ s := by
  induction h with
  | nil => rfl
  | char hc hr h ih => rw [List.mem_cons, List.mem_cons, ih]
  | @escaped a b x y s t ha hb hr h ih =>
    simp only [List.mem_cons, ih, (hexVal_ne_colon ha).symm, (hexVal_ne_colon hb).symm,
      (ne_colon_of_refused (hexVal_lt ha) (hexVal_lt hb) hr).symm, false_or,
      show ':' ≠ '%' by decide]

theorem Decodes.fromLastColon (h : Decodes .host s t)
    (hport : validOptionalPort (fromLastColon s) = true) :
    validOptionalPort (Url.fromLastColon t) = true := by
  induction h with
  | nil => rfl
  | @char c s t hc hr h ih =>
    by_cases hmem : ':' ∈ s
    · rw [fromLastColon_cons_of_mem hmem] at hport
      rw [fromLastColon_cons_of_mem (h.mem_colon.mpr hmem)]
      exact ih hport
    · by_cases hcolon : c = ':'
      · subst hcolon
        have hlast : Url.fromLastColon (':' :: s) = ':' :: s := fromLastColon_append hmem []
        rw [hlast] at hport
        rwa [h.eq_of_port hport, hlast]
      · rw [fromLastColon_cons hcolon, fromLastColon_of_notMem (mt h.mem_colon.mp hmem)]
        rfl
  | @escaped a b x y s t ha hb hr h ih =>
    rw [fromLastColon_cons (by decide), fromLastColon_cons (hexVal_ne_colon ha),
      fromLastColon_cons (hexVal_ne_colon hb)] at hport
    rw [fromLastColon_cons (ne_colon_of_refused (hexVal_lt ha) (hexVal_lt hb) hr)]
    exact ih hport

theorem Decodes.portText (h : Decodes .host s t)
    (hport : validOptionalPort (portText scheme s) = true) :
    validOptionalPort (Url.portText scheme t) = true := by
  unfold Url.portText at hport ⊢
  split_ifs at hport ⊢
  · exact h.fromColon hport
  · exact h.fromLastColon hport

theorem parseHost_form (h : parseHost scheme s = some host) (hs : IsBytes s) :
    HostForm scheme host := by
  unfold parseHost at h
  split at h
  · rename_i inner hcut
    obtain ⟨rfl, hinner⟩ := HostPort.cutLast_some hcut
    split at h
    · rename_i hostname colonPort hclose
      obtain ⟨rfl, -⟩ := HostPort.cutLast_some hclose
      split_ifs at h with hport
      split at h
      · rename_i name port hname hp
        split_ifs at h with hliteral
        obtain rfl := Option.some.inj h
        have hbytes : IsBytes hostname := fun c hc => hs c (by simp [hc])
        have hopen : '[' ∉ hostname := fun hc => hinner (List.mem_append_left _ hc)
        obtain ⟨n, zone, rfl, hn, hzone, hz⟩ := unescapeLiteral_form hname hbytes hopen
        obtain rfl := Option.some.inj ((unescape_port hport).symm.trans hp)
        exact .literal hn hzone hz hliteral hport
      · cases h
    · cases h
  · cases h
  · rename_i hcut
    have hopen := HostPort.cutLast_none.mp hcut
    split_ifs at h with hport
    have hdecodes := decodes_of_unescape h
    refine .name (fun c hc => ?_) (hdecodes.portText hport)
    obtain ⟨hchar, hlow⟩ := hdecodes.isHostChar hs c hc
    refine ⟨hchar, ?_⟩
    rintro rfl
    exact hopen (hlow (by decide) (by decide))

end Host

example : parseHost "ssh".toList "a:b:22".toList = some "a:b:22".toList ∧
    parseHost "http".toList "a:b:22".toList = none := by decide

end SshTunnel.Lib.Url
