import SshTunnel.Lib.URL

/-!
# What `url.Parse` gives

The readers of the parts of a url, and what the urls that `Parse` gives have in common
(`Parsed`).
-/

namespace SshTunnel.Lib.Url

open Net (Text hexVal)
open HostPort (cutLast cutLast_some cutLast_append)

/-! ### Cuts -/

section Cut

variable {c : Char} {s t : Text}

theorem cut_append (h : c ∉ s) (t : Text) : cut c (s ++ c :: t) = (s, t) := by
  rw [cut, List.takeWhile_append_of_pos (forall_ne h),
    List.dropWhile_append_of_pos (forall_ne h),
    List.takeWhile_cons_of_neg (by simp), List.dropWhile_cons_of_neg (by simp), List.append_nil]
  rfl

theorem cut_of_notMem (h : c ∉ s) : cut c s = (s, []) := by
  rw [cut, List.takeWhile_eq_self_iff.mpr (forall_ne h),
    List.dropWhile_eq_nil_iff.mpr (forall_ne h)]
  rfl

theorem notMem_cut (c : Char) (s : Text) : c ∉ (cut c s).1 := by
  intro h
  exact absurd (List.mem_takeWhile_imp h) (by simp)

theorem cut_cases (c : Char) (s : Text) :
    s = (cut c s).1 ∧ (cut c s).2 = [] ∨ s = (cut c s).1 ++ c :: (cut c s).2 := by
  by_cases h : c ∈ s
  · obtain ⟨before, after, rfl, hbefore⟩ := List.eq_append_cons_of_mem h
    rw [cut_append hbefore]
    exact .inr rfl
  · rw [cut_of_notMem h]
    exact .inl ⟨rfl, rfl⟩

theorem cut_fst_subset (c : Char) (s : Text) : (cut c s).1 ⊆ s :=
  (List.takeWhile_prefix _).subset

theorem cut_snd_subset (c : Char) (s : Text) : (cut c s).2 ⊆ s :=
  ((List.drop_suffix 1 _).trans (List.dropWhile_suffix _)).subset

end Cut

/-! ### Users -/

def Userinfo.IsBytes (u : Userinfo) : Prop :=
  Url.IsBytes u.username ∧ ∀ password ∈ u.password, Url.IsBytes password

section User

variable {c : Char} {s : Text} {u : Userinfo}

theorem isUserinfoChar_escape (hs : IsBytes s) (hc : c ∈ escape .userPassword s) :
    isUserinfoChar c = true := by
  rcases mem_escape hc with rfl | halnum | ⟨hmem, hkept⟩
  · decide
  · rw [isUserinfoChar, halnum, Bool.true_or]
  · have hall : ∀ b : Net.Byte, shouldEscape .userPassword (Char.ofNat b.val) = false →
        isUserinfoChar (Char.ofNat b.val) = true := by decide +kernel
    exact forall_byte (P := fun c => shouldEscape .userPassword c = false →
      isUserinfoChar c = true) hall (hs c hmem) hkept

theorem parseUserinfo_name (hchars : s.all isUserinfoChar = true) (hcolon : ':' ∉ s) :
    parseUserinfo s = (unescape .userPassword s).map fun name => ⟨name, none⟩ := by
  rw [parseUserinfo, if_neg (not_not.mpr hchars), if_pos hcolon]

theorem parseUserinfo_password {name password : Text}
    (hchars : (name ++ ':' :: password).all isUserinfoChar = true) (hcolon : ':' ∉ name) :
    parseUserinfo (name ++ ':' :: password) =
      (unescape .userPassword name).bind fun n =>
        (unescape .userPassword password).map fun p => ⟨n, some p⟩ := by
  rw [parseUserinfo, if_neg (not_not.mpr hchars), if_neg (by simp), cut_append hcolon]

theorem parseUserinfo_string (hu : u.IsBytes) :
    ∃ w, parseUserinfo u.string = some w ∧ w.username = u.username := by
  obtain ⟨username, password⟩ := u
  obtain ⟨hname, hpassword⟩ := hu
  have hread : ∀ {s : Text}, IsBytes s → unescape .userPassword (escape .userPassword s) = some s :=
    unescape_escape_component (.inr (.inl rfl))
  have hcolon : ∀ s, ':' ∉ escape .userPassword s := fun s => notMem_escape (by decide) (by decide)
  have hchars : ∀ {s : Text}, IsBytes s → (escape .userPassword s).all isUserinfoChar = true :=
    fun hs => List.all_eq_true.mpr fun c hc => isUserinfoChar_escape hs hc
  unfold Userinfo.string
  split
  · cases password with
    | none =>
      refine ⟨⟨username, none⟩, ?_, rfl⟩
      rw [Option.elim_none, List.append_nil, parseUserinfo_name (hchars hname) (hcolon _),
        hread hname]
      rfl
    | some password =>
      have hp := hpassword password rfl
      have hall : (escape .userPassword username ++ ':' :: escape .userPassword password).all
          isUserinfoChar = true := by
        rw [List.all_append, List.all_cons, hchars hname, hchars hp]
        rfl
      refine ⟨⟨username, some password⟩, ?_, rfl⟩
      rw [Option.elim_some, parseUserinfo_password hall (hcolon _), hread hname, hread hp]
      rfl
  · rename_i hempty
    rw [not_or, not_not, not_not] at hempty
    exact ⟨⟨[], none⟩, rfl, hempty.1.symm⟩

theorem parseUserinfo_isBytes (h : parseUserinfo s = some u) (hs : IsBytes s) : u.IsBytes := by
  unfold parseUserinfo at h
  split_ifs at h with hchars hcolon
  · obtain ⟨name, hname, h⟩ := Option.bind_eq_some_iff.mp h
    obtain ⟨password, hpassword, rfl⟩ := Option.map_eq_some_iff.mp h
    refine ⟨(decodes_of_unescape hname).isBytes fun c hc => hs c (cut_fst_subset ':' s hc), ?_⟩
    rintro p hp
    obtain rfl := Option.some.inj hp
    exact (decodes_of_unescape hpassword).isBytes fun c hc => hs c (cut_snd_subset ':' s hc)
  · obtain ⟨name, hname, rfl⟩ := Option.map_eq_some_iff.mp h
    exact ⟨(decodes_of_unescape hname).isBytes hs, fun p hp => (Option.not_mem_none p hp).elim⟩

end User

/-! ### Paths and fragments -/

/-- What `setPath` and `setFragment` write for a text. -/
structure Encodes (mode : Mode) (text decoded rawText : Text) : Prop where
  bytes : IsBytes text
  read : unescape mode text = some decoded
  written : rawText = raw mode text decoded

section Encoded

variable {mode : Mode} {text decoded rawText : Text} {d : Char}

/-- The text itself is written, or the default encoding where the text is no valid one. -/
theorem Encodes.cases (h : Encodes mode text decoded rawText) :
    encoded mode decoded rawText = text ∨
      encoded mode decoded rawText = escape mode decoded ∧ ¬validEncoded mode rawText = true := by
  have hraw := h.written
  unfold encoded
  unfold raw at hraw
  split at hraw
  · rename_i heq
    rw [hraw, if_neg fun hne => hne.1 rfl]
    exact .inl heq.symm
  · rename_i hne
    rw [hraw]
    by_cases hvalid : validEncoded mode text = true
    · have hnil : text ≠ [] := by
        rintro rfl
        cases h.read
        exact hne rfl
      rw [if_pos ⟨hnil, hvalid, h.read⟩]
      exact .inl rfl
    · rw [if_neg fun hall => hvalid hall.2.1]
      exact .inr ⟨rfl, hvalid⟩

theorem Encodes.unescape_encoded (h : Encodes mode text decoded rawText)
    (hmode : mode = .path ∨ mode = .userPassword ∨ mode = .fragment) :
    unescape mode (encoded mode decoded rawText) = some decoded := by
  rcases h.cases with heq | ⟨heq, -⟩
  · rw [heq, h.read]
  · rw [heq]
    exact unescape_escape_component hmode ((decodes_of_unescape h.read).isBytes h.bytes)

/-- A separator that the text does not have is written for an encoded one exactly where
the text is no valid encoding. -/
theorem Encodes.mem_encoded_iff (h : Encodes mode text decoded rawText) (hd : d ∉ text)
    (hs : shouldEscape mode d = false) (halnum : d.isAlphanum = false) (hp : d ≠ '%') :
    d ∈ encoded mode decoded rawText ↔ d ∈ decoded ∧ ¬validEncoded mode rawText = true := by
  have hraw := h.written
  unfold raw at hraw
  split at hraw
  · rename_i heq
    subst hraw
    have hnot : d ∉ decoded := fun hmem =>
      hd (heq ▸ (mem_escape_iff hs halnum hp).mpr hmem)
    refine iff_of_false ?_ fun hmem => hnot hmem.1
    rw [encoded, if_neg fun hne => hne.1 rfl, mem_escape_iff hs halnum hp]
    exact hnot
  · subst hraw
    by_cases hvalid : validEncoded mode rawText = true
    · refine iff_of_false ?_ fun hmem => hmem.2 hvalid
      rcases h.cases with heq | ⟨-, hnot⟩
      · rwa [heq]
      · exact absurd hvalid hnot
    · rw [encoded, if_neg fun hall => hvalid hall.2.1, mem_escape_iff hs halnum hp]
      exact ⟨fun hmem => ⟨hmem, hvalid⟩, fun hmem => hmem.1⟩

end Encoded

/-! ### What `Parse` gives -/

/-- A character that may stand in front of the fragment. -/
def Clean (c : Char) : Prop := isCTL c = false ∧ c ≠ '#'

structure Parsed (rawURL : Text) (u : URL) : Prop where
  user : ∀ v ∈ u.user, v.IsBytes
  host : HostForm u.scheme u.host
  path : ∃ text, Encodes .path text u.path u.rawPath ∧ (text = [] ∨ text.head? = some '/') ∧
    ∀ c ∈ text, c ∈ rawURL ∧ Clean c ∧ c ≠ '?'
  opaquePart : ∀ c ∈ u.opaquePart, c ∈ rawURL ∧ Clean c ∧ c ≠ '?'
  rootless : u.opaquePart.head? ≠ some '/'
  rawQuery : ∀ c ∈ u.rawQuery, c ∈ rawURL ∧ Clean c
  fragment : ∃ text, Encodes .fragment text u.fragment u.rawFragment ∧ text ⊆ rawURL

section Parse

variable {s rest scheme authority host text : Text} {url u : URL} {user : Option Userinfo}

theorem getScheme_some (h : getScheme s = some (scheme, rest)) (hne : scheme ≠ []) :
    s = scheme ++ ':' :: rest ∧ ':' ∉ scheme := by
  unfold getScheme at h
  split at h
  · rename_i r hdrop
    dsimp only at h
    split at h
    · cases h
    · rename_i c cs htake
      obtain ⟨rfl, rfl⟩ : s.takeWhile isSchemeChar = scheme ∧ r = rest := by
        split at h
        · exact Prod.mk.inj (Option.some.inj h)
        · exact absurd (Prod.mk.inj (Option.some.inj h)).1.symm hne
      refine ⟨?_, fun hc => absurd (List.mem_takeWhile_imp hc) (by decide)⟩
      rw [← hdrop, List.takeWhile_append_dropWhile]
  · exact absurd (Prod.mk.inj (Option.some.inj h)).1.symm hne

theorem parseAuthority_some (h : parseAuthority scheme authority = some (user, host))
    (hs : IsBytes authority) : (∀ v ∈ user, v.IsBytes) ∧ HostForm scheme host := by
  unfold parseAuthority at h
  split at h
  · obtain ⟨r, hr, heq⟩ := Option.map_eq_some_iff.mp h
    obtain ⟨rfl, rfl⟩ := Prod.mk.inj heq
    exact ⟨fun v hv => (Option.not_mem_none v hv).elim, parseHost_form hr hs⟩
  · rename_i userinfo hostText hcut
    obtain ⟨rfl, -⟩ := cutLast_some hcut
    obtain ⟨r, hr, h⟩ := Option.bind_eq_some_iff.mp h
    obtain ⟨v, hv, heq⟩ := Option.map_eq_some_iff.mp h
    obtain ⟨rfl, rfl⟩ := Prod.mk.inj heq
    refine ⟨fun w hw => ?_, parseHost_form hr fun c hc => hs c (by simp [hc])⟩
    obtain rfl := Option.some.inj hw
    exact parseUserinfo_isBytes hv fun c hc => hs c (by simp [hc])

theorem setPath_some (h : url.setPath text = some u) :
    ∃ path, unescape .path text = some path ∧
      u = { url with path := path, rawPath := raw .path text path } := by
  obtain ⟨path, hpath, rfl⟩ := Option.map_eq_some_iff.mp h
  exact ⟨path, hpath, rfl⟩

variable {rawURL : Text}

theorem parsed_empty (scheme : Text) (forceQuery : Bool) {rawQuery : Text}
    (h : ∀ c ∈ rawQuery, c ∈ rawURL ∧ Clean c) :
    Parsed rawURL { emptyURL with
      scheme := scheme, forceQuery := forceQuery, rawQuery := rawQuery } where
  user v hv := (Option.not_mem_none v hv).elim
  host := .name (fun _ hc => absurd hc List.not_mem_nil) (by unfold portText; split <;> rfl)
  path := ⟨[], ⟨fun _ hc => absurd hc List.not_mem_nil, rfl, rfl⟩, .inl rfl,
    fun _ hc => absurd hc List.not_mem_nil⟩
  opaquePart _ hc := absurd hc List.not_mem_nil
  rootless h := by cases h
  rawQuery := h
  fragment := ⟨[], ⟨fun _ hc => absurd hc List.not_mem_nil, rfl, rfl⟩, List.nil_subset _⟩

theorem Parsed.setPath (h : Parsed rawURL url) (hu : url.setPath text = some u)
    (hs : IsBytes text) (hhead : text = [] ∨ text.head? = some '/')
    (hmem : ∀ c ∈ text, c ∈ rawURL ∧ Clean c ∧ c ≠ '?') : Parsed rawURL u := by
  obtain ⟨path, hpath, rfl⟩ := setPath_some hu
  exact ⟨h.user, h.host, ⟨text, ⟨hs, hpath, rfl⟩, hhead, hmem⟩, h.opaquePart, h.rootless,
    h.rawQuery, h.fragment⟩

theorem Parsed.setFragment (h : Parsed rawURL url) (hu : url.setFragment text = some u)
    (hs : IsBytes text) (hmem : text ⊆ rawURL) : Parsed rawURL u := by
  obtain ⟨fragment, hfragment, rfl⟩ := Option.map_eq_some_iff.mp hu
  exact ⟨h.user, h.host, h.path, h.opaquePart, h.rootless, h.rawQuery, text,
    ⟨hs, hfragment, rfl⟩, hmem⟩

theorem Parsed.setAuthority (h : Parsed rawURL url)
    (hu : parseAuthority url.scheme authority = some (user, host)) (hs : IsBytes authority) :
    Parsed rawURL { url with user := user, host := host } := by
  obtain ⟨huser, hhost⟩ := parseAuthority_some hu hs
  exact ⟨huser, hhost, h.path, h.opaquePart, h.rootless, h.rawQuery, h.fragment⟩

theorem head_dropWhile (s : Text) :
    s.dropWhile (· ≠ '/') = [] ∨ (s.dropWhile (· ≠ '/')).head? = some '/' := by
  induction s with
  | nil => exact .inl rfl
  | cons c s ih =>
    by_cases hc : c = '/'
    · rw [hc, List.dropWhile_cons_of_neg (by decide)]
      exact .inr rfl
    · rw [List.dropWhile_cons_of_pos (by simpa using hc)]
      exact ih

/-- The three forms of a url with a scheme: rootless, with an authority, without one. -/
theorem parseRest_some (h : url.parseRest rest = some u) (hscheme : url.scheme ≠ []) :
    (rest.head? ≠ some '/' ∧ u = { url with opaquePart := rest }) ∨
      (∃ user host,
        parseAuthority url.scheme ((rest.drop 2).takeWhile (· ≠ '/')) = some (user, host) ∧
        { url with user := user, host := host }.setPath ((rest.drop 2).dropWhile (· ≠ '/')) =
          some u) ∨
      (rest.head? = some '/' ∧ { url with omitHost := true }.setPath rest = some u) := by
  unfold URL.parseRest at h
  split_ifs at h with hopaquePart hcolon hauthority
  · exact .inl ⟨hopaquePart.1, (Option.some.inj h).symm⟩
  · obtain ⟨r, hr, hu⟩ := Option.bind_eq_some_iff.mp h
    exact .inr (.inl ⟨r.1, r.2, hr, hu⟩)
  · have hhead : rest.head? = some '/' := by
      by_contra hne
      exact hopaquePart ⟨hne, hscheme⟩
    have homit : (decide (url.scheme ≠ []) && decide (rest.head? = some '/')) = true := by
      rw [decide_eq_true hscheme, decide_eq_true hhead]
      rfl
    rw [homit] at h
    exact .inr (.inr ⟨hhead, h⟩)

theorem Parsed.parseRest (h : Parsed rawURL url) (hu : url.parseRest rest = some u)
    (hscheme : url.scheme ≠ []) (hs : IsBytes rest)
    (hmem : ∀ c ∈ rest, c ∈ rawURL ∧ Clean c ∧ c ≠ '?') : Parsed rawURL u := by
  rcases parseRest_some hu hscheme with
    ⟨hrootless, rfl⟩ | ⟨user, host, hauthority, hpath⟩ | ⟨hhead, hpath⟩
  · exact ⟨h.user, h.host, h.path, hmem, hrootless, h.rawQuery, h.fragment⟩
  · have hdrop : rest.drop 2 ⊆ rest := List.drop_subset 2 rest
    have hbefore : (rest.drop 2).takeWhile (· ≠ '/') ⊆ rest :=
      fun c hc => hdrop ((List.takeWhile_prefix _).subset hc)
    have hbehind : (rest.drop 2).dropWhile (· ≠ '/') ⊆ rest :=
      fun c hc => hdrop ((List.dropWhile_suffix _).subset hc)
    exact (h.setAuthority hauthority fun c hc => hs c (hbefore hc)).setPath hpath
      (fun c hc => hs c (hbehind hc)) (head_dropWhile _) fun c hc => hmem c (hbehind hc)
  · have homit : Parsed rawURL { url with omitHost := true } :=
      ⟨h.user, h.host, h.path, h.opaquePart, h.rootless, h.rawQuery, h.fragment⟩
    exact homit.setPath hpath hs (.inr hhead) hmem

theorem parseRest_scheme (h : url.parseRest rest = some u) : u.scheme = url.scheme := by
  unfold URL.parseRest at h
  split_ifs at h with hopaquePart hcolon hauthority
  · rw [← Option.some.inj h]
  · obtain ⟨r, -, hu⟩ := Option.bind_eq_some_iff.mp h
    obtain ⟨path, -, rfl⟩ := setPath_some hu
    rfl
  · obtain ⟨path, -, rfl⟩ := setPath_some h
    rfl

/-- The text behind the scheme, cut at its first question mark. -/
theorem parseMain_some {main : Text} (h : parseMain main = some u) (hscheme : u.scheme ≠ []) :
    ∃ scheme rest, main = scheme ++ ':' :: rest ∧ ':' ∉ scheme ∧ scheme ≠ [] ∧
      (∀ c ∈ main, isCTL c = false) ∧
      { emptyURL with
        scheme := scheme.map Char.toLower
        forceQuery := rest.getLast? = some '?' && rest.count '?' = 1
        rawQuery := (cut '?' rest).2 }.parseRest (cut '?' rest).1 = some u := by
  unfold parseMain at h
  split_ifs at h with hctl hstar
  · obtain rfl := Option.some.inj h
    exact absurd rfl hscheme
  · obtain ⟨⟨scheme, rest⟩, hget, hrest⟩ := Option.bind_eq_some_iff.mp h
    have hclean : ∀ c ∈ main, isCTL c = false := by
      intro c hc
      by_contra hnot
      exact hctl (List.any_eq_true.mpr ⟨c, hc, Bool.eq_true_of_not_eq_false hnot⟩)
    have hne : scheme ≠ [] := by
      rintro rfl
      rw [parseRest_scheme hrest] at hscheme
      exact hscheme rfl
    obtain ⟨hmain, hcolon⟩ := getScheme_some hget hne
    exact ⟨scheme, rest, hmain, hcolon, hne, hclean, hrest⟩

theorem parse_some (h : parse s = some u) :
    ∃ v, parseMain (cut '#' s).1 = some v ∧
      ((cut '#' s).2 = [] ∧ u = v ∨ v.setFragment (cut '#' s).2 = some u) := by
  obtain ⟨v, hv, hu⟩ := Option.bind_eq_some_iff.mp h
  refine ⟨v, hv, ?_⟩
  split at hu
  · rename_i hnil
    exact .inl ⟨hnil, (Option.some.inj hu).symm⟩
  · exact .inr hu

theorem setFragment_some (h : url.setFragment text = some u) :
    ∃ fragment, unescape .fragment text = some fragment ∧
      u = { url with fragment := fragment, rawFragment := raw .fragment text fragment } := by
  obtain ⟨fragment, hfragment, rfl⟩ := Option.map_eq_some_iff.mp h
  exact ⟨fragment, hfragment, rfl⟩

/-- The scheme is what stands in front of the first colon. -/
theorem parse_scheme {scheme : Text} (h : parse (scheme ++ ':' :: rest) = some u)
    (hu : u.scheme ≠ []) (hcolon : ':' ∉ scheme) (hhash : '#' ∉ scheme) :
    u.scheme = scheme.map Char.toLower := by
  obtain ⟨v, hv, hvu⟩ := parse_some h
  have hsame : u.scheme = v.scheme := by
    rcases hvu with ⟨-, rfl⟩ | hvu
    · rfl
    · obtain ⟨fragment, -, rfl⟩ := setFragment_some hvu
      rfl
  obtain ⟨scheme', rest', hmain, hcolon', -, -, hrest⟩ := parseMain_some hv (hsame ▸ hu)
  have hcut : (cut '#' (scheme ++ ':' :: rest)).1 = scheme ++ ':' :: (cut '#' rest).1 := by
    have hbefore : '#' ∉ scheme ++ [':'] := fun hc =>
      (List.mem_append.mp hc).elim hhash fun hc => absurd hc (by decide)
    rw [← List.singleton_append, ← List.append_assoc, cut,
      List.takeWhile_append_of_pos (forall_ne hbefore), List.append_assoc]
    rfl
  have heq := cut_append hcolon' rest'
  rw [← hmain, hcut, cut_append hcolon] at heq
  rw [hsame, parseRest_scheme hrest, (Prod.mk.inj heq).1]

/-- Every url with a scheme is `Parsed`. -/
theorem parse_parsed (h : parse s = some u) (hs : IsBytes s) (hscheme : u.scheme ≠ []) :
    Parsed s u := by
  obtain ⟨v, hv, hu⟩ := parse_some h
  have hvs : v.scheme = u.scheme := by
    rcases hu with ⟨-, rfl⟩ | hu
    · rfl
    · obtain ⟨fragment, -, rfl⟩ := setFragment_some hu
      rfl
  obtain ⟨scheme, rest, hmain, -, hne, hclean, hrest⟩ := parseMain_some hv (hvs ▸ hscheme)
  have hsub : rest ⊆ (cut '#' s).1 := by
    rw [hmain]
    exact fun c hc => List.mem_append_right scheme (List.mem_cons_of_mem ':' hc)
  have hmem : ∀ c ∈ rest, c ∈ s ∧ Clean c := by
    intro c hc
    refine ⟨cut_fst_subset '#' s (hsub hc), hclean c (hsub hc), ?_⟩
    rintro rfl
    exact notMem_cut '#' s (hsub hc)
  have hparsed : Parsed s v := by
    have hempty := fun c hc => hmem c (cut_snd_subset '?' rest hc)
    refine (parsed_empty _ _ hempty).parseRest hrest ?_ ?_ ?_
    · exact fun hnil => hne (List.map_eq_nil_iff.mp hnil)
    · exact fun c hc => hs c (hmem c (cut_fst_subset '?' rest hc)).1
    · intro c hc
      obtain ⟨hin, hcl⟩ := hmem c (cut_fst_subset '?' rest hc)
      refine ⟨hin, hcl, ?_⟩
      rintro rfl
      exact notMem_cut '?' rest hc
  rcases hu with ⟨-, rfl⟩ | hu
  · exact hparsed
  · exact hparsed.setFragment hu (fun c hc => hs c (cut_snd_subset '#' s hc)) (cut_snd_subset '#' s)

end Parse

end SshTunnel.Lib.Url
