import SshTunnel.Lib.URLParse

/-!
# A written url is read again

How `url.Parse` reads the text that `URL.String` writes for a parsed url with another
user, and which separators between urls that text can have.
-/

namespace SshTunnel.Lib.Url

open Net (Text hexVal)
open HostPort (cutLast cutLast_append prefix_of_append_cons)

/-! ### What `String` writes -/

section Clean

variable {mode : Mode} {c : Char} {s : Text}

theorem shouldEscape_ctl (h : isCTL c = true) : shouldEscape mode c = true := by
  have hlow : c.toNat < 256 := by
    simp only [isCTL, Bool.or_eq_true, decide_eq_true_eq] at h
    omega
  have hall : ∀ b : Net.Byte, isCTL (Char.ofNat b.val) = true →
      ∀ m ∈ modes, shouldEscape m (Char.ofNat b.val) = true := by decide +kernel
  exact forall_byte (P := fun c => isCTL c = true → ∀ m ∈ modes, shouldEscape m c = true) hall
    hlow h mode (mem_modes mode)

theorem shouldEscape_hash (mode : Mode) : shouldEscape mode '#' = true := by
  cases mode <;> decide

theorem clean_alphanum (h : c.isAlphanum = true) : Clean c := by
  refine ⟨?_, ?_⟩
  · by_contra hctl
    have hs : shouldEscape .path c = true :=
      shouldEscape_ctl (Bool.eq_true_of_not_eq_false hctl)
    rw [isAlphanum_of_shouldEscape hs] at h
    cases h
  · rintro rfl
    cases h

theorem clean_escape (h : c ∈ escape mode s) : Clean c := by
  rcases mem_escape h with rfl | halnum | ⟨-, hs⟩
  · exact ⟨by decide, by decide⟩
  · exact clean_alphanum halnum
  · refine ⟨?_, ?_⟩
    · by_contra hctl
      rw [shouldEscape_ctl (Bool.eq_true_of_not_eq_false hctl)] at hs
      cases hs
    · rintro rfl
      rw [shouldEscape_hash] at hs
      cases hs

/-- A scheme as `Parse` writes it. -/
def IsScheme (scheme : Text) : Prop :=
  (∃ c cs, scheme = c :: cs ∧ c.isAlpha = true) ∧
    ∀ c ∈ scheme, isSchemeChar c = true ∧ c.toLower = c

theorem IsScheme.clean {scheme : Text} (h : IsScheme scheme) (hc : c ∈ scheme) : Clean c := by
  have hchar := (h.2 c hc).1
  simp only [isSchemeChar, Bool.or_eq_true, decide_eq_true_eq] at hchar
  rcases hchar with ((halnum | rfl) | rfl) | rfl
  · exact clean_alphanum halnum
  · exact ⟨by decide, by decide⟩
  · exact ⟨by decide, by decide⟩
  · exact ⟨by decide, by decide⟩

theorem getScheme_append {scheme : Text} (h : IsScheme scheme) (rest : Text) :
    getScheme (scheme ++ ':' :: rest) = some (scheme, rest) := by
  obtain ⟨⟨c, cs, rfl, halpha⟩, hchars⟩ := h
  have hall : ∀ d ∈ c :: cs, isSchemeChar d = true := fun d hd => (hchars d hd).1
  have htake : (c :: cs ++ ':' :: rest).takeWhile isSchemeChar = c :: cs := by
    rw [List.takeWhile_append_of_pos hall, List.takeWhile_cons_of_neg (by decide), List.append_nil]
  have hdrop : (c :: cs ++ ':' :: rest).dropWhile isSchemeChar = ':' :: rest := by
    rw [List.dropWhile_append_of_pos hall, List.dropWhile_cons_of_neg (by decide)]
  simp only [getScheme, htake, hdrop, if_pos halpha]

theorem IsScheme.map_toLower {scheme : Text} (h : IsScheme scheme) :
    scheme.map Char.toLower = scheme := by
  conv_rhs => rw [← List.map_id scheme]
  exact List.map_congr_left fun c hc => (h.2 c hc).2

theorem IsScheme.ne_nil {scheme : Text} (h : IsScheme scheme) : scheme ≠ [] := by
  obtain ⟨⟨c, cs, rfl, -⟩, -⟩ := h
  exact List.cons_ne_nil c cs

end Clean

section String

variable {rawURL text path rawPath : Text} {u : URL} {v : Userinfo}

theorem encoded_head (h : Encodes .path text path rawPath)
    (hhead : text = [] ∨ text.head? = some '/') :
    path ≠ ['*'] ∧ (encoded .path path rawPath = [] ∨
      (encoded .path path rawPath).head? = some '/') := by
  have hpath : path = [] ∨ ∃ p, path = '/' :: p := by
    have hdecodes := decodes_of_unescape h.read
    rcases hhead with rfl | hslash
    · cases hdecodes
      exact .inl rfl
    · cases hdecodes with
      | nil => cases hslash
      | char hc hr htail =>
        cases hslash
        exact .inr ⟨_, rfl⟩
      | escaped ha hb hr htail => cases hslash
  refine ⟨?_, ?_⟩
  · rcases hpath with rfl | ⟨p, rfl⟩
    · exact (List.cons_ne_nil '*' []).symm
    · exact fun he => absurd (List.cons.inj he).1 (by decide)
  · rcases h.cases with heq | ⟨heq, -⟩
    · rwa [heq]
    · rw [heq]
      rcases hpath with rfl | ⟨p, rfl⟩
      · exact .inl rfl
      · exact .inr rfl

/-- The part of the text between the scheme's colon and the query. -/
def URL.restText (u : URL) (v : Userinfo) : Text :=
  "//".toList ++ (v.string ++ '@' :: escape .host u.host) ++ encoded .path u.path u.rawPath

theorem authorityText_user (u : URL) (v : Userinfo) :
    { u with user := some v }.authorityText =
      "//".toList ++ (v.string ++ '@' :: escape .host u.host) := by
  have hsome : (some v : Option Userinfo) ≠ none := Option.some_ne_none v
  unfold URL.authorityText
  rw [if_neg (by simp), if_pos (.inr (.inr hsome))]
  simp

theorem pathText_user (h : Parsed rawURL u) (hscheme : u.scheme ≠ []) :
    { u with user := some v }.pathText = encoded .path u.path u.rawPath := by
  obtain ⟨text, hencodes, hhead, -⟩ := h.path
  obtain ⟨hstar, henc⟩ := encoded_head hencodes hhead
  have hpath : { u with user := some v }.escapedPath = encoded .path u.path u.rawPath := by
    rw [URL.escapedPath, if_neg fun hs => hstar hs.1]
  have hslash : ¬(encoded .path u.path u.rawPath ≠ [] ∧
      (encoded .path u.path u.rawPath).head? ≠ some '/' ∧ u.host ≠ []) := by
    rintro ⟨hne, hnot, -⟩
    exact henc.elim hne hnot
  unfold URL.pathText
  simp only [hpath, if_neg hslash, if_neg hscheme]
  rw [if_neg]
  rintro ⟨hnil, -⟩
  simp at hnil

theorem string_user (h : Parsed rawURL u) (hscheme : u.scheme ≠ [])
    (hopaquePart : u.opaquePart = []) (v : Userinfo) : { u with user := some v }.string =
      u.scheme ++ ':' :: (u.restText v ++ u.queryText) ++ u.fragmentText := by
  have hquery : { u with user := some v }.queryText = u.queryText := rfl
  have hfragment : { u with user := some v }.fragmentText = u.fragmentText := rfl
  rw [URL.string, if_neg hscheme, if_neg (not_not.mpr hopaquePart), authorityText_user,
    pathText_user h hscheme, hquery, hfragment, URL.restText]
  simp only [List.append_assoc, List.cons_append, List.nil_append]

theorem string_rootless (hscheme : u.scheme ≠ []) (hopaquePart : u.opaquePart ≠ []) :
    u.string = u.scheme ++ ':' :: (u.opaquePart ++ u.queryText) ++ u.fragmentText := by
  rw [URL.string, if_neg hscheme, if_pos hopaquePart]
  simp only [List.append_assoc, List.cons_append, List.nil_append]

end String

/-! ### The text is read again -/

/-- What a client that connects reads of a url. -/
def URL.endpoint (u : URL) : Text × Option Userinfo × Text := (u.scheme, u.user, u.host)

section Read

variable {rawURL rest : Text} {u : URL} {v : Userinfo}

theorem setPath_endpoint {url : URL} {text path : Text} (h : unescape .path text = some path) :
    (url.setPath text).map URL.endpoint = some url.endpoint := by
  rw [URL.setPath, h]
  rfl

theorem cut_query (hrest : '?' ∉ rest) (u : URL) :
    (cut '?' (rest ++ u.queryText)).1 = rest := by
  unfold URL.queryText
  split
  · rw [cut_append hrest]
  · rw [List.append_nil, cut_of_notMem hrest]

/-- The fragment does not change what is read of the url. -/
theorem parse_fragmentText {main f : Text} (hmain : '#' ∉ main)
    (hf : unescape .fragment u.escapedFragment = some f) :
    (parse (main ++ u.fragmentText)).map URL.endpoint = (parseMain main).map URL.endpoint := by
  unfold URL.fragmentText
  split
  · rw [parse, cut_append hmain]
    dsimp only
    cases hm : parseMain main with
    | none => rfl
    | some url =>
      rw [Option.bind_some]
      split
      · rfl
      · rw [URL.setFragment, hf]
        rfl
  · rw [List.append_nil, parse, cut_of_notMem hmain]
    dsimp only
    cases hm : parseMain main with
    | none => rfl
    | some url => rfl

theorem clean_main (hscheme : IsScheme u.scheme) (hrest : ∀ c ∈ rest, Clean c)
    (hquery : ∀ c ∈ u.rawQuery, Clean c) :
    ∀ c ∈ u.scheme ++ ':' :: (rest ++ u.queryText), Clean c := by
  have hq : ∀ c ∈ u.queryText, Clean c := by
    unfold URL.queryText
    split
    · exact List.forall_mem_cons.mpr ⟨⟨by decide, by decide⟩, hquery⟩
    · exact fun c hc => absurd hc List.not_mem_nil
  intro c hc
  rcases List.mem_append.mp hc with hc | hc
  · exact hscheme.clean hc
  · rcases List.mem_cons.mp hc with rfl | hc
    · exact ⟨by decide, by decide⟩
    · exact (List.mem_append.mp hc).elim (hrest c) (hq c)

theorem parseMain_text (hscheme : IsScheme u.scheme) (hrest : ∀ c ∈ rest, Clean c ∧ c ≠ '?')
    (hquery : ∀ c ∈ u.rawQuery, Clean c) :
    ∃ url : URL, url.endpoint = (u.scheme, none, []) ∧
      parseMain (u.scheme ++ ':' :: (rest ++ u.queryText)) = url.parseRest rest := by
  have hclean : ¬(u.scheme ++ ':' :: (rest ++ u.queryText)).any isCTL = true := by
    intro hany
    obtain ⟨c, hc, hctl⟩ := List.any_eq_true.mp hany
    rw [(clean_main hscheme (fun c hc => (hrest c hc).1) hquery c hc).1] at hctl
    cases hctl
  have hstar : u.scheme ++ ':' :: (rest ++ u.queryText) ≠ ['*'] := by
    intro he
    have hmem : ':' ∈ ['*'] := he ▸ List.mem_append_right _ List.mem_cons_self
    exact absurd hmem (by decide)
  have hcut := cut_query (fun hc => (hrest '?' hc).2 rfl) u
  rw [parseMain, if_neg hclean, if_neg hstar, getScheme_append hscheme, Option.bind_some]
  dsimp only
  rw [hscheme.map_toLower, hcut]
  exact ⟨_, rfl, rfl⟩

theorem parse_text (h : Parsed rawURL u) (hscheme : IsScheme u.scheme)
    (hrest : ∀ c ∈ rest, Clean c ∧ c ≠ '?') :
    ∃ url : URL, url.endpoint = (u.scheme, none, []) ∧
      (parse (u.scheme ++ ':' :: (rest ++ u.queryText) ++ u.fragmentText)).map URL.endpoint =
        (url.parseRest rest).map URL.endpoint := by
  obtain ⟨f, hf, -⟩ := h.fragment
  have hquery : ∀ c ∈ u.rawQuery, Clean c := fun c hc => (h.rawQuery c hc).2
  obtain ⟨url, hurl, hmain⟩ := parseMain_text hscheme hrest hquery
  have hhash : '#' ∉ u.scheme ++ ':' :: (rest ++ u.queryText) := fun hc =>
    (clean_main hscheme (fun c hc => (hrest c hc).1) hquery '#' hc).2 rfl
  refine ⟨url, hurl, ?_⟩
  rw [parse_fragmentText hhash (hf.unescape_encoded (.inr (.inr rfl))), hmain]

theorem mem_userString {c : Char} (hc : c ∈ v.string) :
    c = ':' ∨ ∃ s, c ∈ escape .userPassword s := by
  unfold Userinfo.string at hc
  split at hc
  · rcases List.mem_append.mp hc with hc | hc
    · exact .inr ⟨_, hc⟩
    · cases hp : v.password with
      | none =>
        rw [hp] at hc
        cases hc
      | some password =>
        rw [hp] at hc
        rcases List.mem_cons.mp hc with rfl | hc
        · exact .inl rfl
        · exact .inr ⟨_, hc⟩
  · cases hc

theorem notMem_authority {c : Char} (huser : shouldEscape .userPassword c = true)
    (hhost : shouldEscape .host c = true) (hp : c ≠ '%') (hcolon : c ≠ ':') (hat : c ≠ '@')
    (v : Userinfo) (host : Text) : c ∉ v.string ++ '@' :: escape .host host := by
  intro hc
  rcases List.mem_append.mp hc with hc | hc
  · rcases mem_userString hc with h | ⟨s, hs⟩
    · exact hcolon h
    · exact notMem_escape huser hp hs
  · rcases List.mem_cons.mp hc with h | hc
    · exact hat h
    · exact notMem_escape hhost hp hc

theorem eq_slash {c : Char} (hc : c ∈ "//".toList) : c = '/' := by
  rcases List.mem_cons.mp hc with h | h
  · exact h
  · exact List.mem_singleton.mp h

theorem clean_restText (h : Parsed rawURL u) (v : Userinfo) :
    ∀ c ∈ u.restText v, Clean c ∧ c ≠ '?' := by
  obtain ⟨text, hencodes, -, hmem⟩ := h.path
  have hescape : ∀ {mode s c}, shouldEscape mode '?' = true → c ∈ escape mode s →
      Clean c ∧ c ≠ '?' := by
    intro mode s c hmode hc
    refine ⟨clean_escape hc, ?_⟩
    rintro rfl
    exact notMem_escape hmode (by decide) hc
  intro c hc
  rcases List.mem_append.mp hc with hc | hc
  · rcases List.mem_append.mp hc with hc | hc
    · rw [eq_slash hc]
      exact ⟨⟨by decide, by decide⟩, by decide⟩
    · rcases List.mem_append.mp hc with hc | hc
      · rcases mem_userString hc with rfl | ⟨s, hs⟩
        · exact ⟨⟨by decide, by decide⟩, by decide⟩
        · exact hescape (by decide) hs
      · rcases List.mem_cons.mp hc with rfl | hc
        · exact ⟨⟨by decide, by decide⟩, by decide⟩
        · exact hescape (by decide) hc
  · rcases hencodes.cases with heq | ⟨heq, -⟩
    · rw [heq] at hc
      exact (hmem c hc).2
    · rw [heq] at hc
      exact hescape (by decide) hc

theorem parseAuthority_written (hhost : HostForm u.scheme u.host) (hv : v.IsBytes) :
    ∃ w : Userinfo, w.username = v.username ∧
      parseAuthority u.scheme (v.string ++ '@' :: escape .host u.host) =
        if ZoneKept u.host then some (some w, u.host) else none := by
  obtain ⟨w, hw, hname⟩ := parseUserinfo_string hv
  refine ⟨w, hname, ?_⟩
  rw [parseAuthority, cutLast_append (notMem_escape (by decide) (by decide))]
  dsimp only
  rw [parseHost_escape hhost, hw]
  split <;> rfl

theorem split_restText (h : Parsed rawURL u) (v : Userinfo) :
    ((u.restText v).drop 2).takeWhile (· ≠ '/') = v.string ++ '@' :: escape .host u.host ∧
      ((u.restText v).drop 2).dropWhile (· ≠ '/') = encoded .path u.path u.rawPath := by
  obtain ⟨text, hencodes, hhead, -⟩ := h.path
  have hslash := forall_ne (notMem_authority (c := '/') (by decide) (by decide) (by decide)
    (by decide) (by decide) v u.host)
  have hdrop : (u.restText v).drop 2 =
      (v.string ++ '@' :: escape .host u.host) ++ encoded .path u.path u.rawPath := rfl
  rw [hdrop, List.takeWhile_append_of_pos hslash, List.dropWhile_append_of_pos hslash]
  cases hpath : encoded .path u.path u.rawPath with
  | nil => exact ⟨List.append_nil _, rfl⟩
  | cons c p =>
    have hc := (encoded_head hencodes hhead).2
    rw [hpath] at hc
    obtain rfl : c = '/' := by
      rcases hc with hc | hc
      · cases hc
      · exact Option.some.inj hc
    rw [List.takeWhile_cons_of_neg (by decide), List.dropWhile_cons_of_neg (by decide)]
    exact ⟨List.append_nil _, rfl⟩

/-- The user is read as it was written, and the host too if its zone is kept. -/
theorem parse_string_user (h : Parsed rawURL u) (hscheme : IsScheme u.scheme)
    (hopaquePart : u.opaquePart = []) (hv : v.IsBytes) :
    ∃ w : Userinfo, w.username = v.username ∧
      (parse { u with user := some v }.string).map URL.endpoint =
        if ZoneKept u.host then some (u.scheme, some w, u.host) else none := by
  obtain ⟨w, hname, hauthority⟩ := parseAuthority_written h.host hv
  refine ⟨w, hname, ?_⟩
  obtain ⟨url, hurl, hparse⟩ := parse_text h hscheme (clean_restText h v)
  obtain ⟨hbefore, hbehind⟩ := split_restText h v
  obtain ⟨text, hencodes, -⟩ := h.path
  have hne : url.scheme ≠ [] := by
    rw [(Prod.mk.inj hurl).1]
    exact hscheme.ne_nil
  have hhead : (u.restText v).head? = some '/' := rfl
  have hslashes : "//".toList <+: u.restText v := ⟨_, (List.append_assoc _ _ _).symm⟩
  rw [string_user h hscheme.ne_nil hopaquePart, hparse, URL.parseRest,
    if_neg fun hroot => hroot.1 hhead, if_neg fun hroot => hroot.1 hhead,
    if_pos ⟨hslashes, .inl hne⟩]
  dsimp only
  rw [hbefore, hbehind, (Prod.mk.inj hurl).1, hauthority]
  split
  · rw [Option.bind_some, setPath_endpoint (hencodes.unescape_encoded (.inl rfl)),
      ← (Prod.mk.inj hurl).1]
    rfl
  · rfl

theorem parse_string_rootless (h : Parsed rawURL u) (hscheme : IsScheme u.scheme)
    (hopaquePart : u.opaquePart ≠ []) :
    (parse u.string).map URL.endpoint = some (u.scheme, none, []) := by
  obtain ⟨url, hurl, hparse⟩ := parse_text h hscheme fun c hc => (h.opaquePart c hc).2
  have hne : url.scheme ≠ [] := by
    rw [(Prod.mk.inj hurl).1]
    exact hscheme.ne_nil
  rw [string_rootless hscheme.ne_nil hopaquePart, hparse, URL.parseRest,
    if_pos ⟨h.rootless, hne⟩, ← hurl]
  rfl

end Read

/-! ### Separators between urls -/

/-- A character that no part of a url escapes, and that has no meaning in a url. -/
structure IsSeparator (d : Char) : Prop where
  kept : ∀ mode ∈ modes, shouldEscape mode d = false
  scheme : isSchemeChar d = false
  other : d ∉ "%/:@?#".toList

/-- The text of the url with this user has the separator in no part. A path or a
fragment may have it encoded, as long as the text it came from is written. -/
structure SeparatorFree (d : Char) (v : Userinfo) (u : URL) : Prop where
  username : d ∉ v.username
  password : d ∉ v.password.getD []
  host : d ∉ u.host
  path : d ∈ u.path → validEncoded .path u.rawPath = true
  fragment : d ∈ u.fragment → validEncoded .fragment u.rawFragment = true

section Separator

variable {mode : Mode} {rawURL s : Text} {u : URL} {v : Userinfo} {d : Char}

theorem isSeparator_comma : IsSeparator ',' := ⟨by decide, by decide, by decide⟩

theorem IsSeparator.not_alphanum (hd : IsSeparator d) : d.isAlphanum = false := by
  have hscheme := hd.scheme
  simp only [isSchemeChar, Bool.or_eq_false_iff] at hscheme
  exact hscheme.1.1.1

theorem IsSeparator.ne (hd : IsSeparator d) {c : Char} (hc : c ∈ "%/:@?#".toList) : d ≠ c := by
  rintro rfl
  exact hd.other hc

theorem IsSeparator.mem_escape_iff (hd : IsSeparator d) (mode : Mode) :
    d ∈ escape mode s ↔ d ∈ s :=
  Url.mem_escape_iff (hd.kept mode (mem_modes mode)) hd.not_alphanum (hd.ne (by decide))

theorem IsSeparator.mem_userString_iff (hd : IsSeparator d) :
    d ∈ v.string ↔ d ∈ v.username ∨ d ∈ v.password.getD [] := by
  unfold Userinfo.string
  split
  · rw [List.mem_append, hd.mem_escape_iff]
    cases v.password with
    | none => rfl
    | some password =>
      rw [Option.elim_some, List.mem_cons, hd.mem_escape_iff, Option.getD_some]
      simp only [hd.ne (c := ':') (by decide), false_or]
  · rename_i hempty
    rw [not_or, not_not, not_not] at hempty
    simp [hempty.1, hempty.2]

theorem IsSeparator.mem_encoded_iff {text decoded rawText : Text} (hd : IsSeparator d)
    (h : Encodes mode text decoded rawText) (hmem : d ∉ text) :
    d ∈ encoded mode decoded rawText ↔ d ∈ decoded ∧ ¬validEncoded mode rawText = true :=
  h.mem_encoded_iff hmem (hd.kept mode (mem_modes mode)) hd.not_alphanum (hd.ne (by decide))

theorem IsSeparator.mem_fragmentText_iff (hd : IsSeparator d) (h : Parsed rawURL u)
    (hraw : d ∉ rawURL) :
    d ∈ u.fragmentText ↔ d ∈ u.fragment ∧ ¬validEncoded .fragment u.rawFragment = true := by
  obtain ⟨text, hencodes, hsub⟩ := h.fragment
  unfold URL.fragmentText
  split
  · rw [List.mem_cons, URL.escapedFragment,
      hd.mem_encoded_iff hencodes fun hmem => hraw (hsub hmem)]
    simp only [hd.ne (c := '#') (by decide), false_or]
  · rename_i hnil
    rw [not_not.mp hnil]
    simp

theorem IsSeparator.notMem_queryText (hd : IsSeparator d) (h : Parsed rawURL u)
    (hraw : d ∉ rawURL) : d ∉ u.queryText := by
  unfold URL.queryText
  split
  · intro hmem
    rcases List.mem_cons.mp hmem with heq | hmem
    · exact hd.ne (by decide) heq
    · exact hraw (h.rawQuery d hmem).1
  · exact List.not_mem_nil

theorem IsSeparator.notMem_scheme (hd : IsSeparator d) (hscheme : IsScheme u.scheme) :
    d ∉ u.scheme := by
  intro hmem
  have hchar := (hscheme.2 d hmem).1
  rw [hd.scheme] at hchar
  cases hchar

theorem IsSeparator.notMem_string_iff (hd : IsSeparator d) (h : Parsed rawURL u)
    (hraw : d ∉ rawURL) (hscheme : IsScheme u.scheme) (hopaquePart : u.opaquePart = []) :
    d ∉ { u with user := some v }.string ↔ SeparatorFree d v u := by
  obtain ⟨text, hencodes, -, hmem⟩ := h.path
  have hpath := hd.mem_encoded_iff hencodes fun hc => hraw (hmem d hc).1
  have hslashes : d ∉ "//".toList := fun hc => hd.ne (by decide) (eq_slash hc)
  rw [string_user h hscheme.ne_nil hopaquePart, URL.restText]
  simp only [List.mem_append, List.mem_cons, hd.notMem_scheme hscheme, hslashes,
    hd.ne (c := ':') (by decide), hd.ne (c := '@') (by decide), hd.notMem_queryText h hraw,
    hd.mem_fragmentText_iff h hraw, hd.mem_escape_iff, hd.mem_userString_iff, hpath, false_or,
    or_false, not_or, not_and, not_not]
  constructor
  · rintro ⟨⟨⟨⟨hname, hpassword⟩, hhost⟩, hp⟩, hf⟩
    exact ⟨hname, hpassword, hhost, hp, hf⟩
  · rintro ⟨hname, hpassword, hhost, hp, hf⟩
    exact ⟨⟨⟨⟨hname, hpassword⟩, hhost⟩, hp⟩, hf⟩

theorem IsSeparator.notMem_opaque_iff (hd : IsSeparator d) (h : Parsed rawURL u)
    (hraw : d ∉ rawURL) (hscheme : IsScheme u.scheme) (hopaquePart : u.opaquePart ≠ []) :
    d ∉ u.string ↔ (d ∈ u.fragment → validEncoded .fragment u.rawFragment = true) := by
  have hpart : d ∉ u.opaquePart := fun hc => hraw (h.opaquePart d hc).1
  rw [string_rootless hscheme.ne_nil hopaquePart]
  simp only [List.mem_append, List.mem_cons, hd.notMem_scheme hscheme,
    hd.ne (c := ':') (by decide), hd.notMem_queryText h hraw, hd.mem_fragmentText_iff h hraw, hpart,
    false_or, or_false, not_and, not_not]

end Separator

/-! ### Rootless urls -/

section Rootless

variable {s t scheme p : Text} {u : URL} {c : Char}

def schemeMark : Text := "://".toList

/-- `String` writes the query as `Parse` has found it. -/
theorem query_written (rest : Text) {scheme : Text} :
    rest = (cut '?' rest).1 ++ { emptyURL with
      scheme := scheme
      forceQuery := rest.getLast? = some '?' && rest.count '?' = 1
      rawQuery := (cut '?' rest).2
      opaquePart := (cut '?' rest).1 }.queryText := by
  have hnot := notMem_cut '?' rest
  unfold URL.queryText
  dsimp only
  rcases cut_cases '?' rest with ⟨hrest, hnil⟩ | hrest
  · have hlast : rest.getLast? ≠ some '?' := by
      intro hl
      rw [hrest] at hl
      exact hnot (List.mem_of_getLast? hl)
    rw [if_neg (by simp [hlast, hnil]), List.append_nil]
    exact hrest
  · rw [if_pos]
    · exact hrest
    · by_cases hnil : (cut '?' rest).2 = []
      · left
        rw [hnil] at hrest
        have hlast : rest.getLast? = some '?' := by
          rw [hrest]
          exact List.getLast?_concat
        have hcount : rest.count '?' = 1 := by
          rw [hrest, List.count_append, List.count_eq_zero_of_not_mem hnot]
          rfl
        rw [hlast, hcount]
        rfl
      · exact .inr hnil

theorem parse_rootless (h : parse s = some u) (hscheme : u.scheme ≠ [])
    (hopaquePart : u.opaquePart ≠ []) :
    (∃ scheme, ':' ∉ scheme ∧ (cut '#' s).1 = scheme ++ ':' :: (u.opaquePart ++ u.queryText)) ∧
      u.user = none ∧ u.host = [] ∧ u.path = [] := by
  obtain ⟨v, hv, hu⟩ := parse_some h
  have hsame : u.scheme = v.scheme ∧ u.opaquePart = v.opaquePart ∧ u.queryText = v.queryText ∧
      u.user = v.user ∧ u.host = v.host ∧ u.path = v.path := by
    rcases hu with ⟨-, rfl⟩ | hu
    · exact ⟨rfl, rfl, rfl, rfl, rfl, rfl⟩
    · obtain ⟨fragment, -, rfl⟩ := setFragment_some hu
      exact ⟨rfl, rfl, rfl, rfl, rfl, rfl⟩
  obtain ⟨hs, ho, hq, huser, hhost, hpath⟩ := hsame
  rw [hs] at hscheme
  rw [ho] at hopaquePart
  rw [ho, hq, huser, hhost, hpath]
  obtain ⟨scheme, rest, hmain, hcolon, hne, -, hrest⟩ := parseMain_some hv hscheme
  have hlower : scheme.map Char.toLower ≠ [] := fun hnil => hne (List.map_eq_nil_iff.mp hnil)
  rcases parseRest_some hrest hlower with ⟨-, rfl⟩ | ⟨user, host, -, hp⟩ | ⟨-, hp⟩
  · refine ⟨⟨scheme, hcolon, ?_⟩, rfl, rfl, rfl⟩
    rw [hmain]
    exact congrArg (fun r => scheme ++ ':' :: r) (query_written rest)
  · obtain ⟨path, -, rfl⟩ := setPath_some hp
    exact absurd rfl hopaquePart
  · obtain ⟨path, -, rfl⟩ := setPath_some hp
    exact absurd rfl hopaquePart

theorem infix_append_cons (hc : c ∉ p) (h : p <:+: s ++ c :: t) : p <:+: s ∨ p <:+: t := by
  induction s with
  | nil =>
    rcases List.infix_cons_iff.mp h with hp | hi
    · have hnil := prefix_of_append_cons (s := []) hc hp
      exact .inl hnil.isInfix
    · exact .inr hi
  | cons d s ih =>
    rcases List.infix_cons_iff.mp h with hp | hi
    · exact .inl (prefix_of_append_cons (s := d :: s) hc hp).isInfix
    · exact (ih hi).imp_left fun hs => List.infix_cons hs

/-- Behind a scheme, the mark can only stand in what follows the colon. -/
theorem mark_behind_scheme (hcolon : ':' ∉ scheme) (ht : t.head? ≠ some '/')
    (h : schemeMark <:+: scheme ++ ':' :: t) : schemeMark <:+: t := by
  induction scheme with
  | nil =>
    rcases List.infix_cons_iff.mp h with hp | hi
    · obtain ⟨r, hr⟩ := hp
      refine absurd ?_ ht
      rw [← (List.cons.inj hr).2]
      rfl
    · exact hi
  | cons d scheme ih =>
    rcases List.infix_cons_iff.mp h with hp | hi
    · obtain ⟨r, hr⟩ := hp
      exact absurd (List.mem_cons.mpr (.inl (List.cons.inj hr).1)) hcolon
    · exact ih (fun hmem => hcolon (List.mem_cons_of_mem d hmem)) hi

theorem Decodes.mark {mode : Mode} (h : Decodes mode s t) (hs : schemeMark <:+: s) :
    schemeMark <:+: t := by
  have hcons : ∀ {c : Char} {s : Text}, schemeMark <+: c :: s →
      c = ':' ∧ ∃ r, s = '/' :: '/' :: r := by
    rintro c s ⟨r, hr⟩
    exact ⟨(List.cons.inj hr).1.symm, r, (List.cons.inj hr).2.symm⟩
  induction h with
  | nil => exact hs
  | @char c s t hc hr h ih =>
    rcases List.infix_cons_iff.mp hs with hp | hi
    · obtain ⟨rfl, r, rfl⟩ := hcons hp
      cases h with
      | char _ _ h =>
        cases h with
        | @char _ _ r' _ _ h => exact ⟨[], r', rfl⟩
    · exact List.infix_cons (ih hi)
  | @escaped a b x y s t ha hb hr h ih =>
    refine List.infix_cons (ih ?_)
    rcases List.infix_cons_iff.mp hs with hp | hi
    · exact absurd (hcons hp).1 (by decide)
    · rcases List.infix_cons_iff.mp hi with hp | hi
      · exact absurd (hcons hp).1 (hexVal_ne_colon ha)
      · rcases List.infix_cons_iff.mp hi with hp | hi
        · exact absurd (hcons hp).1 (hexVal_ne_colon hb)
        · exact hi

theorem mark_escape (h : schemeMark <:+: t) : schemeMark <:+: escape .fragment t := by
  obtain ⟨a, b, rfl⟩ := h
  exact ⟨escape .fragment a, escape .fragment b, by rw [escape_append, escape_append]; rfl⟩

theorem mark_encoded {rawText decoded : Text} (h : Encodes .fragment s decoded rawText)
    (hs : schemeMark <:+: s) : schemeMark <:+: encoded .fragment decoded rawText := by
  rcases h.cases with heq | ⟨heq, -⟩
  · rwa [heq]
  · rw [heq]
    exact mark_escape ((decodes_of_unescape h.read).mark hs)

theorem parse_fragment (h : parse s = some u) (hs : IsBytes s) (hne : (cut '#' s).2 ≠ []) :
    Encodes .fragment (cut '#' s).2 u.fragment u.rawFragment := by
  obtain ⟨v, -, hu⟩ := parse_some h
  obtain ⟨fragment, hread, rfl⟩ := setFragment_some (hu.resolve_left fun hnil => hne hnil.1)
  exact ⟨fun c hc => hs c (cut_snd_subset '#' s hc), hread, rfl⟩

/-- A rootless url keeps the mark of the text it was parsed from. -/
theorem mark_string (h : parse s = some u) (hs : IsBytes s) (hscheme : u.scheme ≠ [])
    (hopaquePart : u.opaquePart ≠ []) (hmark : schemeMark <:+: s) : schemeMark <:+: u.string := by
  have hparsed := parse_parsed h hs hscheme
  obtain ⟨⟨scheme, hcolon, hmain⟩, -⟩ := parse_rootless h hscheme hopaquePart
  have hhead : (u.opaquePart ++ u.queryText).head? ≠ some '/' := by
    obtain ⟨c, cs, hcs⟩ := List.exists_cons_of_ne_nil hopaquePart
    have hroot := hparsed.rootless
    rwa [hcs] at hroot ⊢
  rw [string_rootless hscheme hopaquePart]
  have hbefore : schemeMark <:+: (cut '#' s).1 →
      schemeMark <:+: u.scheme ++ ':' :: (u.opaquePart ++ u.queryText) ++ u.fragmentText := by
    intro hi
    rw [hmain] at hi
    have htail := mark_behind_scheme hcolon hhead hi
    exact htail.trans ⟨u.scheme ++ [':'], u.fragmentText, by simp⟩
  rcases cut_cases '#' s with ⟨heq, -⟩ | heq
  · exact hbefore (heq ▸ hmark)
  · rw [heq] at hmark
    rcases infix_append_cons (by decide) hmark with hi | hi
    · exact hbefore hi
    · have hcolon : ':' ∈ schemeMark := by decide
      have hencodes := parse_fragment h hs (List.ne_nil_of_mem (hi.subset hcolon))
      have hne : u.fragment ≠ [] := by
        have hdecoded := (decodes_of_unescape hencodes.read).mark hi
        exact List.ne_nil_of_mem (hdecoded.subset hcolon)
      refine (mark_encoded hencodes hi).trans ?_
      rw [URL.fragmentText, if_pos hne]
      exact ⟨u.scheme ++ ':' :: (u.opaquePart ++ u.queryText) ++ ['#'], [], by
        simp [URL.escapedFragment]⟩

end Rootless

end SshTunnel.Lib.Url
