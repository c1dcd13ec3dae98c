import SshTunnel.Lib.Net
import Mathlib.Data.List.TakeWhile

/-!
# Network texts are canonical

A network accepted by `parseCIDR` is in canonical form (`Canonical`), and two
canonical networks have the same text exactly when they have the same network
number and mask.
-/

namespace SshTunnel.Lib.Net

/-! ### Fields of a text -/

theorem decText_inj {m n : ℕ} (h : decText m = decText n) : m = n := by
  have hh := congrArg (fun ds => Nat.ofDigitChars 10 ds 0) h
  simpa only [decText, Nat.ofDigitChars_ten_toDigits] using hh

theorem decText_isDigit {n : ℕ} {c : Char} (h : c ∈ decText n) : c.isDigit :=
  Nat.isDigit_of_mem_toDigits (by decide) (by decide) h

theorem notMem_decText {c : Char} (hc : c.isDigit = false) (n : ℕ) : c ∉ decText n := by
  intro h
  have hh := decText_isDigit h
  rw [hc] at hh
  cases hh

theorem hexVal_hexDigit (d : Fin 16) : hexVal (hexDigit d.val) = some d.val := by
  revert d
  decide

def unhex (t : Text) : ℕ := t.foldl (fun acc c => acc * 16 + (hexVal c).getD 0) 0

theorem unhex_step (acc d : ℕ) (hd : d < 16) :
    acc * 16 + (hexVal (hexDigit d)).getD 0 = acc * 16 + d := by
  rw [hexVal_hexDigit ⟨d, hd⟩]
  rfl

theorem unhex_hexText {x : ℕ} (h : x < 65536) : unhex (hexText x) = x := by
  have h0 : x / 4096 < 16 := by omega
  have h1 : x / 256 % 16 < 16 := Nat.mod_lt _ (by decide)
  have h2 : x / 16 % 16 < 16 := Nat.mod_lt _ (by decide)
  have h3 : x % 16 < 16 := Nat.mod_lt _ (by decide)
  unfold unhex hexText
  split_ifs <;>
    simp only [List.nil_append, List.cons_append, List.foldl_cons, List.foldl_nil,
      unhex_step _ _ h0, unhex_step _ _ h1, unhex_step _ _ h2, unhex_step _ _ h3] <;> omega

theorem hexText_ne_nil (x : ℕ) : hexText x ≠ [] := by
  simp [hexText]

theorem hexDigit_mem (d : ℕ) : hexDigit d ∈ "0123456789abcdef".toList := by
  unfold hexDigit
  cases h : "0123456789abcdef".toList[d]? with
  | none => decide
  | some c => exact List.mem_of_getElem? h

theorem notMem_hexText {c : Char} (hc : c ∉ "0123456789abcdef".toList) (x : ℕ) :
    c ∉ hexText x := by
  have hne : ∀ d, c ≠ hexDigit d := by
    intro d he
    exact hc (he ▸ hexDigit_mem d)
  unfold hexText
  split_ifs <;> simp [hne]

/-! ### The fields of an IPv6 text -/

/-- `r` delimits a run of zeros inside `g`. -/
def IsZeroRun (g : List ℕ) (r : ℕ × ℕ) : Prop :=
  r.1 < 8 ∧ r.1 < r.2 ∧ g = g.take r.1 ++ List.replicate (r.2 - r.1) 0 ++ g.drop r.2

theorem zeros_at (g : List ℕ) (i : ℕ) :
    g = g.take i ++ List.replicate ((g.drop i).takeWhile (· = 0)).length 0 ++
      g.drop (i + ((g.drop i).takeWhile (· = 0)).length) := by
  have hz : (g.drop i).takeWhile (· = 0) =
      List.replicate ((g.drop i).takeWhile (· = 0)).length 0 := by
    apply List.eq_replicate_of_mem
    intro b hb
    simpa using List.mem_takeWhile_imp hb
  have hd : (g.drop i).takeWhile (· = 0) ++ (g.drop i).dropWhile (· = 0) = g.drop i :=
    List.takeWhile_append_dropWhile
  have hdrop : g.drop (i + ((g.drop i).takeWhile (· = 0)).length) =
      (g.drop i).dropWhile (· = 0) := by
    have hleft : ∀ a b c : List ℕ, a ++ b = c → c.drop a.length = b := by
      rintro a b c rfl
      exact List.drop_left
    rw [← List.drop_drop]
    exact hleft _ _ _ hd
  rw [hdrop, ← hz, List.append_assoc, hd, List.take_append_drop]

theorem zeroRun_spec (g : List ℕ) : zeroRun g = (255, 255) ∨ IsZeroRun g (zeroRun g) := by
  -- the loop keeps the fact, whatever part of its range is left
  have key : ∀ (l : List ℕ) (r : ℕ × ℕ), (∀ i ∈ l, i < 8) →
      (r = (255, 255) ∨ IsZeroRun g r) →
      let r' := l.foldl (fun r i =>
        let l := ((g.drop i).takeWhile (· = 0)).length
        if 2 ≤ l ∧ r.2 - r.1 < l then (i, i + l) else r) r
      r' = (255, 255) ∨ IsZeroRun g r' := by
    intro l
    induction l with
    | nil =>
      intro r _ hr
      exact hr
    | cons i l ih =>
      intro r hl hr
      apply ih _ fun j hj => hl j (List.mem_cons_of_mem _ hj)
      dsimp only
      split_ifs with hc
      · refine Or.inr ⟨hl i (List.mem_cons_self ..), by simp only; omega, ?_⟩
        simp only [Nat.add_sub_cancel_left]
        exact zeros_at g i
      · exact hr
  exact key (List.range 8) (255, 255) (fun i hi => by simpa using hi) (Or.inl rfl)

/-- The fields before the first empty one. -/
def leading (ts : List Text) : List Text := ts.takeWhile (· ≠ [])

/-- The groups of a list of fields: those before the first and after the last
empty field, with zeros between them. -/
def groupsOf (ts : List Text) : List ℕ :=
  if [] ∈ ts then
    let pre := (leading ts).map unhex
    let post := (leading ts.reverse).reverse.map unhex
    pre ++ List.replicate (8 - pre.length - post.length) 0 ++ post
  else ts.map unhex

theorem map_unhex_hexText {g : List ℕ} (hg : ∀ x ∈ g, x < 65536) :
    (g.map hexText).map unhex = g := by
  rw [List.map_map]
  conv_rhs => rw [← List.map_id g]
  apply List.map_congr_left
  intro x hx
  exact unhex_hexText (hg x hx)

theorem leading_append {xs ts : List Text} (hx : ∀ x ∈ xs, x ≠ []) :
    leading (orEmptyToken xs ++ [] :: ts) = xs := by
  cases xs with
  | nil => simp [leading, orEmptyToken]
  | cons x xs =>
    have hall : ∀ y ∈ x :: xs, decide (y ≠ []) = true := by
      intro y hy
      simpa using hx y hy
    rw [orEmptyToken, if_neg (List.cons_ne_nil x xs), leading,
      List.takeWhile_append_of_pos hall]
    simp

theorem orEmptyToken_reverse (xs : List Text) :
    (orEmptyToken xs).reverse = orEmptyToken xs.reverse := by
  cases xs with
  | nil => rfl
  | cons x xs =>
    rw [orEmptyToken, if_neg (List.cons_ne_nil x xs), orEmptyToken, if_neg]
    simp

theorem map_hexText_ne_nil (g : List ℕ) : ∀ t ∈ g.map hexText, t ≠ [] := by
  intro t ht
  obtain ⟨x, _, rfl⟩ := List.mem_map.mp ht
  exact hexText_ne_nil x

theorem groupsOf_split {xs ys : List ℕ} (hx : ∀ x ∈ xs, x < 65536) (hy : ∀ y ∈ ys, y < 65536) :
    groupsOf (orEmptyToken (xs.map hexText) ++ [] :: orEmptyToken (ys.map hexText)) =
      xs ++ List.replicate (8 - xs.length - ys.length) 0 ++ ys := by
  have hrev : (orEmptyToken (xs.map hexText) ++ [] :: orEmptyToken (ys.map hexText)).reverse =
      orEmptyToken (ys.map hexText).reverse ++ [] :: orEmptyToken (xs.map hexText).reverse := by
    simp only [List.reverse_append, List.reverse_cons, orEmptyToken_reverse, List.append_assoc,
      List.cons_append, List.nil_append]
  have hyr : ∀ t ∈ (ys.map hexText).reverse, t ≠ [] := by
    intro t ht
    exact map_hexText_ne_nil ys t (List.mem_reverse.mp ht)
  have hmem : [] ∈ orEmptyToken (xs.map hexText) ++ [] :: orEmptyToken (ys.map hexText) := by simp
  rw [groupsOf, if_pos hmem, hrev, leading_append (map_hexText_ne_nil xs), leading_append hyr,
    List.reverse_reverse, map_unhex_hexText hx, map_unhex_hexText hy]

/-- The fields of eight groups: all groups, or those before and behind a zero run. -/
theorem tokens6_cases {g : List ℕ} (h8 : g.length = 8) :
    tokens6 g = g.map hexText ∨
      ∃ xs ys, xs.length + ys.length < 8 ∧
        g = xs ++ List.replicate (8 - xs.length - ys.length) 0 ++ ys ∧
        tokens6 g = orEmptyToken (xs.map hexText) ++ [] :: orEmptyToken (ys.map hexText) := by
  rcases zeroRun_spec g with hz | ⟨h1, h2, hsplit⟩
  · exact Or.inl (by simp [tokens6, hz])
  · have hne : (zeroRun g).1 ≠ 255 := by omega
    have hlen := congrArg List.length hsplit
    simp only [List.length_append, List.length_take, List.length_replicate, List.length_drop]
      at hlen
    have hk : 8 - (g.take (zeroRun g).1).length - (g.drop (zeroRun g).2).length =
        (zeroRun g).2 - (zeroRun g).1 := by
      simp only [List.length_take, List.length_drop]
      omega
    refine Or.inr ⟨g.take (zeroRun g).1, g.drop (zeroRun g).2, ?_, ?_, ?_⟩
    · simp only [List.length_take, List.length_drop]
      omega
    · rw [hk]
      exact hsplit
    · simp only [tokens6, if_neg hne]

theorem groupsOf_tokens6 {g : List ℕ} (h8 : g.length = 8) (hg : ∀ x ∈ g, x < 65536) :
    groupsOf (tokens6 g) = g := by
  rcases tokens6_cases h8 with ht | ⟨xs, ys, _, hsplit, ht⟩
  · have hn : [] ∉ g.map hexText := fun h => map_hexText_ne_nil g [] h rfl
    rw [ht, groupsOf, if_neg hn, map_unhex_hexText hg]
  · have hx : ∀ x ∈ xs, x < 65536 := fun x hx => hg x (by rw [hsplit]; simp [hx])
    have hy : ∀ y ∈ ys, y < 65536 := fun y hy => hg y (by rw [hsplit]; simp [hy])
    rw [ht, groupsOf_split hx hy]
    exact hsplit.symm

/-! ### Texts of addresses are injective -/

theorem groups_inj : ∀ {a b : IP}, a.length % 2 = 0 → a.length = b.length →
    groups a = groups b → a = b
  | [], [], _, _, _ => rfl
  | [_], _, h, _, _ => by simp at h
  | _ :: _ :: _, [], _, hl, _ => by simp at hl
  | _ :: _ :: _, [_], _, hl, _ => by simp at hl
  | x :: y :: a, x' :: y' :: b, h, hl, hg => by
    simp only [groups, List.cons.injEq] at hg
    have hx : x = x' := Fin.ext (by omega)
    have hy : y = y' := Fin.ext (by omega)
    simp only [List.length_cons] at h hl
    rw [hx, hy, groups_inj (by omega) (by omega) hg.2]

theorem groups_length : ∀ ip : IP, (groups ip).length = ip.length / 2
  | [] => rfl
  | [_] => by simp [groups]
  | _ :: _ :: rest => by
    simp only [groups, List.length_cons, groups_length rest]
    omega

theorem groups_lt : ∀ (ip : IP), ∀ x ∈ groups ip, x < 65536
  | [], _, h => by simp [groups] at h
  | [_], _, h => by simp [groups] at h
  | a :: b :: rest, x, h => by
    simp only [groups, List.mem_cons] at h
    rcases h with h | h
    · omega
    · exact groups_lt rest x h

theorem mem_tokens6 {g : List ℕ} {t : Text} (h : t ∈ tokens6 g) :
    t = [] ∨ ∃ x, t = hexText x := by
  have hmap : ∀ {l : List ℕ}, t ∈ l.map hexText → ∃ x, t = hexText x := by
    intro l hl
    obtain ⟨x, _, hx⟩ := List.mem_map.mp hl
    exact ⟨x, hx.symm⟩
  have hor : ∀ {l : List ℕ}, t ∈ orEmptyToken (l.map hexText) → t = [] ∨ ∃ x, t = hexText x := by
    intro l hl
    unfold orEmptyToken at hl
    split_ifs at hl
    · exact Or.inl (List.mem_singleton.mp hl)
    · exact Or.inr (hmap hl)
  unfold tokens6 at h
  dsimp only at h
  split_ifs at h
  · exact Or.inr (hmap h)
  · rcases List.mem_append.mp h with h | h
    · exact hor h
    · rcases List.mem_cons.mp h with h | h
      · exact Or.inl h
      · exact hor h

theorem notMem_tokens6 {c : Char} (hc : c ∉ "0123456789abcdef".toList) (g : List ℕ) :
    ∀ t ∈ tokens6 g, c ∉ t := by
  intro t ht
  rcases mem_tokens6 ht with rfl | ⟨x, rfl⟩
  · exact List.not_mem_nil
  · exact notMem_hexText hc x

theorem tokens6_ne_nil {g : List ℕ} (hg : g ≠ []) : tokens6 g ≠ [] := by
  unfold tokens6
  dsimp only
  split_ifs
  · simpa using hg
  · simp

theorem notMem_intercalate {c x : Char} {ts : List Text} (hx : c ≠ x) (h : ∀ t ∈ ts, c ∉ t) :
    c ∉ [x].intercalate ts := by
  induction ts with
  | nil => simp
  | cons t ts ih =>
    have ht := h t (List.mem_cons_self ..)
    have hts := ih fun u hu => h u (List.mem_cons_of_mem _ hu)
    cases ts with
    | nil => simpa using ht
    | cons u us =>
      simp only [List.intercalate_cons_cons, List.mem_append, List.mem_singleton]
      tauto

theorem intercalate_ne_nil {x : Char} {ts : List Text} (h : 2 ≤ ts.length) :
    [x].intercalate ts ≠ [] := by
  match ts, h with
  | t :: u :: us, _ => simp [List.intercalate_cons_cons]

theorem tokens6_length {g : List ℕ} (h : g.length = 8) : 2 ≤ (tokens6 g).length := by
  have hor : ∀ ts : List Text, 1 ≤ (orEmptyToken ts).length := by
    intro ts
    cases ts with
    | nil => exact le_rfl
    | cons t ts => simp [orEmptyToken]
  unfold tokens6
  dsimp only
  split_ifs
  · rw [List.length_map, h]
    decide
  · have h1 := hor ((g.take (zeroRun g).1).map hexText)
    rw [List.length_append, List.length_cons]
    omega

theorem ipText_of_length4 {ip : IP} (h : ip.length = 4) : ipText ip = dottedText ip := by
  simp [ipText, to4, h]

theorem ipText_of_to4_none {ip : IP} (h : ip.length = 16) (h4 : to4 ip = none) :
    ipText ip = [ ':' ].intercalate (tokens6 (groups ip)) := by
  have hne : ip ≠ [] := by
    intro he
    simp [he] at h
  simp [ipText, h4, hne]

theorem to4_length {ip p : IP} (h : to4 ip = some p) : p.length = 4 := by
  unfold to4 at h
  split_ifs at h with h4 h16
  · cases h
    exact h4
  · cases h
    rw [List.length_drop, h16.1]

theorem ipText_ne_nil {ip : IP} (h : ip.length = 4 ∨ ip.length = 16) : ipText ip ≠ [] := by
  have hdot : ∀ p : IP, p.length = 4 → dottedText p ≠ [] := by
    intro p hp
    exact intercalate_ne_nil (by rw [List.length_map, hp]; decide)
  rcases h with h | h
  · rw [ipText_of_length4 h]
    exact hdot ip h
  · cases h4 : to4 ip with
    | none =>
      rw [ipText_of_to4_none h h4]
      exact intercalate_ne_nil (tokens6_length (by rw [groups_length, h]))
    | some p =>
      simp only [ipText, h4]
      exact hdot p (to4_length h4)

theorem notMem_ipText {c : Char} {ip : IP} (hd : c.isDigit = false) (h1 : c ≠ '.') (h2 : c ≠ ':')
    (hc : c ∉ "0123456789abcdef".toList) (h : ip.length = 4 ∨ ip.length = 16) : c ∉ ipText ip := by
  have hdot : ∀ p : IP, c ∉ dottedText p := by
    intro p
    apply notMem_intercalate h1
    intro t ht
    obtain ⟨b, _, rfl⟩ := List.mem_map.mp ht
    exact notMem_decText hd b.val
  cases h4 : to4 ip with
  | some p =>
    simp only [ipText, h4]
    exact hdot p
  | none =>
    have hl : ip.length = 16 := by
      rcases h with h | h
      · simp [to4, h] at h4
      · exact h
    rw [ipText_of_to4_none hl h4]
    exact notMem_intercalate h2 (notMem_tokens6 hc _)

theorem dottedText_fields {ip : IP} (h : ip ≠ []) :
    (dottedText ip).splitOn '.' = ip.map fun b => decText b.val := by
  apply List.splitOn_intercalate
  · intro t ht
    obtain ⟨b, _, rfl⟩ := List.mem_map.mp ht
    exact notMem_decText (by decide) b.val
  · simpa using h

theorem dottedText_inj {a b : IP} (ha : a ≠ []) (hb : b ≠ [])
    (h : dottedText a = dottedText b) : a = b := by
  have hf := dottedText_fields ha
  rw [h, dottedText_fields hb] at hf
  have hinj : Function.Injective fun b : Byte => decText b.val :=
    fun x y hxy => Fin.ext (decText_inj hxy)
  exact ((List.map_injective_iff.mpr hinj) hf).symm

theorem ipText6_inj {a b : IP} (ha : a.length = 16) (hb : b.length = 16)
    (h : [ ':' ].intercalate (tokens6 (groups a)) = [ ':' ].intercalate (tokens6 (groups b))) :
    a = b := by
  have hla : (groups a).length = 8 := by rw [groups_length, ha]
  have hlb : (groups b).length = 8 := by rw [groups_length, hb]
  have hne : ∀ {g : List ℕ}, g.length = 8 → tokens6 g ≠ [] := by
    intro g hg
    apply tokens6_ne_nil
    intro he
    simp [he] at hg
  have hs : ∀ {g : List ℕ}, g.length = 8 →
      ([ ':' ].intercalate (tokens6 g)).splitOn ':' = tokens6 g := fun hg =>
    List.splitOn_intercalate ':' (notMem_tokens6 (by decide) _) (hne hg)
  have ht : tokens6 (groups a) = tokens6 (groups b) := by
    rw [← hs hla, h, hs hlb]
  have hg : groups a = groups b := by
    rw [← groupsOf_tokens6 hla (groups_lt a), ht, groupsOf_tokens6 hlb (groups_lt b)]
  exact groups_inj (by omega) (by omega) hg

/-- The text of an IPv4 address is never that of an IPv6 address: only the
former has dots. -/
theorem dottedText_ne_ipText6 {a b : IP} (ha : a.length = 4) :
    dottedText a ≠ [ ':' ].intercalate (tokens6 (groups b)) := by
  intro h
  have hne : a ≠ [] := by
    intro he
    simp [he] at ha
  have hf := dottedText_fields hne
  rw [h, List.splitOn_eq_singleton (notMem_intercalate (by decide) (notMem_tokens6 (by decide) _))]
    at hf
  have hl := congrArg List.length hf
  simp only [List.length_singleton, List.length_map, ha] at hl
  omega

/-! ### Canonical networks -/

/-- `n` is the network with number `nn` and prefix length `l`, in the form in
which `parseCIDR` returns networks; an IPv6 number is not an IPv4-mapped one. -/
structure Canonical (n : IPNet) (nn : IP) (l : ℕ) : Prop where
  family : nn.length = 4 ∧ l ≤ 32 ∨ nn.length = 16 ∧ to4 nn = none ∧ l ≤ 128
  form : networkNumberAndMask n = some (nn, cidrMask l nn.length)
  masked : andBytes nn (cidrMask l nn.length) = nn

theorem cidrMask_length (ones l : ℕ) : (cidrMask ones l).length = l := by
  induction l generalizing ones with
  | zero => rfl
  | succ l ih =>
    unfold cidrMask
    split_ifs <;> simp [ih]

theorem simpleMaskLength_cidrMask4 (l : Fin 33) :
    simpleMaskLength (cidrMask l.val 4) = some l.val := by
  revert l
  decide

theorem simpleMaskLength_cidrMask16 (l : Fin 129) :
    simpleMaskLength (cidrMask l.val 16) = some l.val := by
  revert l
  decide +kernel

theorem Canonical.maskLength {n : IPNet} {nn : IP} {l : ℕ} (h : Canonical n nn l) :
    simpleMaskLength (cidrMask l nn.length) = some l := by
  rcases h.family with ⟨h4, hl⟩ | ⟨h16, _, hl⟩
  · rw [h4]
    exact simpleMaskLength_cidrMask4 ⟨l, by omega⟩
  · rw [h16]
    exact simpleMaskLength_cidrMask16 ⟨l, by omega⟩

theorem Canonical.text {n : IPNet} {nn : IP} {l : ℕ} (h : Canonical n nn l) :
    netText n = ipText nn ++ '/' :: decText l := by
  simp only [netText, h.form, h.maskLength]

theorem ipText_inj {a b : IP} (ha : a.length = 4 ∨ a.length = 16 ∧ to4 a = none)
    (hb : b.length = 4 ∨ b.length = 16 ∧ to4 b = none) (h : ipText a = ipText b) : a = b := by
  have hne : ∀ {p : IP}, p.length = 4 → p ≠ [] := by
    intro p hp he
    simp [he] at hp
  rcases ha with ha | ⟨ha, ha4⟩ <;> rcases hb with hb | ⟨hb, hb4⟩
  · rw [ipText_of_length4 ha, ipText_of_length4 hb] at h
    exact dottedText_inj (hne ha) (hne hb) h
  · rw [ipText_of_length4 ha, ipText_of_to4_none hb hb4] at h
    exact absurd h (dottedText_ne_ipText6 ha)
  · rw [ipText_of_to4_none ha ha4, ipText_of_length4 hb] at h
    exact absurd h.symm (dottedText_ne_ipText6 hb)
  · rw [ipText_of_to4_none ha ha4, ipText_of_to4_none hb hb4] at h
    exact ipText6_inj ha hb h

theorem Canonical.length {n : IPNet} {nn : IP} {l : ℕ} (h : Canonical n nn l) :
    nn.length = 4 ∨ nn.length = 16 ∧ to4 nn = none := by
  rcases h.family with ⟨h4, _⟩ | ⟨h16, h4, _⟩
  · exact Or.inl h4
  · exact Or.inr ⟨h16, h4⟩

/-- The text of a canonical network determines it. -/
theorem netText_eq_iff {n n' : IPNet} {nn nn' : IP} {l l' : ℕ} (h : Canonical n nn l)
    (h' : Canonical n' nn' l') :
    netText n = netText n' ↔ networkNumberAndMask n = networkNumberAndMask n' := by
  constructor
  · intro ht
    rw [h.text, h'.text] at ht
    have hslash : ∀ {ip : IP}, ip.length = 4 ∨ ip.length = 16 → '/' ∉ ipText ip := fun hl =>
      notMem_ipText (by decide) (by decide) (by decide) (by decide) hl
    have hnn : '/' ∉ ipText nn := hslash (h.length.imp_right And.left)
    have hnn' : '/' ∉ ipText nn' := hslash (h'.length.imp_right And.left)
    have hs := congrArg (fun t => t.takeWhile (· ≠ '/')) ht
    have hd := congrArg (fun t => t.dropWhile (· ≠ '/')) ht
    have hp : ∀ {t : Text}, '/' ∉ t → ∀ c ∈ t, decide (c ≠ '/') = true := by
      intro t ht c hc
      have : c ≠ '/' := fun he => ht (he ▸ hc)
      simpa using this
    simp only [List.takeWhile_append_of_pos (hp hnn), List.takeWhile_append_of_pos (hp hnn')] at hs
    simp only [List.dropWhile_append_of_pos (hp hnn), List.dropWhile_append_of_pos (hp hnn')] at hd
    have hip : nn = nn' := ipText_inj h.length h'.length (by simpa using hs)
    have hl : l = l' := decText_inj (by simpa using hd)
    rw [h.form, h'.form, hip, hl]
  · intro he
    simp only [netText, he]

/-! ### What `parseCIDR` returns -/

theorem parseIPv4Fields_length {s : Text} {val digLen : ℕ} {fields : List Byte} {ip : IP}
    (hf : fields.length ≤ 3) (h : parseIPv4Fields s val digLen fields = some ip) :
    ip.length = 4 := by
  induction s generalizing val digLen fields with
  | nil =>
    simp only [parseIPv4Fields] at h
    split_ifs at h
    cases h
    simp only [List.length_append, List.length_singleton]
    omega
  | cons c cs ih =>
    simp only [parseIPv4Fields] at h
    split at h
    · split_ifs at h
      exact ih hf h
    · split_ifs at h
      refine ih ?_ h
      simp only [List.length_append, List.length_singleton]
      omega

/-- What the loop of `parseIPv6` keeps of the bytes read so far. -/
def LoopInv (ip : IP) : Prop := ip.length % 2 = 0 ∧ ip.length ≤ 16

theorem parseIPv6Loop_inv {fuel : ℕ} {ip : IP} {ellipsis : Option ℕ} {s : Text}
    {r : IP × Option ℕ × Text} (hi : LoopInv ip) (h : parseIPv6Loop fuel ip ellipsis s = some r) :
    LoopInv r.1 := by
  induction fuel generalizing ip ellipsis s with
  | zero =>
    cases h
    exact hi
  | succ fuel ih =>
    by_cases h16 : 16 ≤ ip.length
    · rw [parseIPv6Loop, if_pos h16] at h
      cases h
      exact hi
    · have hnext : ∀ acc : ℕ, LoopInv (ip ++ [byteOf (acc / 256), byteOf acc]) := by
        intro acc
        unfold LoopInv at *
        simp only [List.length_append, List.length_cons, List.length_nil]
        omega
      rw [parseIPv6Loop, if_neg h16] at h
      cases hg : parseHexGroup s 0 0 with
      | none => simp [hg] at h
      | some g =>
        obtain ⟨off, acc, rest⟩ := g
        simp only [hg] at h
        split_ifs at h
        · obtain ⟨p4, hp, rfl⟩ := Option.map_eq_some_iff.mp h
          have hl := parseIPv4Fields_length (by simp) hp
          unfold LoopInv at *
          simp only [List.length_append, hl]
          omega
        all_goals
          split at h
          · cases h
            exact hnext acc
          · cases h
          · split_ifs at h
            all_goals first
              | exact ih (hnext acc) h
              | (cases h; exact hnext acc)

theorem expandEllipsis_length {r : IP × Option ℕ × Text} {ip : IP} (hi : LoopInv r.1)
    (h : expandEllipsis r = some ip) : ip.length = 16 := by
  obtain ⟨p, e, s⟩ := r
  unfold expandEllipsis LoopInv at *
  dsimp only at hi h
  split_ifs at h with hs hlt he
  · obtain ⟨k, _, rfl⟩ := Option.map_eq_some_iff.mp h
    simp only [List.length_append, List.length_take, List.length_replicate, List.length_drop]
    omega
  · cases h
    omega

theorem parseIPv6Body_length {s : Text} {ip : IP} (h : parseIPv6Body s = some ip) :
    ip.length = 16 := by
  have hloop : ∀ {e : Option ℕ} {t : Text},
      (parseIPv6Loop 8 [] e t).bind expandEllipsis = some ip → ip.length = 16 := by
    intro e t ht
    obtain ⟨r, hr, hx⟩ := Option.bind_eq_some_iff.mp ht
    exact expandEllipsis_length (parseIPv6Loop_inv (by simp [LoopInv]) hr) hx
  unfold parseIPv6Body at h
  split at h
  · cases h
    rfl
  · exact hloop h
  · exact hloop h

theorem parseAddr_length {s : Text} {a : Addr} (h : parseAddr s = some a) :
    a.bytes.length = 4 ∨ a.bytes.length = 16 := by
  unfold parseAddr at h
  split at h
  · obtain ⟨ip, hp, rfl⟩ := Option.map_eq_some_iff.mp h
    exact Or.inl (parseIPv4Fields_length (by simp) hp)
  · unfold parseIPv6 at h
    dsimp only at h
    split_ifs at h
    obtain ⟨ip, hp, rfl⟩ := Option.map_eq_some_iff.mp h
    exact Or.inr (parseIPv6Body_length hp)
  · cases h

theorem andBytes_length (a b : List Byte) : (andBytes a b).length = min a.length b.length :=
  List.length_zipWith

theorem and_and_self (x y : Byte) : (x &&& y) &&& y = x &&& y := by
  apply Fin.ext
  simp only [Fin.and_val, Nat.and_assoc, Nat.and_self]

theorem andBytes_idem (a m : List Byte) : andBytes (andBytes a m) m = andBytes a m := by
  induction a generalizing m with
  | nil => rfl
  | cons x a ih =>
    cases m with
    | nil => rfl
    | cons y m =>
      have hh := ih m
      simp only [andBytes, List.zipWith_cons_cons, and_and_self] at hh ⊢
      rw [hh]

theorem andBytes_drop (a m : List Byte) (k : ℕ) :
    (andBytes a m).drop k = andBytes (a.drop k) (m.drop k) := List.drop_zipWith

theorem cidrMask_mapped (l : Fin 129) :
    (cidrMask l.val 16)[11]? = some 255 →
      (cidrMask l.val 16).drop 12 = cidrMask (l.val - 96) 4 := by
  revert l
  decide +kernel

theorem and_eq_255 {x y : Byte} (h : x &&& y = 255) : y = 255 := by
  have hv := congrArg Fin.val h
  have hle := Nat.and_le_right (n := x.val) (m := y.val)
  rw [Fin.and_val] at hv
  apply Fin.ext
  change y.val = 255
  change x.val &&& y.val = 255 at hv
  omega

theorem canonical_of_mask4 {ip : IP} {l : ℕ} (hip : ip.length = 4) (hl : l ≤ 32) :
    Canonical ⟨andBytes ip (cidrMask l 4), cidrMask l 4⟩ (andBytes ip (cidrMask l 4)) l := by
  have hlen : (andBytes ip (cidrMask l 4)).length = 4 := by
    rw [andBytes_length, cidrMask_length, hip]
    rfl
  refine ⟨Or.inl ⟨hlen, hl⟩, ?_, ?_⟩
  · simp [networkNumberAndMask, to4, hlen, cidrMask_length]
  · rw [hlen]
    exact andBytes_idem ip _

theorem canonical_of_mask16 {ip : IP} {l : ℕ} (hip : ip.length = 16) (hl : l ≤ 128) :
    ∃ nn k, Canonical ⟨andBytes ip (cidrMask l 16), cidrMask l 16⟩ nn k := by
  have hlen : (andBytes ip (cidrMask l 16)).length = 16 := by
    rw [andBytes_length, cidrMask_length, hip]
    rfl
  by_cases hpre : (andBytes ip (cidrMask l 16)).take 12 = v4InV6Prefix
  · -- the prefix reaches behind the `ffff` group, so the network is an IPv4 one
    have h11 : (andBytes ip (cidrMask l 16))[11]? = some 255 := by
      have hh := congrArg (fun t => t[11]?) hpre
      simpa [List.getElem?_take, v4InV6Prefix] using hh
    have hm11 : (cidrMask l 16)[11]? = some 255 := by
      rw [andBytes, List.getElem?_zipWith] at h11
      cases hx : ip[11]? with
      | none => simp [hx] at h11
      | some x =>
        cases hy : (cidrMask l 16)[11]? with
        | none => simp [hx, hy] at h11
        | some y =>
          simp only [hx, hy, Option.some.injEq] at h11
          rw [and_eq_255 h11]
    have hdrop : (cidrMask l 16).drop 12 = cidrMask (l - 96) 4 :=
      cidrMask_mapped ⟨l, by omega⟩ hm11
    have hlen4 : (andBytes (ip.drop 12) (cidrMask (l - 96) 4)).length = 4 := by
      rw [andBytes_length, cidrMask_length, List.length_drop, hip]
      rfl
    refine ⟨andBytes (ip.drop 12) (cidrMask (l - 96) 4), l - 96, Or.inl ⟨hlen4, by omega⟩, ?_, ?_⟩
    · rw [hlen4]
      simp [networkNumberAndMask, to4, hlen, hpre, cidrMask_length, andBytes_drop, hdrop]
    · rw [hlen4]
      exact andBytes_idem _ _
  · have hto : to4 (andBytes ip (cidrMask l 16)) = none := by simp [to4, hlen, hpre]
    refine ⟨andBytes ip (cidrMask l 16), l, Or.inr ⟨hlen, hto, hl⟩, ?_, ?_⟩
    · simp [networkNumberAndMask, hto, hlen, cidrMask_length]
    · rw [hlen]
      exact andBytes_idem _ _

theorem parseCIDR_canonical {s : Text} {a : IP} {n : IPNet} (h : parseCIDR s = some (a, n)) :
    ∃ nn l, Canonical n nn l := by
  unfold parseCIDR at h
  split at h
  · dsimp only at h
    split at h
    · rename_i addr k ha _
      split_ifs at h with hz hk hl
      · -- an IPv4 address
        simp only [Option.some.injEq, Prod.mk.injEq] at h
        obtain ⟨-, rfl⟩ := h
        have hm : maskIP (v4InV6Prefix ++ addr.bytes) (cidrMask k 4) =
            andBytes addr.bytes (cidrMask k 4) := by
          simp [maskIP, cidrMask_length, hl, v4InV6Prefix]
        rw [hl, hm]
        exact ⟨_, _, canonical_of_mask4 hl (by omega)⟩
      · simp only [Option.some.injEq, Prod.mk.injEq] at h
        obtain ⟨-, rfl⟩ := h
        have hl16 : addr.bytes.length = 16 := (parseAddr_length ha).resolve_left hl
        have hm : maskIP addr.bytes (cidrMask k 16) = andBytes addr.bytes (cidrMask k 16) := by
          simp [maskIP, cidrMask_length, hl16]
        rw [hl16, hm]
        exact canonical_of_mask16 hl16 (by omega)
    · cases h
  · cases h

/-! ### Reading back the text of an IPv4 network -/

theorem digitVal_digitChar {d : ℕ} (h : d < 10) : digitVal (Nat.digitChar d) = some d := by
  interval_cases d <;> rfl

theorem decText_step {n : ℕ} (h : 10 ≤ n) :
    decText n = decText (n / 10) ++ [Nat.digitChar (n % 10)] :=
  Nat.toDigits_of_base_le (by decide) h

theorem decText_of_lt {n : ℕ} (h : n < 10) : decText n = [Nat.digitChar n] :=
  Nat.toDigits_of_lt_base h

theorem parseIPv4Fields_digit {d val digLen : ℕ} {cs : Text} {fields : List Byte} (hd : d < 10)
    (hz : ¬(digLen = 1 ∧ val = 0)) (hv : val * 10 + d ≤ 255) :
    parseIPv4Fields (Nat.digitChar d :: cs) val digLen fields =
      parseIPv4Fields cs (val * 10 + d) (digLen + 1) fields := by
  simp only [parseIPv4Fields, digitVal_digitChar hd, if_neg hz,
    if_neg (show ¬255 < val * 10 + d by omega)]

/-- One octet is read back as its value, after one digit at least. -/
theorem parseIPv4Fields_octet (b : Byte) (cs : Text) (fields : List Byte) :
    ∃ k, parseIPv4Fields (decText b.val ++ cs) 0 0 fields =
      parseIPv4Fields cs b.val (k + 1) fields := by
  have hb := b.isLt
  by_cases h1 : b.val < 10
  · refine ⟨0, ?_⟩
    rw [decText_of_lt h1, List.singleton_append,
      parseIPv4Fields_digit h1 (by omega) (by omega), Nat.zero_mul, Nat.zero_add]
  · by_cases h2 : b.val < 100
    · refine ⟨1, ?_⟩
      have hv : b.val / 10 * 10 + b.val % 10 = b.val := by omega
      rw [decText_step (by omega), decText_of_lt (by omega), List.append_assoc,
        List.singleton_append, List.singleton_append,
        parseIPv4Fields_digit (by omega) (by omega) (by omega), Nat.zero_mul, Nat.zero_add,
        parseIPv4Fields_digit (by omega) (by omega) (by omega), hv]
    · refine ⟨2, ?_⟩
      have hv : b.val / 10 / 10 * 10 + b.val / 10 % 10 = b.val / 10 := by omega
      have hw : b.val / 10 * 10 + b.val % 10 = b.val := by omega
      rw [decText_step (by omega), decText_step (n := b.val / 10) (by omega),
        decText_of_lt (by omega), List.append_assoc, List.append_assoc, List.singleton_append,
        List.singleton_append, List.singleton_append,
        parseIPv4Fields_digit (by omega) (by omega) (by omega), Nat.zero_mul, Nat.zero_add,
        parseIPv4Fields_digit (by omega) (by omega) (by omega), hv,
        parseIPv4Fields_digit (by omega) (by omega) (by omega), hw]

theorem byteOf_val (b : Byte) : byteOf b.val = b := Fin.ext (Nat.mod_eq_of_lt b.isLt)

theorem parseIPv4Fields_octet_dot (b : Byte) {cs : Text} {fields : List Byte} (hcs : cs ≠ [])
    (hf : fields.length < 3) :
    parseIPv4Fields (decText b.val ++ '.' :: cs) 0 0 fields =
      parseIPv4Fields cs 0 0 (fields ++ [b]) := by
  obtain ⟨k, hk⟩ := parseIPv4Fields_octet b ('.' :: cs) fields
  have hdot : digitVal '.' = none := by decide
  rw [hk]
  simp only [parseIPv4Fields, hdot, if_true, hcs, or_false, Nat.add_one_ne_zero, if_false,
    if_neg (show fields.length ≠ 3 by omega), byteOf_val]

theorem parseIPv4Fields_dottedText (ip : IP) (h : ip.length = 4) :
    parseIPv4Fields (dottedText ip) 0 0 [] = some ip := by
  obtain ⟨a, b, c, d, rfl⟩ : ∃ a b c d, ip = [a, b, c, d] := by
    match ip, h with
    | [a, b, c, d], _ => exact ⟨a, b, c, d, rfl⟩
  have hne : ∀ n, decText n ≠ [] := fun n => Nat.toDigits_ne_nil
  have ht : dottedText [a, b, c, d] =
      decText a.val ++ '.' :: (decText b.val ++ '.' ::
        (decText c.val ++ '.' :: (decText d.val ++ []))) := by
    simp [dottedText, List.intercalate]
  obtain ⟨k, hk⟩ := parseIPv4Fields_octet d [] [a, b, c]
  rw [ht, parseIPv4Fields_octet_dot a (by simp) (by simp),
    parseIPv4Fields_octet_dot b (by simp) (by simp),
    parseIPv4Fields_octet_dot c (by simp [hne]) (by simp)]
  simp only [List.nil_append, List.cons_append]
  rw [hk]
  simp [parseIPv4Fields, byteOf_val]

theorem parseAddr_dottedText (ip : IP) (h : ip.length = 4) :
    parseAddr (dottedText ip) = some ⟨ip, []⟩ := by
  have hfind : (dottedText ip).find? (fun c => c = '.' || c = ':' || c = '%') = some '.' := by
    obtain ⟨a, rest, rfl⟩ : ∃ a rest, ip = a :: rest := by
      match ip, h with
      | a :: rest, _ => exact ⟨a, rest, rfl⟩
    obtain ⟨b, rest, rfl⟩ : ∃ b r, rest = b :: r := by
      match rest, h with
      | b :: r, _ => exact ⟨b, r, rfl⟩
    have hskip : (decText a.val).find? (fun c => c = '.' || c = ':' || c = '%') = none := by
      rw [List.find?_eq_none]
      intro c hc
      have hd := decText_isDigit hc
      have hdig : ∀ x : Char, x.isDigit = false → c ≠ x := by
        rintro x hx rfl
        rw [hd] at hx
        cases hx
      simp [hdig '.' (by decide), hdig ':' (by decide), hdig '%' (by decide)]
    simp only [dottedText, List.map_cons, List.intercalate_cons_cons, List.append_assoc,
      List.find?_append, hskip, Option.none_or]
    rfl
  simp only [parseAddr, hfind, parseIPv4Fields_dottedText ip h, Option.map_some]

theorem dtoi_decText (l : Fin 33) : dtoi (decText l.val) 0 = some l.val := by
  revert l
  decide

/-- The text of an IPv4 network is read back as that network. -/
theorem parseCIDR_netText {n : IPNet} {nn : IP} {l : ℕ} (h : Canonical n nn l)
    (h4 : nn.length = 4) :
    ∃ a n', parseCIDR (netText n) = some (a, n') ∧
      networkNumberAndMask n' = networkNumberAndMask n := by
  have hl : l ≤ 32 := by
    rcases h.family with hf | hf <;> omega
  have hslash : '/' ∉ dottedText nn := by
    rw [← ipText_of_length4 h4]
    exact notMem_ipText (by decide) (by decide) (by decide) (by decide) (Or.inl h4)
  have hp : ∀ c ∈ dottedText nn, decide (c ≠ '/') = true := by
    intro c hc
    have : c ≠ '/' := fun he => hslash (he ▸ hc)
    simpa using this
  have hne : decText l ≠ [] := Nat.toDigits_ne_nil
  have hm : maskIP (v4InV6Prefix ++ nn) (cidrMask l 4) = nn := by
    have hmasked := h.masked
    rw [h4] at hmasked
    simpa [maskIP, cidrMask_length, h4, v4InV6Prefix] using hmasked
  refine ⟨v4InV6Prefix ++ nn, ⟨nn, cidrMask l 4⟩, ?_, ?_⟩
  · rw [h.text, ipText_of_length4 h4]
    unfold parseCIDR
    simp only [List.takeWhile_append_of_pos hp, List.dropWhile_append_of_pos hp]
    have hd : dtoi (decText l) 0 = some l := dtoi_decText ⟨l, by omega⟩
    simp [parseAddr_dottedText nn h4, hd, hne, h4, hm, hl]
  · rw [h.form]
    simp [networkNumberAndMask, to4, h4, cidrMask_length]

theorem contains_congr {n n' : IPNet} (h : networkNumberAndMask n = networkNumberAndMask n')
    (x : IP) : contains n x = contains n' x := by
  simp only [contains, h]

end SshTunnel.Lib.Net
