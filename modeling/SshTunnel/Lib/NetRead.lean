import SshTunnel.Lib.NetText

/-!
# Network texts are read back

`parseCIDR` accepts the text that `netText` prints for a canonical network and
returns the same network number and mask. The IPv4 case is in
`SshTunnel.Lib.NetText`; here is the IPv6 one: hexadecimal groups, the loop of
`parseIPv6` and the ellipsis, wherever the zero run stands.
-/

namespace SshTunnel.Lib.Net

/-! ### Hexadecimal groups -/

theorem parseHexGroup_digit {d off acc : ℕ} {cs : Text} (hd : d < 16) (ho : off ≤ 3)
    (ha : acc * 16 + d < 65536) :
    parseHexGroup (hexDigit d :: cs) off acc = parseHexGroup cs (off + 1) (acc * 16 + d) := by
  simp only [parseHexGroup, hexVal_hexDigit ⟨d, hd⟩, if_neg (show ¬3 < off by omega),
    if_neg (show ¬65535 < acc * 16 + d by omega)]

/-- A text at which a group ends. -/
def EndsGroup (rest : Text) : Prop := ∀ c ∈ rest.head?, hexVal c = none

theorem parseHexGroup_end {rest : Text} (h : EndsGroup rest) (off acc : ℕ) :
    parseHexGroup rest off acc = some (off, acc, rest) := by
  cases rest with
  | nil => rfl
  | cons c cs =>
    have hc : hexVal c = none := h c rfl
    simp only [parseHexGroup, hc]

theorem hexText_of_lt {x : ℕ} (h : x < 16) : hexText x = [hexDigit x] := by
  simp [hexText, show ¬4096 ≤ x by omega, show ¬256 ≤ x by omega, show ¬16 ≤ x by omega,
    Nat.mod_eq_of_lt h]

theorem hexText_step {x : ℕ} (h : 16 ≤ x) (hx : x < 65536) :
    hexText x = hexText (x / 16) ++ [hexDigit (x % 16)] := by
  have h4096 : ¬4096 ≤ x / 16 := by omega
  have h256 : 256 ≤ x / 16 ↔ 4096 ≤ x := by omega
  have h16 : 16 ≤ x / 16 ↔ 256 ≤ x := by omega
  have hd : x / 16 / 256 % 16 = x / 4096 := by omega
  have hd' : x / 16 / 16 % 16 = x / 256 % 16 := by omega
  simp [hexText, h, h4096, h256, h16, hd, hd']

/-- The digits of a group are read one after the other; `n` bounds their number. -/
theorem parseHexGroup_digits (rest : Text) (n : ℕ) : ∀ x, x < 16 ^ (n + 1) → n ≤ 3 →
    ∃ k ≤ n, parseHexGroup (hexText x ++ rest) 0 0 = parseHexGroup rest (k + 1) x := by
  induction n generalizing rest with
  | zero =>
    intro x hx _
    have hv : 0 * 16 + x = x := by omega
    refine ⟨0, le_refl 0, ?_⟩
    rw [hexText_of_lt (by omega), List.singleton_append,
      parseHexGroup_digit (by omega) (by omega) (by omega), hv]
  | succ n ih =>
    intro x hx hn
    have hle : 16 ^ (n + 1) ≤ 16 ^ 3 := Nat.pow_le_pow_right (by decide) (by omega)
    rw [Nat.pow_succ] at hx
    by_cases h : x < 16
    · have h1 : 16 ^ 1 ≤ 16 ^ (n + 1) := Nat.pow_le_pow_right (by decide) (by omega)
      obtain ⟨k, hk, he⟩ := ih rest x (by omega) (by omega)
      exact ⟨k, by omega, he⟩
    · obtain ⟨k, hk, he⟩ := ih (hexDigit (x % 16) :: rest) (x / 16) (by omega) (by omega)
      have hv : x / 16 * 16 + x % 16 = x := by omega
      refine ⟨k + 1, by omega, ?_⟩
      rw [hexText_step (by omega) (by omega), List.append_assoc, List.singleton_append, he,
        parseHexGroup_digit (by omega) (by omega) (by omega), hv]

theorem parseHexGroup_hexText {x : ℕ} {rest : Text} (hx : x < 65536) (h : EndsGroup rest) :
    ∃ k, parseHexGroup (hexText x ++ rest) 0 0 = some (k + 1, x, rest) := by
  obtain ⟨k, _, hk⟩ := parseHexGroup_digits rest 3 x hx (le_refl 3)
  exact ⟨k, by rw [hk, parseHexGroup_end h]⟩

/-! ### The loop of `parseIPv6` on printed groups -/

def groupBytes (x : ℕ) : IP := [byteOf (x / 256), byteOf x]

def bytesOf (g : List ℕ) : IP := g.flatMap groupBytes

theorem bytesOf_length (g : List ℕ) : (bytesOf g).length = 2 * g.length := by
  induction g with
  | nil => rfl
  | cons x g ih =>
    simp only [bytesOf, List.flatMap_cons, List.length_append, List.length_cons] at ih ⊢
    rw [ih]
    simp only [groupBytes, List.length_cons, List.length_nil]
    omega

theorem bytesOf_append (g h : List ℕ) : bytesOf (g ++ h) = bytesOf g ++ bytesOf h :=
  List.flatMap_append

theorem bytesOf_replicate (k : ℕ) : bytesOf (List.replicate k 0) = List.replicate (2 * k) 0 := by
  induction k with
  | zero => rfl
  | succ k ih =>
    have hk : 2 * (k + 1) = 2 * k + 1 + 1 := by omega
    rw [hk, List.replicate_succ, List.replicate_succ, List.replicate_succ, ← ih]
    rfl

theorem groupBytes_pair (a b : Byte) : groupBytes (a.val * 256 + b.val) = [a, b] := by
  have ha : byteOf ((a.val * 256 + b.val) / 256) = a := Fin.ext (by simp only [byteOf]; omega)
  have hb : byteOf (a.val * 256 + b.val) = b := Fin.ext (by simp only [byteOf]; omega)
  rw [groupBytes, ha, hb]

theorem bytesOf_groups : ∀ {ip : IP}, ip.length % 2 = 0 → bytesOf (groups ip) = ip
  | [], _ => rfl
  | [_], h => by simp at h
  | a :: b :: rest, h => by
    have hr : rest.length % 2 = 0 := by
      simp only [List.length_cons] at h
      omega
    have ih := bytesOf_groups hr
    simp only [bytesOf, groups, List.flatMap_cons, groupBytes_pair] at ih ⊢
    rw [ih]
    rfl

/-- The groups of `g` with colons between them. -/
def joinHex (g : List ℕ) : Text := [ ':' ].intercalate (g.map hexText)

theorem joinHex_cons_cons (x y : ℕ) (g : List ℕ) :
    joinHex (x :: y :: g) = hexText x ++ ':' :: joinHex (y :: g) := by
  simp only [joinHex, List.map_cons, List.intercalate_cons_cons, List.append_assoc,
    List.singleton_append]

theorem joinHex_head (x : ℕ) (g : List ℕ) : ∃ d ds, joinHex (x :: g) = d :: ds ∧ d ≠ ':' := by
  obtain ⟨d, ds, hd⟩ := List.exists_cons_of_ne_nil (hexText_ne_nil x)
  have hcol : ':' ∉ hexText x := notMem_hexText (by decide) x
  have hne : d ≠ ':' := by
    rintro rfl
    exact hcol (hd ▸ List.mem_cons_self ..)
  cases g with
  | nil => exact ⟨d, ds, by simp [joinHex, hd], hne⟩
  | cons y g => exact ⟨d, ds ++ ':' :: joinHex (y :: g), by rw [joinHex_cons_cons, hd]; rfl, hne⟩

section Loop

variable {fuel x : ℕ} {ip : IP} {e : Option ℕ} {cs : Text}

theorem endsGroup_nil : EndsGroup [] := by
  intro c hc
  cases hc

theorem endsGroup_colon (cs : Text) : EndsGroup (':' :: cs) := by
  intro c hc
  cases hc
  decide

theorem parseIPv6Loop_last (hx : x < 65536) (hl : ip.length < 16) :
    parseIPv6Loop (fuel + 1) ip e (hexText x) = some (ip ++ groupBytes x, e, []) := by
  obtain ⟨k, hk⟩ := parseHexGroup_hexText hx endsGroup_nil
  rw [List.append_nil] at hk
  simp [parseIPv6Loop, Nat.not_le.mpr hl, hk, groupBytes]

theorem parseIPv6Loop_colon (hx : x < 65536) (hl : ip.length < 16)
    (hcs : ∃ d ds, cs = d :: ds ∧ d ≠ ':') :
    parseIPv6Loop (fuel + 1) ip e (hexText x ++ ':' :: cs) =
      parseIPv6Loop fuel (ip ++ groupBytes x) e cs := by
  obtain ⟨d, ds, rfl, hd⟩ := hcs
  obtain ⟨k, hk⟩ := parseHexGroup_hexText hx (endsGroup_colon (d :: ds))
  rw [parseIPv6Loop]
  simp [Nat.not_le.mpr hl, hk, hd, groupBytes]

theorem parseIPv6Loop_ellipsis (hx : x < 65536) (hl : ip.length < 16) (hcs : cs ≠ []) :
    parseIPv6Loop (fuel + 1) ip none (hexText x ++ ':' :: ':' :: cs) =
      parseIPv6Loop fuel (ip ++ groupBytes x) (some (ip.length + 2)) cs := by
  obtain ⟨k, hk⟩ := parseHexGroup_hexText hx (endsGroup_colon (':' :: cs))
  rw [parseIPv6Loop]
  simp [Nat.not_le.mpr hl, hk, hcs, groupBytes]

theorem parseIPv6Loop_ellipsis_end (hx : x < 65536) (hl : ip.length < 16) :
    parseIPv6Loop (fuel + 1) ip none (hexText x ++ [':', ':']) =
      some (ip ++ groupBytes x, some (ip.length + 2), []) := by
  obtain ⟨k, hk⟩ := parseHexGroup_hexText hx (endsGroup_colon [':'])
  simp [parseIPv6Loop, Nat.not_le.mpr hl, hk, groupBytes]

end Loop

/-- Groups without an ellipsis, behind the bytes read so far. -/
theorem parseIPv6Loop_groups (e : Option ℕ) (x : ℕ) (g : List ℕ) : ∀ (fuel : ℕ) (ip : IP),
    (∀ y ∈ x :: g, y < 65536) → (x :: g).length ≤ fuel →
    ip.length + 2 * (x :: g).length ≤ 16 →
    parseIPv6Loop fuel ip e (joinHex (x :: g)) = some (ip ++ bytesOf (x :: g), e, []) := by
  induction g generalizing x with
  | nil =>
    intro fuel ip hg hf hl
    obtain ⟨f, rfl⟩ : ∃ f, fuel = f + 1 := Nat.exists_eq_add_of_le' hf
    have hx := hg x (List.mem_cons_self ..)
    have ht : joinHex [x] = hexText x := by simp [joinHex]
    have hb : bytesOf [x] = groupBytes x := by simp [bytesOf]
    simp only [List.length_singleton] at hl
    rw [ht, hb, parseIPv6Loop_last hx (by omega)]
  | cons y g ih =>
    intro fuel ip hg hf hl
    simp only [List.length_cons] at hf hl
    obtain ⟨f, rfl⟩ : ∃ f, fuel = f + 1 := Nat.exists_eq_add_of_le' (by omega)
    have hx := hg x (List.mem_cons_self ..)
    have hb : bytesOf (x :: y :: g) = groupBytes x ++ bytesOf (y :: g) := by
      simp [bytesOf]
    rw [joinHex_cons_cons, parseIPv6Loop_colon hx (by omega) (joinHex_head y g),
      ih y f _ (fun z hz => hg z (List.mem_cons_of_mem _ hz)) _ _, hb, List.append_assoc]
    · simp only [List.length_cons]
      omega
    · simp only [List.length_append, List.length_cons, groupBytes, List.length_nil]
      omega

/-- Groups on both sides of the ellipsis, at least one of them before it. -/
theorem parseIPv6Loop_split (ys : List ℕ) (x : ℕ) (xs : List ℕ) : ∀ (fuel : ℕ) (ip : IP),
    (∀ z ∈ x :: xs, z < 65536) → (∀ z ∈ ys, z < 65536) →
    (x :: xs).length + ys.length ≤ fuel →
    ip.length + 2 * ((x :: xs).length + ys.length) ≤ 16 →
    parseIPv6Loop fuel ip none (joinHex (x :: xs) ++ ':' :: ':' :: joinHex ys) =
      some (ip ++ bytesOf (x :: xs) ++ bytesOf ys, some (ip.length + 2 * (x :: xs).length), []) := by
  induction xs generalizing x with
  | nil =>
    intro fuel ip hx hy hf hl
    simp only [List.length_cons, List.length_nil] at hf hl
    obtain ⟨f, rfl⟩ : ∃ f, fuel = f + 1 := Nat.exists_eq_add_of_le' (by omega)
    have hx0 := hx x (List.mem_cons_self ..)
    have ht : joinHex [x] = hexText x := by simp [joinHex]
    have hb : bytesOf [x] = groupBytes x := by simp [bytesOf]
    rw [ht, hb, List.length_singleton]
    cases ys with
    | nil =>
      have h0 : joinHex [] = [] := rfl
      have hb0 : bytesOf [] = [] := rfl
      rw [h0, hb0, List.append_nil, parseIPv6Loop_ellipsis_end hx0 (by omega)]
    | cons y ys =>
      obtain ⟨d, ds, hd, _⟩ := joinHex_head y ys
      have hne : joinHex (y :: ys) ≠ [] := by
        rw [hd]
        exact List.cons_ne_nil d ds
      rw [parseIPv6Loop_ellipsis hx0 (by omega) hne,
        parseIPv6Loop_groups _ y ys f _ hy (by omega) _]
      simp only [List.length_append, groupBytes, List.length_cons, List.length_nil] at hl ⊢
      omega
  | cons w xs ih =>
    intro fuel ip hx hy hf hl
    simp only [List.length_cons] at hf hl
    obtain ⟨f, rfl⟩ : ∃ f, fuel = f + 1 := Nat.exists_eq_add_of_le' (by omega)
    have hx0 := hx x (List.mem_cons_self ..)
    have hb : bytesOf (x :: w :: xs) = groupBytes x ++ bytesOf (w :: xs) := by
      simp [bytesOf]
    have hlen : (ip ++ groupBytes x).length = ip.length + 2 := by
      simp [groupBytes]
    obtain ⟨d, ds, hd, hne⟩ := joinHex_head w xs
    have hcs : ∃ d ds, joinHex (w :: xs) ++ ':' :: ':' :: joinHex ys = d :: ds ∧ d ≠ ':' :=
      ⟨d, ds ++ ':' :: ':' :: joinHex ys, by rw [hd]; rfl, hne⟩
    rw [joinHex_cons_cons, List.append_assoc, List.cons_append,
      parseIPv6Loop_colon hx0 (by omega) hcs,
      ih w f _ (fun z hz => hx z (List.mem_cons_of_mem _ hz)) hy _ _, hb, hlen,
      List.append_assoc ip]
    · simp only [List.length_cons, Option.some.injEq, Prod.mk.injEq, and_true, true_and]
      omega
    · simp only [List.length_cons]
      omega
    · rw [hlen]
      simp only [List.length_cons]
      omega

/-! ### The text of an IPv6 address -/

theorem intercalate_append {c : Char} {ts us : List Text} (ht : ts ≠ []) (hu : us ≠ []) :
    [c].intercalate (ts ++ us) = [c].intercalate ts ++ c :: [c].intercalate us := by
  induction ts with
  | nil => exact absurd rfl ht
  | cons t ts ih =>
    cases ts with
    | nil =>
      rw [List.singleton_append, List.intercalate_cons_of_ne_nil hu, List.intercalate_singleton,
        List.append_assoc, List.singleton_append]
    | cons s ts =>
      rw [List.cons_append, List.intercalate_cons_of_ne_nil (by simp), ih (by simp),
        List.intercalate_cons_cons, List.append_assoc, List.append_assoc, List.append_assoc]

theorem intercalate_orEmptyToken (g : List ℕ) :
    [ ':' ].intercalate (orEmptyToken (g.map hexText)) = joinHex g := by
  cases g with
  | nil => rfl
  | cons x g => simp [orEmptyToken, joinHex]

theorem intercalate_split (xs ys : List ℕ) :
    [ ':' ].intercalate (orEmptyToken (xs.map hexText) ++ [] :: orEmptyToken (ys.map hexText)) =
      joinHex xs ++ ':' :: ':' :: joinHex ys := by
  have hne : ∀ g : List ℕ, orEmptyToken (g.map hexText) ≠ [] := by
    intro g
    cases g <;> simp [orEmptyToken]
  rw [intercalate_append (hne xs) (List.cons_ne_nil _ _), List.intercalate_cons_of_ne_nil (hne ys),
    intercalate_orEmptyToken, intercalate_orEmptyToken]
  rfl

theorem parseIPv6Body_head {c : Char} {cs : Text} (h : c ≠ ':') :
    parseIPv6Body (c :: cs) = (parseIPv6Loop 8 [] none (c :: cs)).bind expandEllipsis := by
  unfold parseIPv6Body
  split
  · rename_i he
    cases he
    exact absurd rfl h
  · rename_i he
    cases he
    exact absurd rfl h
  · rfl

theorem parseIPv6Body_ellipsis {cs : Text} (h : cs ≠ []) :
    parseIPv6Body (':' :: ':' :: cs) =
      (parseIPv6Loop 8 [] (some 0) cs).bind expandEllipsis := by
  unfold parseIPv6Body
  split
  · rename_i he
    cases he
    exact absurd rfl h
  · rename_i he
    cases he
    rfl
  · rename_i h1
    exact absurd rfl (h1 cs)

/-- The ellipsis stands for the zeros between the groups before and behind it. -/
theorem expandEllipsis_split {xs ys : List ℕ} (h : xs.length + ys.length < 8) :
    expandEllipsis (bytesOf xs ++ bytesOf ys, some (2 * xs.length), []) =
      some (bytesOf (xs ++ List.replicate (8 - xs.length - ys.length) 0 ++ ys)) := by
  have hlen : (bytesOf xs ++ bytesOf ys).length = 2 * (xs.length + ys.length) := by
    rw [List.length_append, bytesOf_length, bytesOf_length]
    omega
  have hz : 16 - 2 * (xs.length + ys.length) = 2 * (8 - xs.length - ys.length) := by omega
  have htake : (bytesOf xs ++ bytesOf ys).take (2 * xs.length) = bytesOf xs := by
    rw [← bytesOf_length, List.take_left]
  have hdrop : (bytesOf xs ++ bytesOf ys).drop (2 * xs.length) = bytesOf ys := by
    rw [← bytesOf_length, List.drop_left]
  rw [bytesOf_append, bytesOf_append, bytesOf_replicate]
  simp only [expandEllipsis, ne_eq, not_true_eq_false, if_false, hlen,
    if_pos (show 2 * (xs.length + ys.length) < 16 by omega), Option.map_some, htake, hdrop, hz]

theorem parseIPv6Body_split {xs ys : List ℕ} (h : xs.length + ys.length < 8)
    (hx : ∀ z ∈ xs, z < 65536) (hy : ∀ z ∈ ys, z < 65536) :
    parseIPv6Body (joinHex xs ++ ':' :: ':' :: joinHex ys) =
      some (bytesOf (xs ++ List.replicate (8 - xs.length - ys.length) 0 ++ ys)) := by
  rw [← expandEllipsis_split h]
  cases xs with
  | nil =>
    cases ys with
    | nil => rfl
    | cons y ys =>
      obtain ⟨d, ds, hd, _⟩ := joinHex_head y ys
      have hne : joinHex (y :: ys) ≠ [] := by
        rw [hd]
        exact List.cons_ne_nil d ds
      have h0 : joinHex [] = [] := rfl
      simp only [List.length_nil, Nat.zero_add] at h
      rw [h0, List.nil_append, parseIPv6Body_ellipsis hne,
        parseIPv6Loop_groups _ y ys 8 [] hy (by omega) (by simp only [List.length_nil]; omega)]
      rfl
  | cons x xs =>
    obtain ⟨d, ds, hd, hne⟩ := joinHex_head x xs
    have hcons : joinHex (x :: xs) ++ ':' :: ':' :: joinHex ys =
        d :: (ds ++ ':' :: ':' :: joinHex ys) := by
      rw [hd]
      rfl
    rw [hcons, parseIPv6Body_head hne, ← hcons,
      parseIPv6Loop_split ys x xs 8 [] hx hy (by omega) (by simp only [List.length_nil]; omega)]
    simp only [Option.bind_some, List.nil_append, List.length_nil, Nat.zero_add]

theorem parseIPv6Body_groups {g : List ℕ} (h8 : g.length = 8) (hg : ∀ x ∈ g, x < 65536) :
    parseIPv6Body (joinHex g) = some (bytesOf g) := by
  cases g with
  | nil => cases h8
  | cons x g =>
    obtain ⟨d, ds, hd, hne⟩ := joinHex_head x g
    have hlen : (bytesOf (x :: g)).length = 16 := by
      rw [bytesOf_length, h8]
    rw [hd, parseIPv6Body_head hne, ← hd,
      parseIPv6Loop_groups none x g 8 [] hg (by omega) (by simp only [List.length_nil]; omega)]
    simp only [Option.bind_some, List.nil_append, expandEllipsis, hlen, ne_eq, not_true_eq_false,
      if_false, Nat.lt_irrefl, Option.isSome_none, Bool.false_eq_true]

/-- The text of eight groups is read back as their bytes, with or without a zero run. -/
theorem parseIPv6Body_tokens6 {g : List ℕ} (h8 : g.length = 8) (hg : ∀ x ∈ g, x < 65536) :
    parseIPv6Body ([ ':' ].intercalate (tokens6 g)) = some (bytesOf g) := by
  rcases tokens6_cases h8 with ht | ⟨xs, ys, hlt, hsplit, ht⟩
  · rw [ht]
    exact parseIPv6Body_groups h8 hg
  · have hx : ∀ x ∈ xs, x < 65536 := fun x hx => hg x (by rw [hsplit]; simp [hx])
    have hy : ∀ y ∈ ys, y < 65536 := fun y hy => hg y (by rw [hsplit]; simp [hy])
    rw [ht, intercalate_split, parseIPv6Body_split hlt hx hy, ← hsplit]

/-! ### Networks -/

theorem find_colon {s : Text} (hc : ':' ∈ s) (hd : '.' ∉ s) (hp : '%' ∉ s) :
    s.find? (fun c => c = '.' || c = ':' || c = '%') = some ':' := by
  induction s with
  | nil => cases hc
  | cons c s ih =>
    simp only [List.mem_cons, not_or] at hd hp
    by_cases h : c = ':'
    · simp [h]
    · have hs : ':' ∈ s := (List.mem_cons.mp hc).resolve_left fun he => h he.symm
      have hcd : c ≠ '.' := fun he => hd.1 he.symm
      have hcp : c ≠ '%' := fun he => hp.1 he.symm
      rw [List.find?_cons_of_neg (by simp [h, hcd, hcp])]
      exact ih hs hd.2 hp.2

theorem colon_mem_tokens6 {g : List ℕ} (h8 : g.length = 8) :
    ':' ∈ [ ':' ].intercalate (tokens6 g) := by
  rcases tokens6_cases h8 with ht | ⟨xs, ys, _, _, ht⟩
  · obtain ⟨x, y, g, rfl⟩ : ∃ x y g', g = x :: y :: g' := by
      match g, h8 with
      | x :: y :: g', _ => exact ⟨x, y, g', rfl⟩
    rw [ht, List.map_cons, List.map_cons, List.intercalate_cons_cons]
    simp
  · rw [ht, intercalate_split]
    simp

theorem parseAddr_ipText6 {ip : IP} (h : ip.length = 16) (h4 : to4 ip = none) :
    parseAddr (ipText ip) = some ⟨ip, []⟩ := by
  have h8 : (groups ip).length = 8 := by
    rw [groups_length, h]
  rw [ipText_of_to4_none h h4]
  have hno : ∀ c, c ≠ ':' → c ∉ "0123456789abcdef".toList →
      c ∉ [ ':' ].intercalate (tokens6 (groups ip)) := fun c hc hh =>
    notMem_intercalate hc (notMem_tokens6 hh _)
  have hpc : '%' ∉ [ ':' ].intercalate (tokens6 (groups ip)) := hno '%' (by decide) (by decide)
  have hfind := find_colon (colon_mem_tokens6 h8) (hno '.' (by decide) (by decide)) hpc
  have hall : ∀ c ∈ [ ':' ].intercalate (tokens6 (groups ip)), decide (c ≠ '%') = true := by
    intro c hc
    have : c ≠ '%' := fun he => hpc (he ▸ hc)
    simpa using this
  have htake := List.takeWhile_eq_self_iff.mpr hall
  have hdrop := List.dropWhile_eq_nil_iff.mpr hall
  have hbody := parseIPv6Body_tokens6 h8 (groups_lt ip)
  rw [bytesOf_groups (by omega)] at hbody
  simp only [parseAddr, hfind, parseIPv6, hpc, false_and, if_false, htake, hdrop, hbody,
    Option.map_some, List.drop_nil]

theorem dtoi_prefixLength (l : Fin 129) : dtoi (decText l.val) 0 = some l.val := by
  revert l
  decide +kernel

/-- The text of a canonical network is read back as that network. -/
theorem parseCIDR_read {n : IPNet} {nn : IP} {l : ℕ} (h : Canonical n nn l) :
    ∃ a n', parseCIDR (netText n) = some (a, n') ∧
      networkNumberAndMask n' = networkNumberAndMask n := by
  rcases h.family with ⟨h4, _⟩ | ⟨h16, h4, hl⟩
  · exact parseCIDR_netText h h4
  have hslash : '/' ∉ ipText nn :=
    notMem_ipText (by decide) (by decide) (by decide) (by decide) (Or.inr h16)
  have hp : ∀ c ∈ ipText nn, decide (c ≠ '/') = true := by
    intro c hc
    have : c ≠ '/' := fun he => hslash (he ▸ hc)
    simpa using this
  have hne : decText l ≠ [] := Nat.toDigits_ne_nil
  have hd : dtoi (decText l) 0 = some l := dtoi_prefixLength ⟨l, by omega⟩
  have hm : maskIP nn (cidrMask l 16) = nn := by
    have hmasked := h.masked
    rw [h16] at hmasked
    simpa [maskIP, cidrMask_length, h16] using hmasked
  refine ⟨nn, ⟨nn, cidrMask l 16⟩, ?_, ?_⟩
  · rw [h.text]
    unfold parseCIDR
    simp only [List.takeWhile_append_of_pos hp, List.dropWhile_append_of_pos hp]
    simp [parseAddr_ipText6 h16 h4, hd, hne, h16, hm, hl]
  · rw [h.form, h16]
    simp [networkNumberAndMask, h4, h16, cidrMask_length]

theorem slash_mem_netText {n : IPNet} {nn : IP} {l : ℕ} (h : Canonical n nn l) :
    '/' ∈ netText n := by
  rw [h.text]
  simp

end SshTunnel.Lib.Net
