import SshTunnel.Lib.NetText

/-!
# Networks of whole bytes

`IPNet.Contains` for a mask that ends at a byte boundary, and what it says about
the address a network is made from: a network of 32 bits is a single address for
IPv4 and 96 bits too wide for IPv6.
-/

namespace SshTunnel.Lib.Net

/-- `IP.Equal`: an IPv4 address and its IPv4-mapped form are equal. -/
def ipEqual (a b : IP) : Bool :=
  if a.length = b.length then a = b
  else if a.length = 4 ∧ b.length = 16 then b.take 12 = v4InV6Prefix && a = b.drop 12
  else if a.length = 16 ∧ b.length = 4 then a.take 12 = v4InV6Prefix && a.drop 12 = b
  else false

theorem ipEqual_self (a : IP) : ipEqual a a = true := by
  simp [ipEqual]

theorem ipEqual_length4 {a b : IP} (hb : b.length = 4) :
    ipEqual a b = true ↔ to4 a = some b := by
  unfold ipEqual to4
  rw [hb]
  by_cases h4 : a.length = 4
  · simp [h4]
  · by_cases h16 : a.length = 16
    · simp [h16]
    · simp [h4, h16]

/-! ### Masks -/

theorem cidrMask_zero (l : ℕ) : cidrMask 0 l = List.replicate l 0 := by
  induction l with
  | zero => rfl
  | succ l ih =>
    rw [cidrMask, if_neg (by decide), ih]
    rfl

theorem cidrMask_bytes (k m : ℕ) :
    cidrMask (8 * k) (k + m) = List.replicate k 255 ++ List.replicate m 0 := by
  induction k with
  | zero => simp [cidrMask_zero]
  | succ k ih =>
    have hones : 8 * (k + 1) - 8 = 8 * k := by omega
    rw [Nat.add_right_comm, cidrMask, if_pos (by omega), hones, ih]
    rfl

theorem and_ones (b : Byte) : b &&& 255 = b := by
  apply Fin.ext
  have hb : b.val &&& 255 = b.val % 2 ^ 8 := Nat.and_two_pow_sub_one_eq_mod b.val 8
  rw [Fin.and_val, show ((255 : Byte)).val = 255 from rfl, hb]
  exact Nat.mod_eq_of_lt b.isLt

theorem andBytes_ones (a : List Byte) : andBytes a (List.replicate a.length 255) = a := by
  induction a with
  | nil => rfl
  | cons b a ih =>
    simp only [List.length_cons, List.replicate_succ, andBytes, List.zipWith_cons_cons, and_ones]
    exact congrArg _ ih

theorem andBytes_zeros (a : List Byte) :
    andBytes a (List.replicate a.length 0) = List.replicate a.length 0 := by
  induction a with
  | nil => rfl
  | cons b a ih =>
    simp only [List.length_cons, List.replicate_succ, andBytes, List.zipWith_cons_cons]
    have hb : b &&& 0 = 0 := by
      apply Fin.ext
      rw [Fin.and_val]
      exact Nat.and_zero b.val
    rw [hb]
    exact congrArg _ ih

/-- A mask of `k` whole bytes keeps these bytes and clears the others. -/
theorem andBytes_bytes {a : List Byte} {k m : ℕ} (h : a.length = k + m) :
    andBytes a (cidrMask (8 * k) (k + m)) = a.take k ++ List.replicate m 0 := by
  have htake : (a.take k).length = k := by
    rw [List.length_take]
    omega
  have hdrop : (a.drop k).length = m := by
    rw [List.length_drop]
    omega
  have hones := andBytes_ones (a.take k)
  have hzeros := andBytes_zeros (a.drop k)
  rw [htake] at hones
  rw [hdrop] at hzeros
  calc andBytes a (cidrMask (8 * k) (k + m))
      = andBytes (a.take k ++ a.drop k) (List.replicate k 255 ++ List.replicate m 0) := by
        rw [cidrMask_bytes, List.take_append_drop]
    _ = andBytes (a.take k) (List.replicate k 255) ++
          andBytes (a.drop k) (List.replicate m 0) :=
        List.zipWith_append (by rw [htake, List.length_replicate])
    _ = a.take k ++ List.replicate m 0 := by rw [hones, hzeros]

/-! ### A network of 32 bits -/

theorem contains_host4 {b : IP} (hb : b.length = 4) (x : IP) :
    contains ⟨b, cidrMask 32 4⟩ x = true ↔ ipEqual x b = true := by
  have hnumber : networkNumberAndMask ⟨b, cidrMask 32 4⟩ = some (b, cidrMask 32 4) := by
    simp [networkNumberAndMask, to4, hb, cidrMask_length]
  have hmask : ∀ a : IP, a.length = 4 → andBytes a (cidrMask 32 4) = a := fun a ha => by
    have h := andBytes_bytes (k := 4) (m := 0) ha
    rwa [List.replicate_zero, List.append_nil, ← ha, List.take_length, ha] at h
  rw [ipEqual_length4 hb, contains, hnumber]
  simp only [inNetwork, Bool.and_eq_true, decide_eq_true_eq, hb, hmask b hb]
  cases hx : to4 x with
  | some y =>
    have hy : y.length = 4 := by
      unfold to4 at hx
      split_ifs at hx with h4 h16
      · cases hx
        exact h4
      · cases hx
        rw [List.length_drop]
        omega
    simp [hy, hmask y hy, eq_comm]
  | none =>
    have hx4 : x.length ≠ 4 := fun h4 => by simp [to4, h4] at hx
    simp [hx4]

theorem to4_take {b x : IP} (hb : b.length = 16) (hx : x.length = 16)
    (h : x.take 12 = b.take 12) (hto : to4 b = none) : to4 x = none := by
  simp only [to4, hb, hx, h] at hto ⊢
  simpa using hto

/-- The 32 bits of an IPv6 address are its first four bytes. -/
theorem contains_host16 {b : IP} (hb : b.length = 16) (x : IP) :
    contains ⟨andBytes b (cidrMask 32 16), cidrMask 32 16⟩ x = true ↔
      to4 x = none ∧ x.length = 16 ∧ x.take 4 = b.take 4 := by
  have hmask : ∀ a : IP, a.length = 16 →
      andBytes a (cidrMask 32 16) = a.take 4 ++ List.replicate 12 0 := fun a ha =>
    andBytes_bytes (k := 4) (m := 12) ha
  have hlen : (andBytes b (cidrMask 32 16)).length = 16 := by
    rw [andBytes_length, cidrMask_length, hb]
    rfl
  have hto : to4 (andBytes b (cidrMask 32 16)) = none := by
    have h11 : (andBytes b (cidrMask 32 16))[11]? = some 0 := by
      rw [hmask b hb, List.getElem?_append_right (by rw [List.length_take]; omega)]
      simp [hb]
    unfold to4
    rw [if_neg (by omega), if_neg]
    rintro ⟨-, hpre⟩
    have hget := congrArg (fun l => l[11]?) hpre
    rw [List.getElem?_take_of_lt (by decide), h11] at hget
    exact absurd hget (by decide)
  have hnumber : networkNumberAndMask ⟨andBytes b (cidrMask 32 16), cidrMask 32 16⟩ =
      some (andBytes b (cidrMask 32 16), cidrMask 32 16) := by
    simp [networkNumberAndMask, hto, hlen, cidrMask_length]
  rw [contains, hnumber]
  simp only [inNetwork, Bool.and_eq_true, decide_eq_true_eq, hlen, andBytes_idem]
  cases hx : to4 x with
  | some y =>
    have hy : y.length ≠ 16 := by
      unfold to4 at hx
      split_ifs at hx with h4 h16
      · cases hx
        omega
      · cases hx
        rw [List.length_drop]
        omega
    simp [hy]
  | none =>
    simp only [Option.getD_none, true_and]
    refine and_congr_right fun hx16 => ?_
    rw [hmask b hb, hmask x hx16, List.append_left_inj]
    exact eq_comm

/-- A network of 32 bits is never a single IPv6 address. -/
theorem contains_host16_ne {b : IP} (hb : b.length = 16) :
    ¬∀ x, contains ⟨andBytes b (cidrMask 32 16), cidrMask 32 16⟩ x = true ↔
      ipEqual x b = true := by
  intro hall
  have hto := ((contains_host16 hb b).mp ((hall b).mpr (ipEqual_self b))).1
  -- the same address with another last byte
  let x := b.take 15 ++ (b.drop 15).map (· + 1)
  have hx : x.length = 16 := by
    simp only [x, List.length_append, List.length_take, List.length_map, List.length_drop]
    omega
  have htake : ∀ k ≤ 15, x.take k = b.take k := by
    intro k hk
    rw [List.take_append_of_le_length (by rw [List.length_take]; omega), List.take_take,
      Nat.min_eq_left hk]
  have hcontains := (contains_host16 hb x).mpr
    ⟨to4_take hb hx (htake 12 (by decide)) hto, hx, htake 4 (by decide)⟩
  have hequal := (hall x).mp hcontains
  rw [ipEqual, if_pos (hx.trans hb.symm), decide_eq_true_eq] at hequal
  obtain ⟨c, hc⟩ : ∃ c, b.drop 15 = [c] := by
    rw [← List.length_eq_one_iff, List.length_drop, hb]
  have hlast := congrArg (List.drop 15) hequal
  rw [List.drop_append_of_le_length (by rw [List.length_take]; omega), hc] at hlast
  have hdrop : (b.take 15).drop 15 = [] := by simp
  rw [hdrop] at hlast
  have hc1 : c + 1 = c := (List.cons.inj hlast).1
  have hval := congrArg Fin.val hc1
  rw [Fin.val_add, show ((1 : Byte)).val = 1 from rfl] at hval
  omega

end SshTunnel.Lib.Net
