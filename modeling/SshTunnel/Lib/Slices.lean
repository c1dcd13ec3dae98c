import Mathlib.Logic.Function.Basic
import Mathlib.Data.List.Infix

/-!
# Slices of shared arrays

A slice is a window into an array that other slices may see as well. `append`
writes into that array as long as the slice has capacity left, and copies the
window to a new array otherwise. A slice is hit when another one appends inside
its window; all others read what they read before.
-/

namespace SshTunnel.Lib.Slices

structure Slice where
  array : ℕ
  offset : ℕ
  len : ℕ
  cap : ℕ
  len_le : len ≤ cap
  deriving DecidableEq

/-- Arrays by number; those from `next` on are not allocated yet. -/
structure Heap (α : Type) where
  arrays : ℕ → List α
  next : ℕ

/-- The capacity of the array to which a full slice moves. -/
structure Growth where
  grow : ℕ → ℕ
  enough : ∀ n, n < grow n

/-- As the Go runtime grows small slices. -/
def doubling : Growth := ⟨fun n => if n = 0 then 1 else 2 * n, fun n => by split <;> omega⟩

/-- The nil slice, in a heap with one empty array. -/
def nil : Slice := ⟨0, 0, 0, 0, le_rfl⟩

def Heap.init {α : Type} : Heap α := ⟨fun _ => [], 1⟩

section Operations

variable {α : Type}

def Heap.read (h : Heap α) (s : Slice) : List α :=
  ((h.arrays s.array).drop s.offset).take s.len

/-- The slice is a window of an allocated array. -/
structure Heap.Holds (h : Heap α) (s : Slice) : Prop where
  array : s.array < h.next
  window : s.offset + s.cap ≤ (h.arrays s.array).length

def Heap.append [Inhabited α] (g : Growth) (h : Heap α) (s : Slice) (x : α) : Heap α × Slice :=
  if hs : s.len < s.cap then
    (⟨Function.update h.arrays s.array ((h.arrays s.array).set (s.offset + s.len) x), h.next⟩,
      { s with len := s.len + 1, len_le := hs })
  else
    (⟨Function.update h.arrays h.next
        (h.read s ++ x :: List.replicate (g.grow s.cap - (s.len + 1)) default), h.next + 1⟩,
      ⟨h.next, 0, s.len + 1, g.grow s.cap, Nat.lt_of_le_of_lt s.len_le (g.enough s.cap)⟩)

/-- Appending to `s` writes inside the window of `t`. -/
def Hits (s t : Slice) : Prop :=
  s.len < s.cap ∧ t.array = s.array ∧ t.offset ≤ s.offset + s.len ∧
    s.offset + s.len < t.offset + t.len

instance (s t : Slice) : Decidable (Hits s t) := inferInstanceAs (Decidable (_ ∧ _))

/-- `s[lo:hi]`; `none` is a panic. -/
def Slice.sub (s : Slice) (lo hi : ℕ) : Option Slice :=
  if h : lo ≤ hi ∧ hi ≤ s.cap then
    some ⟨s.array, s.offset + lo, hi - lo, s.cap - lo, Nat.sub_le_sub_right h.2 lo⟩
  else none

/-- `n` turns of a loop that reads `s` from index `i` on and appends to `t` what
passes the test. -/
def Heap.filterFrom [Inhabited α] (g : Growth) (p : α → Bool) (s : Slice) :
    ℕ → ℕ → Heap α → Slice → Heap α × Slice
  | 0, _, h, t => (h, t)
  | n + 1, i, h, t =>
    match (h.read s)[i]? with
    | none => (h, t)
    | some a =>
      if p a then
        let (h', t') := h.append g t a
        Heap.filterFrom g p s n (i + 1) h' t'
      else Heap.filterFrom g p s n (i + 1) h t

/-- `t := s[:0]`, and then the loop over `s`. -/
def Heap.filterInPlace [Inhabited α] (g : Growth) (p : α → Bool) (h : Heap α) (s : Slice) :
    Heap α × Slice :=
  Heap.filterFrom g p s s.len 0 h { s with len := 0, len_le := Nat.zero_le _ }

end Operations

section Read

variable {α : Type} {h : Heap α} {s t : Slice}

theorem Heap.Holds.length (hs : h.Holds s) : (h.read s).length = s.len := by
  have hw := hs.window
  have hl := s.len_le
  simp only [Heap.read, List.length_take, List.length_drop]
  omega

theorem Heap.read_getElem? (h : Heap α) (s : Slice) (i : ℕ) :
    (h.read s)[i]? = if i < s.len then (h.arrays s.array)[s.offset + i]? else none := by
  rw [Heap.read, List.getElem?_take]
  split
  · rw [List.getElem?_drop]
  · rfl

theorem holds_nil : (Heap.init : Heap α).Holds nil := ⟨Nat.zero_lt_one, le_rfl⟩

theorem read_nil (h : Heap α) : h.read nil = [] := List.take_zero

theorem Slice.sub_eq {lo hi : ℕ} (hle : lo ≤ hi) (hhi : hi ≤ s.len) :
    s.sub lo hi = some ⟨s.array, s.offset + lo, hi - lo, s.cap - lo,
      Nat.sub_le_sub_right (hhi.trans s.len_le) lo⟩ := by
  rw [Slice.sub, dif_pos ⟨hle, hhi.trans s.len_le⟩]

theorem Heap.Holds.sub {lo hi : ℕ} (hs : h.Holds s) (ht : s.sub lo hi = some t) : h.Holds t := by
  by_cases hb : lo ≤ hi ∧ hi ≤ s.cap
  · rw [Slice.sub, dif_pos hb, Option.some.injEq] at ht
    have hw := hs.window
    subst ht
    refine ⟨hs.array, ?_⟩
    simp only
    omega
  · rw [Slice.sub, dif_neg hb] at ht
    cases ht

theorem Heap.read_sub (h : Heap α) {lo hi : ℕ} (hhi : hi ≤ s.len) (ht : s.sub lo hi = some t) :
    h.read t = ((h.read s).take hi).drop lo := by
  by_cases hb : lo ≤ hi ∧ hi ≤ s.cap
  · rw [Slice.sub, dif_pos hb, Option.some.injEq] at ht
    subst ht
    rw [Heap.read, Heap.read, List.take_take, Nat.min_eq_left hhi, List.drop_take, List.drop_drop]
  · rw [Slice.sub, dif_neg hb] at ht
    cases ht

end Read

section Append

variable {α : Type} [Inhabited α] {g : Growth} {h : Heap α} {s t : Slice} {x : α}

theorem append_spare (hs : s.len < s.cap) :
    h.append g s x =
      (⟨Function.update h.arrays s.array ((h.arrays s.array).set (s.offset + s.len) x), h.next⟩,
        { s with len := s.len + 1, len_le := hs }) := by
  rw [Heap.append, dif_pos hs]

theorem append_full (hs : ¬s.len < s.cap) :
    h.append g s x =
      (⟨Function.update h.arrays h.next
          (h.read s ++ x :: List.replicate (g.grow s.cap - (s.len + 1)) default), h.next + 1⟩,
        ⟨h.next, 0, s.len + 1, g.grow s.cap,
          Nat.lt_of_le_of_lt s.len_le (g.enough s.cap)⟩) := by
  rw [Heap.append, dif_neg hs]

theorem append_len : (h.append g s x).2.len = s.len + 1 := by
  by_cases hs : s.len < s.cap
  · rw [append_spare hs]
  · rw [append_full hs]

theorem append_holds (hs : h.Holds s) : (h.append g s x).1.Holds (h.append g s x).2 := by
  by_cases hc : s.len < s.cap
  · rw [append_spare hc]
    refine ⟨hs.array, ?_⟩
    simp only [Function.update_self, List.length_set]
    exact hs.window
  · rw [append_full hc]
    refine ⟨Nat.lt_succ_self _, ?_⟩
    have hg := g.enough s.cap
    have hl := s.len_le
    simp only [Function.update_self, List.length_append, hs.length, List.length_cons,
      List.length_replicate]
    omega

theorem append_holds_other (ht : h.Holds t) : (h.append g s x).1.Holds t := by
  by_cases hc : s.len < s.cap
  · rw [append_spare hc]
    refine ⟨ht.array, ?_⟩
    simp only [Function.update_apply]
    split
    · rename_i he
      rw [List.length_set, ← he]
      exact ht.window
    · exact ht.window
  · rw [append_full hc]
    refine ⟨Nat.lt_succ_of_lt ht.array, ?_⟩
    simp only [Function.update_of_ne (Nat.ne_of_lt ht.array)]
    exact ht.window

/-- The appended slice reads the old elements and the new one. -/
theorem read_append (hs : h.Holds s) :
    (h.append g s x).1.read (h.append g s x).2 = h.read s ++ [x] := by
  have hlen := hs.length
  by_cases hc : s.len < s.cap
  · have hw := hs.window
    rw [append_spare hc]
    apply List.ext_getElem?
    intro i
    rw [Heap.read_getElem?, List.getElem?_append, hlen]
    simp only [Function.update_self]
    by_cases hi : i < s.len
    · rw [if_pos (by omega), if_pos hi, List.getElem?_set_ne (by omega), Heap.read_getElem?,
        if_pos hi]
    · by_cases he : i = s.len
      · subst he
        rw [if_pos (by omega), if_neg hi, List.getElem?_set_self (by omega), Nat.sub_self]
        rfl
      · rw [if_neg (by omega), if_neg hi, List.getElem?_eq_none (by simp; omega)]
  · rw [append_full hc, Heap.read]
    simp only [Function.update_self, List.drop_zero]
    rw [List.take_append, hlen, Nat.add_sub_cancel_left, List.take_of_length_le (by omega)]
    rfl

theorem read_append_other (ht : h.Holds t) (hit : ¬Hits s t) :
    (h.append g s x).1.read t = h.read t := by
  by_cases hc : s.len < s.cap
  · rw [append_spare hc]
    apply List.ext_getElem?
    intro i
    rw [Heap.read_getElem?, Heap.read_getElem?]
    split
    · rename_i hi
      simp only [Function.update_apply]
      split
      · rename_i he
        have hne : s.offset + s.len ≠ t.offset + i := by
          intro heq
          exact hit ⟨hc, he, by omega, by omega⟩
        rw [List.getElem?_set_ne hne, he]
      · rfl
    · rfl
  · rw [append_full hc, Heap.read]
    simp only [Function.update_of_ne (Nat.ne_of_lt ht.array)]
    rfl

/-- A slice that is hit reads the element of the other one. -/
theorem read_append_hit (ht : h.Holds t) (hit : Hits s t) :
    ((h.append g s x).1.read t)[s.offset + s.len - t.offset]? = some x := by
  obtain ⟨hc, he, hlo, hhi⟩ := hit
  have hw := ht.window
  have hl := t.len_le
  rw [append_spare hc, Heap.read_getElem?, if_pos (by omega), he]
  simp only [Function.update_self]
  rw [Nat.add_sub_cancel' hlo]
  apply List.getElem?_set_self
  rw [← he]
  omega

end Append

section Filter

variable {α : Type} [Inhabited α] {g : Growth} {p : α → Bool} {s : Slice}

/-- Two windows that share no element. -/
def Disjoint (s t : Slice) : Prop :=
  t.array ≠ s.array ∨ s.offset + s.len ≤ t.offset ∨ t.offset + t.len ≤ s.offset

/-- The loop writes at most as far as it has read, so it reads the elements that
stood there at its start and writes nothing outside the window of `s`. -/
theorem filterFrom_spec (n i : ℕ) (h : Heap α) (t : Slice) (hs : h.Holds s) (hn : i + n = s.len)
    (harray : t.array = s.array) (hoffset : t.offset = s.offset) (hcap : t.cap = s.cap)
    (hlen : t.len ≤ i) :
    (Heap.filterFrom g p s n i h t).1.read (Heap.filterFrom g p s n i h t).2 =
        h.read t ++ ((h.read s).drop i).filter p ∧
      ∀ u, h.Holds u → (Heap.filterFrom g p s n i h t).1.Holds u ∧
        (Disjoint s u → (Heap.filterFrom g p s n i h t).1.read u = h.read u) := by
  induction n generalizing i h t with
  | zero =>
    have hdrop : (h.read s).drop i = [] := List.drop_eq_nil_of_le (by rw [hs.length]; omega)
    rw [Heap.filterFrom, hdrop, List.filter_nil, List.append_nil]
    exact ⟨rfl, fun u hu => ⟨hu, fun _ => rfl⟩⟩
  | succ n ih =>
    have hi : i < (h.read s).length := by
      rw [hs.length]
      omega
    have hdrop : (h.read s).drop i = (h.read s)[i] :: (h.read s).drop (i + 1) :=
      List.drop_eq_getElem_cons hi
    rw [Heap.filterFrom, List.getElem?_eq_getElem hi, hdrop, List.filter_cons]
    dsimp only
    split
    · have ht : h.Holds t := ⟨harray ▸ hs.array, by rw [harray, hoffset, hcap]; exact hs.window⟩
      have hspare : t.len < t.cap := by
        have hl := s.len_le
        omega
      have hshape : (h.append g t (h.read s)[i]).2 =
          { t with len := t.len + 1, len_le := hspare } := by
        rw [append_spare hspare]
      have hrest : ((h.append g t (h.read s)[i]).1.read s).drop (i + 1) =
          (h.read s).drop (i + 1) := by
        apply List.ext_getElem?
        intro j
        rw [List.getElem?_drop, List.getElem?_drop, Heap.read_getElem?, Heap.read_getElem?,
          append_spare hspare]
        simp only [harray, Function.update_self]
        rw [List.getElem?_set_ne (by omega)]
      obtain ⟨hread, hframe⟩ := ih (i + 1) (h.append g t (h.read s)[i]).1
        (h.append g t (h.read s)[i]).2 (append_holds_other hs) (by omega)
        (by rw [hshape]; exact harray) (by rw [hshape]; exact hoffset)
        (by rw [hshape]; exact hcap) (by rw [append_len]; omega)
      refine ⟨?_, fun u hu => ⟨(hframe u (append_holds_other hu)).1, fun hd => ?_⟩⟩
      · rw [hread, read_append ht, hrest, List.append_assoc]
        rfl
      · rw [(hframe u (append_holds_other hu)).2 hd]
        apply read_append_other hu
        intro hit
        obtain ⟨-, he, hlo, hhi⟩ := hit
        rcases hd with hd | hd | hd
        · exact hd (he.trans harray)
        · omega
        · omega
    · exact ih (i + 1) h t hs (by omega) harray hoffset hcap (by omega)

theorem filterInPlace_read {h : Heap α} (hs : h.Holds s) :
    (h.filterInPlace g p s).1.read (h.filterInPlace g p s).2 = (h.read s).filter p := by
  have hspec := (filterFrom_spec (g := g) (p := p) s.len 0 h
    { s with len := 0, len_le := Nat.zero_le _ } hs (Nat.zero_add _) rfl rfl rfl le_rfl).1
  rw [List.drop_zero] at hspec
  rw [Heap.filterInPlace, hspec]
  exact congrArg (· ++ _) List.take_zero

/-- Filtering in place leaves every other window as it was. -/
theorem filterInPlace_frame {h : Heap α} (hs : h.Holds s) {u : Slice} (hu : h.Holds u) :
    (h.filterInPlace g p s).1.Holds u ∧
      (Disjoint s u → (h.filterInPlace g p s).1.read u = h.read u) :=
  (filterFrom_spec s.len 0 h { s with len := 0, len_le := Nat.zero_le _ } hs (Nat.zero_add _)
    rfl rfl rfl le_rfl).2 u hu

end Filter

end SshTunnel.Lib.Slices
