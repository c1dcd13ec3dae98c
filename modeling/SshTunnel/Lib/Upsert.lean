import Mathlib.Data.List.Basic
import Mathlib.Data.List.Induction
import Mathlib.Data.List.Nodup

/-!
# Keyed lists with replacement in place

`upsert key x l` puts `x` where `l` has an element with the same key, and at the
end where it has none. A list built that way has one element per key, in the
order in which the keys first came, each the latest with its key.
-/

namespace SshTunnel.Lib.Upsert

variable {α κ μ : Type} [DecidableEq κ] [DecidableEq μ] {key : α → κ} {x : α} {l xs : List α}

def upsert (key : α → κ) (x : α) : List α → List α
  | [] => [x]
  | r :: l => if key r = key x then x :: l else r :: upsert key x l

def build (key : α → κ) (xs : List α) : List α := xs.foldl (fun l x => upsert key x l) []

/-- The last element with key `k`. -/
def latest (key : α → κ) (k : κ) (xs : List α) : Option α := xs.reverse.find? fun x => key x = k

/-- The distinct keys in the order of their first use. -/
def firstUses (ks : List κ) : List κ := ks.eraseDups

theorem build_concat (xs : List α) (x : α) :
    build key (xs ++ [x]) = upsert key x (build key xs) := by
  simp [build]

theorem upsert_keys (x : α) (l : List α) :
    (upsert key x l).map key =
      if key x ∈ l.map key then l.map key else l.map key ++ [key x] := by
  induction l with
  | nil => simp [upsert]
  | cons r l ih =>
    by_cases hr : key r = key x
    · simp [upsert, hr]
    · have hr' : ¬key x = key r := fun h => hr h.symm
      simp only [upsert, if_neg hr, List.map_cons, ih, List.mem_cons, hr', false_or]
      split_ifs <;> simp

theorem key_mem_upsert {k : κ} (x : α) (h : k ∈ l.map key) : k ∈ (upsert key x l).map key := by
  rw [upsert_keys]
  split
  · exact h
  · exact List.mem_append_left _ h

theorem firstUses_concat (ks : List κ) (k : κ) :
    firstUses (ks ++ [k]) = if k ∈ ks then firstUses ks else firstUses ks ++ [k] := by
  unfold firstUses
  rw [List.eraseDups_append]
  split_ifs with h <;> simp [List.removeAll, h, List.eraseDups_cons]

theorem mem_firstUses {k : κ} {ks : List κ} : k ∈ firstUses ks ↔ k ∈ ks := List.mem_eraseDups

/-- One element per key, in the order in which the keys first came. -/
theorem build_keys (xs : List α) : (build key xs).map key = firstUses (xs.map key) := by
  induction xs using List.reverseRecOn with
  | nil => rfl
  | append_singleton xs x ih =>
    rw [build_concat, upsert_keys, ih, List.map_append, List.map_singleton, firstUses_concat]
    simp only [mem_firstUses]

theorem nodup_firstUses (ks : List κ) : (firstUses ks).Nodup := by
  induction ks using List.reverseRecOn with
  | nil => exact List.nodup_nil
  | append_singleton ks k ih =>
    rw [firstUses_concat]
    split_ifs with h
    · exact ih
    · refine List.Nodup.append ih (List.nodup_singleton k) ?_
      simpa [mem_firstUses] using h

theorem mem_upsert_imp {r : α} (hn : (l.map key).Nodup) (h : r ∈ upsert key x l) :
    r = x ∨ r ∈ l ∧ key r ≠ key x := by
  induction l with
  | nil => exact Or.inl (List.mem_singleton.mp h)
  | cons s l ih =>
    obtain ⟨hs, hl⟩ := List.nodup_cons.mp hn
    by_cases hk : key s = key x
    · simp only [upsert, if_pos hk, List.mem_cons] at h
      rcases h with h | h
      · exact Or.inl h
      · refine Or.inr ⟨List.mem_cons_of_mem _ h, ?_⟩
        intro he
        exact hs (List.mem_map.mpr ⟨r, h, he.trans hk.symm⟩)
    · simp only [upsert, if_neg hk, List.mem_cons] at h
      rcases h with h | h
      · exact Or.inr ⟨h ▸ List.mem_cons_self .., h ▸ hk⟩
      · rcases ih hl h with h | ⟨h, hne⟩
        · exact Or.inl h
        · exact Or.inr ⟨List.mem_cons_of_mem _ h, hne⟩

theorem latest_concat (k : κ) (xs : List α) (x : α) :
    latest key k (xs ++ [x]) = if key x = k then some x else latest key k xs := by
  simp only [latest, List.reverse_append, List.reverse_singleton, List.singleton_append,
    List.find?_cons]
  split_ifs with h <;> simp [h]

/-- Every element is the latest one with its key. -/
theorem latest_of_mem_build {r : α} (h : r ∈ build key xs) : latest key (key r) xs = some r := by
  induction xs using List.reverseRecOn with
  | nil => simp [build] at h
  | append_singleton xs x ih =>
    have hn : ((build key xs).map key).Nodup := by
      rw [build_keys]
      exact nodup_firstUses _
    rw [build_concat] at h
    rw [latest_concat]
    rcases mem_upsert_imp hn h with rfl | ⟨hm, hne⟩
    · exact if_pos rfl
    · rw [if_neg fun he => hne he.symm]
      exact ih hm

/-- The list as a function of the history alone. -/
theorem build_eq (xs : List α) :
    build key xs = (firstUses (xs.map key)).filterMap fun k => latest key k xs := by
  rw [← build_keys, List.filterMap_map]
  have hall : (build key xs).filterMap ((fun k => latest key k xs) ∘ key) =
      (build key xs).filterMap some :=
    List.filterMap_congr fun r hr => latest_of_mem_build hr
  rw [hall, List.filterMap_some]

theorem mem_of_mem_build {r : α} (h : r ∈ build key xs) : r ∈ xs := by
  have hl := latest_of_mem_build h
  exact List.mem_reverse.mp (List.mem_of_find?_eq_some hl)

theorem upsert_congr {key' : α → μ} (hk : ∀ r ∈ l, key r = key x ↔ key' r = key' x) :
    upsert key x l = upsert key' x l := by
  induction l with
  | nil => rfl
  | cons r l ih =>
    have hr := hk r (List.mem_cons_self ..)
    have hl := ih fun s hs => hk s (List.mem_cons_of_mem _ hs)
    simp only [upsert, hr, hl]

/-- Two keys that identify the same elements build the same list. -/
theorem build_congr {key' : α → μ} (hk : ∀ r ∈ xs, ∀ s ∈ xs, key r = key s ↔ key' r = key' s) :
    build key xs = build key' xs := by
  induction xs using List.reverseRecOn with
  | nil => rfl
  | append_singleton xs x ih =>
    have hx : x ∈ xs ++ [x] := by simp
    have hsub : ∀ r ∈ xs, r ∈ xs ++ [x] := fun r hr => List.mem_append_left _ hr
    rw [build_concat, build_concat, ih fun r hr s hs => hk r (hsub r hr) s (hsub s hs)]
    exact upsert_congr fun r hr => hk r (hsub r (mem_of_mem_build hr)) x hx

theorem upsert_of_notMem (h : key x ∉ l.map key) : upsert key x l = l ++ [x] := by
  induction l with
  | nil => rfl
  | cons r l ih =>
    simp only [List.map_cons, List.mem_cons, not_or] at h
    have hr : ¬key r = key x := fun he => h.1 he.symm
    simp only [upsert, if_neg hr, ih h.2, List.cons_append]

/-- Without a repeated key the list is the history. -/
theorem build_of_nodup (h : (xs.map key).Nodup) : build key xs = xs := by
  induction xs using List.reverseRecOn with
  | nil => rfl
  | append_singleton xs x ih =>
    rw [List.map_append, List.nodup_append] at h
    obtain ⟨hn, _, hd⟩ := h
    have hx : key x ∉ xs.map key := by
      intro hm
      exact hd (key x) hm (key x) (by simp) rfl
    rw [build_concat, ih hn, upsert_of_notMem hx]

end SshTunnel.Lib.Upsert
