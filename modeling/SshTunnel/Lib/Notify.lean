import SshTunnel.Lib.Runs
import Mathlib.Data.List.Nodup

/-!
# Waiting with one channel per waiter

A mutex protects a list of unbuffered channels. A waiter appends a channel of
its own under the mutex and then receives from it; a notifier takes the mutex,
sends one token on every channel of the list and empties the list. Channels are
numbered in the order in which they are made, other channels included.
-/

namespace SshTunnel.Lib.Notify

open Runs

variable {ι : Type}

/-- The mutex: while a notifier sends, with the channels it still has to serve. -/
inductive Phase where
  | free
  | held
  | notifying (rest : List ℕ)
  deriving DecidableEq

structure Room (ι : Type) where
  phase : Phase
  waiting : List ℕ
  next : ℕ
  parked : ι → Option ℕ

inductive Act (ι : Type) where
  | acquire
  | release
  /-- Start to serve the list; `made` other channels are made in the same section. -/
  | notify (made : ℕ)
  | register (i : ι)
  | send (i : ι)
  | unlock

section

variable [DecidableEq ι]

def step (r : Room ι) : Act ι → Option (Room ι)
  | .acquire => if r.phase = .free then some { r with phase := .held } else none
  | .release => if r.phase = .held then some { r with phase := .free } else none
  | .notify made =>
    match r.phase with
    | .notifying _ => none
    | _ => some { r with phase := .notifying r.waiting, next := r.next + made }
  | .register i =>
    if r.phase = .free ∧ r.parked i = none then
      some { r with
        waiting := r.waiting ++ [r.next]
        next := r.next + 1
        parked := Function.update r.parked i (some r.next) }
    else none
  | .send i =>
    match r.phase with
    | .notifying (ch :: rest) =>
      if r.parked i = some ch then
        some { r with phase := .notifying rest, parked := Function.update r.parked i none }
      else none
    | _ => none
  | .unlock =>
    match r.phase with
    | .notifying [] => some { r with phase := .free, waiting := [] }
    | _ => none

section Inversion

variable {r r' : Room ι} {i : ι}

theorem acquire_cases (h : step r .acquire = some r') :
    r.phase = .free ∧ r' = { r with phase := .held } := by
  simp only [step, Option.ite_none_right_eq_some, Option.some.injEq] at h
  exact ⟨h.1, h.2.symm⟩

theorem release_cases (h : step r .release = some r') :
    r.phase = .held ∧ r' = { r with phase := .free } := by
  simp only [step, Option.ite_none_right_eq_some, Option.some.injEq] at h
  exact ⟨h.1, h.2.symm⟩

theorem notify_cases {made : ℕ} (h : step r (.notify made) = some r') :
    (∀ rest, r.phase ≠ .notifying rest) ∧
      r' = { r with phase := .notifying r.waiting, next := r.next + made } := by
  simp only [step] at h
  split at h
  · cases h
  · rename_i hne
    exact ⟨hne, (Option.some.inj h).symm⟩

theorem register_cases (h : step r (.register i) = some r') :
    r.phase = .free ∧ r.parked i = none ∧
      r' = { r with
        waiting := r.waiting ++ [r.next]
        next := r.next + 1
        parked := Function.update r.parked i (some r.next) } := by
  simp only [step, Option.ite_none_right_eq_some, Option.some.injEq] at h
  obtain ⟨⟨hf, hi⟩, he⟩ := h
  exact ⟨hf, hi, he.symm⟩

theorem send_cases (h : step r (.send i) = some r') :
    ∃ ch rest, r.phase = .notifying (ch :: rest) ∧ r.parked i = some ch ∧
      r' = { r with phase := .notifying rest, parked := Function.update r.parked i none } := by
  simp only [step] at h
  split at h
  · rename_i ch rest hp
    simp only [Option.ite_none_right_eq_some, Option.some.injEq] at h
    exact ⟨ch, rest, hp, h.1, h.2.symm⟩
  · cases h

theorem unlock_cases (h : step r .unlock = some r') :
    r.phase = .notifying [] ∧ r' = { r with phase := .free, waiting := [] } := by
  simp only [step] at h
  split at h
  · rename_i hp
    exact ⟨hp, (Option.some.inj h).symm⟩
  · cases h

end Inversion

/-- A stuttering step. -/
def Moves (r r' : Room ι) : Prop := r' = r ∨ ∃ b, step r b = some r'

end

/-- What a record of the room keeps. -/
inductive Note (ι : Type) where
  | registered (i : ι) (ch : ℕ)
  | token (i : ι) (ch : ℕ)
  deriving DecidableEq

def note (r : Room ι) : Act ι → List (Note ι)
  | .register i => [.registered i r.next]
  | .send i =>
    match r.phase with
    | .notifying (ch :: _) => [.token i ch]
    | _ => []
  | _ => []

/-- A stuttering step and what it adds to the record. -/
def Tells [DecidableEq ι] (r r' : Room ι) (ns : List (Note ι)) : Prop :=
  (r' = r ∧ ns = []) ∨ ∃ b, step r b = some r' ∧ ns = note r b

theorem Tells.moves [DecidableEq ι] {r r' : Room ι} {ns : List (Note ι)} (h : Tells r r' ns) :
    Moves r r' := by
  rcases h with ⟨rfl, -⟩ | ⟨b, hb, -⟩
  · exact .inl rfl
  · exact .inr ⟨b, hb⟩

/-- The channels on which a token is still to be sent. -/
def Room.unserved (r : Room ι) : List ℕ :=
  match r.phase with
  | .notifying rest => rest
  | _ => r.waiting

structure Room.Valid (r : Room ι) : Prop where
  /-- Channels of the list have been made. -/
  made : ∀ ch ∈ r.unserved, ch < r.next
  /-- A parked waiter gets its token. -/
  listed : ∀ i ch, r.parked i = some ch → ch ∈ r.unserved
  /-- A token has a parked receiver. -/
  owned : ∀ ch ∈ r.unserved, ∃ i, r.parked i = some ch
  /-- A channel has one receiver. -/
  single : ∀ i j ch, r.parked i = some ch → r.parked j = some ch → i = j
  nodup : r.unserved.Nodup

theorem valid_of_eq {r r' : Room ι} (h : r.Valid) (hu : r'.unserved = r.unserved)
    (hp : r'.parked = r.parked) (hn : r.next ≤ r'.next) : r'.Valid where
  made ch hch := Nat.lt_of_lt_of_le (h.made ch (hu ▸ hch)) hn
  listed i ch hi := hu ▸ h.listed i ch (hp ▸ hi)
  owned ch hch := hp ▸ h.owned ch (hu ▸ hch)
  single i j ch hi hj := h.single i j ch (hp ▸ hi) (hp ▸ hj)
  nodup := hu ▸ h.nodup

theorem Room.Valid.parked_of_served {r : Room ι} (h : r.Valid) (hp : r.phase = .notifying [])
    (i : ι) : r.parked i = none := by
  cases hi : r.parked i with
  | none => rfl
  | some ch =>
    have hm := h.listed i ch hi
    simp only [Room.unserved, hp, List.not_mem_nil] at hm

variable [DecidableEq ι]

theorem update_eq_some {p : ι → Option ℕ} {i j : ι} {o : Option ℕ} {ch : ℕ} :
    Function.update p i o j = some ch ↔ (j = i ∧ o = some ch) ∨ (j ≠ i ∧ p j = some ch) := by
  by_cases hji : j = i
  · subst hji
    simp
  · simp [hji]

theorem register_valid {r : Room ι} {i : ι} (h : r.Valid) (hf : r.phase = .free)
    (hi : r.parked i = none) :
    Room.Valid { r with
      waiting := r.waiting ++ [r.next]
      next := r.next + 1
      parked := Function.update r.parked i (some r.next) } := by
  have hu : r.unserved = r.waiting := by simp only [Room.unserved, hf]
  have hu' : ∀ w n p, Room.unserved (ι := ι) ⟨r.phase, w, n, p⟩ = w := by
    intro w n p
    simp only [Room.unserved, hf]
  have hnew : r.next ∉ r.waiting := fun hm => absurd (h.made _ (hu ▸ hm)) (Nat.lt_irrefl _)
  have hold : ∀ j, r.parked j ≠ some r.next := fun j hj => hnew (hu ▸ h.listed j _ hj)
  refine ⟨?_, ?_, ?_, ?_, ?_⟩
  · intro ch hch
    rw [hu', List.mem_append, List.mem_singleton] at hch
    rcases hch with hch | rfl
    · exact Nat.lt_succ_of_lt (h.made ch (hu ▸ hch))
    · exact Nat.lt_succ_self _
  · intro j ch hj
    rw [hu', List.mem_append, List.mem_singleton]
    rcases update_eq_some.mp hj with ⟨-, hch⟩ | ⟨-, hj⟩
    · exact .inr (Option.some.inj hch).symm
    · exact .inl (hu ▸ h.listed j ch hj)
  · intro ch hch
    rw [hu', List.mem_append, List.mem_singleton] at hch
    rcases hch with hch | rfl
    · obtain ⟨j, hj⟩ := h.owned ch (hu ▸ hch)
      have hji : j ≠ i := fun he => by simp [he, hi] at hj
      exact ⟨j, update_eq_some.mpr (.inr ⟨hji, hj⟩)⟩
    · exact ⟨i, update_eq_some.mpr (.inl ⟨rfl, rfl⟩)⟩
  · intro j k ch hj hk
    rcases update_eq_some.mp hj with ⟨hji, hcj⟩ | ⟨-, hj⟩ <;>
      rcases update_eq_some.mp hk with ⟨hki, hck⟩ | ⟨-, hk⟩
    · rw [hji, hki]
    · exact (hold k (hcj ▸ hk)).elim
    · exact (hold j (hck ▸ hj)).elim
    · exact h.single j k ch hj hk
  · rw [hu']
    refine List.nodup_append.mpr ⟨hu ▸ h.nodup, List.nodup_singleton _, ?_⟩
    intro a ha b hb heq
    rw [List.mem_singleton] at hb
    exact hnew (hb ▸ heq ▸ ha)

theorem send_valid {r : Room ι} {i : ι} {ch : ℕ} {rest : List ℕ} (h : r.Valid)
    (hp : r.phase = .notifying (ch :: rest)) (hi : r.parked i = some ch) :
    Room.Valid { r with phase := .notifying rest, parked := Function.update r.parked i none } := by
  have hu : r.unserved = ch :: rest := by simp only [Room.unserved, hp]
  have hnd : ch ∉ rest ∧ rest.Nodup := List.nodup_cons.mp (hu ▸ h.nodup)
  -- a waiter other than the receiver is not parked on the served channel
  have hother : ∀ j c, Function.update r.parked i none j = some c →
      j ≠ i ∧ r.parked j = some c ∧ c ≠ ch := by
    intro j c hj
    rcases update_eq_some.mp hj with ⟨-, hc⟩ | ⟨hji, hj⟩
    · cases hc
    · exact ⟨hji, hj, fun hc => hji (h.single j i ch (hc ▸ hj) hi)⟩
  refine ⟨?_, ?_, ?_, ?_, hnd.2⟩
  · intro c hc
    exact h.made c (hu ▸ List.mem_cons_of_mem _ hc)
  · intro j c hj
    obtain ⟨-, hj, hc⟩ := hother j c hj
    have hm : c ∈ ch :: rest := hu ▸ h.listed j c hj
    exact (List.mem_cons.mp hm).resolve_left hc
  · intro c hc
    obtain ⟨j, hj⟩ := h.owned c (hu ▸ List.mem_cons_of_mem _ hc)
    have hji : j ≠ i := by
      rintro rfl
      rw [hi] at hj
      exact hnd.1 (Option.some.inj hj ▸ hc)
    exact ⟨j, update_eq_some.mpr (.inr ⟨hji, hj⟩)⟩
  · intro j k c hj hk
    exact h.single j k c (hother j c hj).2.1 (hother k c hk).2.1

theorem step_valid {r r' : Room ι} {b : Act ι} (h : r.Valid) (hs : step r b = some r') :
    r'.Valid := by
  cases b with
  | acquire =>
    obtain ⟨hf, rfl⟩ := acquire_cases hs
    exact valid_of_eq h (by simp only [Room.unserved, hf]) rfl (Nat.le_refl _)
  | release =>
    obtain ⟨hf, rfl⟩ := release_cases hs
    exact valid_of_eq h (by simp only [Room.unserved, hf]) rfl (Nat.le_refl _)
  | notify made =>
    obtain ⟨hne, rfl⟩ := notify_cases hs
    refine valid_of_eq h ?_ rfl (Nat.le_add_right ..)
    cases hp : r.phase with
    | notifying rest => exact (hne rest hp).elim
    | free => simp only [Room.unserved, hp]
    | held => simp only [Room.unserved, hp]
  | register i =>
    obtain ⟨hf, hi, rfl⟩ := register_cases hs
    exact register_valid h hf hi
  | send i =>
    obtain ⟨ch, rest, hp, hi, rfl⟩ := send_cases hs
    exact send_valid h hp hi
  | unlock =>
    obtain ⟨hp, rfl⟩ := unlock_cases hs
    exact valid_of_eq h (by simp only [Room.unserved, hp]) rfl (Nat.le_refl _)

theorem moves_valid {r r' : Room ι} (h : r.Valid) (hm : Moves r r') : r'.Valid := by
  rcases hm with rfl | ⟨b, hb⟩
  · exact h
  · exact step_valid h hb

end SshTunnel.Lib.Notify
