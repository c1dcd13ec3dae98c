import SshTunnel.Lib.Notify
import Mathlib.Data.List.Pairwise

/-!
# Registrations and tokens

The record of a waiting room: which waiter registered which channel, and which
tokens have been sent. A channel is registered once and gets one token at most,
and a waiter is parked exactly as long as its registration has got none.
-/

namespace SshTunnel.Lib.Notify

open Runs

variable {ι : Type}

def Note.opened : Note ι → Option ℕ
  | .registered _ ch => some ch
  | .token .. => none

def Note.served : Note ι → Option ℕ
  | .token _ ch => some ch
  | .registered .. => none

structure Room.Told (r : Room ι) (ns : List (Note ι)) : Prop where
  made : ∀ i ch, .registered i ch ∈ ns → ch < r.next
  listed : ∀ ch ∈ r.waiting, ∃ i, .registered i ch ∈ ns
  opened : (ns.filterMap Note.opened).Nodup
  served : (ns.filterMap Note.served).Nodup
  received : ∀ i ch, .token i ch ∈ ns → .registered i ch ∈ ns
  parked : ∀ i ch, r.parked i = some ch ↔ .registered i ch ∈ ns ∧ .token i ch ∉ ns

theorem eq_of_nodup_filterMap {α β : Type} {f : α → Option β} {l : List α} {a a' : α} {b : β}
    (h : (l.filterMap f).Nodup) (ha : a ∈ l) (ha' : a' ∈ l) (hb : f a = some b)
    (hb' : f a' = some b) : a = a' := by
  by_contra hne
  have hsymm : Std.Symm fun x y => ∀ c, f x = some c → ∀ d, f y = some d → c ≠ d :=
    ⟨fun x y hxy c hc d hd => (hxy d hd c hc).symm⟩
  exact (List.pairwise_filterMap.mp h).forall ha ha' hne b hb b hb' rfl

section Told

variable {r r' : Room ι} {ns ms : List (Note ι)}

theorem Room.Told.owner (h : r.Told ns) {i j : ι} {ch : ℕ} (hi : .registered i ch ∈ ns)
    (hj : .registered j ch ∈ ns) : i = j := by
  have he := eq_of_nodup_filterMap h.opened hi hj rfl rfl
  exact (Note.registered.inj he).1

theorem told_of_eq (h : r.Told ns) (hp : r'.parked = r.parked) (hn : r.next ≤ r'.next)
    (hw : ∀ ch ∈ r'.waiting, ch ∈ r.waiting) : r'.Told ns where
  made i ch hi := Nat.lt_of_lt_of_le (h.made i ch hi) hn
  listed ch hch := h.listed ch (hw ch hch)
  opened := h.opened
  served := h.served
  received := h.received
  parked i ch := by
    rw [hp]
    exact h.parked i ch

variable [DecidableEq ι]

theorem register_told {i : ι} (h : r.Told ns) (hi : r.parked i = none) :
    Room.Told { r with
      waiting := r.waiting ++ [r.next]
      next := r.next + 1
      parked := Function.update r.parked i (some r.next) } (ns ++ [.registered i r.next]) := by
  have hnew : ∀ j, .registered j r.next ∉ ns := fun j hj => Nat.lt_irrefl _ (h.made j _ hj)
  refine ⟨?_, ?_, ?_, ?_, ?_, ?_⟩
  · intro j ch hj
    rcases List.mem_append.mp hj with hj | hj
    · exact Nat.lt_succ_of_lt (h.made j ch hj)
    · cases List.mem_singleton.mp hj
      exact Nat.lt_succ_self _
  · intro ch hch
    rcases List.mem_append.mp hch with hch | hch
    · obtain ⟨j, hj⟩ := h.listed ch hch
      exact ⟨j, List.mem_append_left _ hj⟩
    · cases List.mem_singleton.mp hch
      exact ⟨i, by simp⟩
  · simp only [List.filterMap_append]
    refine List.nodup_append.mpr ⟨h.opened, List.nodup_singleton _, ?_⟩
    intro a ha b hb hab
    obtain ⟨e, he, hea⟩ := List.mem_filterMap.mp ha
    cases e with
    | registered j ch =>
      have hch : ch = r.next := by
        rw [Option.some.inj hea, hab]
        exact List.mem_singleton.mp hb
      exact hnew j (hch ▸ he)
    | token => cases hea
  · rw [List.filterMap_append]
    exact (List.append_nil _).symm ▸ h.served
  · intro j ch hj
    have hj : .token j ch ∈ ns := by simpa using hj
    exact List.mem_append_left _ (h.received j ch hj)
  · intro j ch
    have hpark := h.parked j ch
    rw [update_eq_some, hpark]
    constructor
    · intro hj
      rcases hj with ⟨rfl, hch⟩ | ⟨hji, hreg, htok⟩
      · obtain rfl := Option.some.inj hch
        refine ⟨by simp, fun ht => hnew j (h.received j _ (by simpa using ht))⟩
      · exact ⟨List.mem_append_left _ hreg, by simpa using htok⟩
    · intro ⟨hreg, htok⟩
      have htok : .token j ch ∉ ns := fun ht => htok (List.mem_append_left _ ht)
      rcases List.mem_append.mp hreg with hold | hlast
      · have hji : j ≠ i := by
          intro he
          have hp := hpark.mpr ⟨hold, htok⟩
          rw [he, hi] at hp
          cases hp
        exact .inr ⟨hji, hold, htok⟩
      · cases List.mem_singleton.mp hlast
        exact .inl ⟨rfl, rfl⟩

/-- A token makes its receiver the only waiter that is parked no longer. -/
theorem parked_send {p : ι → Option ℕ} {P : ι → ℕ → Prop} {i : ι} {ch : ℕ}
    (h : ∀ j c, p j = some c ↔ P j c ∧ .token j c ∉ ns) (hi : p i = some ch) (j : ι) (c : ℕ) :
    Function.update p i none j = some c ↔ P j c ∧ .token j c ∉ ns ++ [.token i ch] := by
  rw [update_eq_some, h j c]
  constructor
  · intro hj
    rcases hj with ⟨-, hc⟩ | ⟨hji, hp, ht⟩
    · cases hc
    · exact ⟨hp, by simpa [hji] using ht⟩
  · intro ⟨hp, ht⟩
    have ht' : .token j c ∉ ns := fun hm => ht (List.mem_append_left _ hm)
    refine .inr ⟨?_, hp, ht'⟩
    intro he
    have hc := (h j c).mpr ⟨hp, ht'⟩
    rw [he, hi] at hc
    obtain rfl := Option.some.inj hc
    exact ht (by simp [he])

theorem send_told {i : ι} {ch : ℕ} {phase : Phase} (h : r.Told ns) (hi : r.parked i = some ch) :
    Room.Told { r with phase := phase, parked := Function.update r.parked i none }
      (ns ++ [.token i ch]) := by
  obtain ⟨hreg, htok⟩ := (h.parked i ch).mp hi
  refine ⟨?_, ?_, ?_, ?_, ?_, ?_⟩
  · intro j c hj
    exact h.made j c (by simpa using hj)
  · intro c hc
    obtain ⟨j, hj⟩ := h.listed c hc
    exact ⟨j, List.mem_append_left _ hj⟩
  · rw [List.filterMap_append]
    exact (List.append_nil _).symm ▸ h.opened
  · rw [List.filterMap_append]
    refine List.nodup_append.mpr ⟨h.served, List.nodup_singleton _, ?_⟩
    -- a token sent on this channel before was one for this very waiter
    intro a ha b hb hab
    obtain ⟨e, he, hea⟩ := List.mem_filterMap.mp ha
    cases e with
    | registered => cases hea
    | token j c =>
      obtain rfl : c = ch := by
        rw [Option.some.inj hea, hab]
        exact List.mem_singleton.mp hb
      obtain rfl := h.owner hreg (h.received j c he)
      exact htok he
  · intro j c hj
    rcases List.mem_append.mp hj with hj | hj
    · exact List.mem_append_left _ (h.received j c hj)
    · cases List.mem_singleton.mp hj
      exact List.mem_append_left _ hreg
  · intro j c
    have hr : .registered j c ∈ ns ++ [.token i ch] ↔ .registered j c ∈ ns := by simp
    rw [hr]
    exact parked_send h.parked hi j c

theorem tells_told (h : r.Told ns) (ht : Tells r r' ms) : r'.Told (ns ++ ms) := by
  rcases ht with ⟨rfl, rfl⟩ | ⟨b, hb, rfl⟩
  · rw [List.append_nil]
    exact h
  · cases b with
    | acquire =>
      obtain ⟨-, rfl⟩ := acquire_cases hb
      exact (List.append_nil ns).symm ▸ told_of_eq h rfl (Nat.le_refl _) fun _ hch => hch
    | release =>
      obtain ⟨-, rfl⟩ := release_cases hb
      exact (List.append_nil ns).symm ▸ told_of_eq h rfl (Nat.le_refl _) fun _ hch => hch
    | notify made =>
      obtain ⟨-, rfl⟩ := notify_cases hb
      exact (List.append_nil ns).symm ▸ told_of_eq h rfl (Nat.le_add_right ..) fun _ hch => hch
    | register i =>
      obtain ⟨-, hi, rfl⟩ := register_cases hb
      exact register_told h hi
    | send i =>
      obtain ⟨ch, rest, hp, hi, rfl⟩ := send_cases hb
      simp only [note, hp]
      exact send_told h hi
    | unlock =>
      obtain ⟨-, rfl⟩ := unlock_cases hb
      exact (List.append_nil ns).symm ▸ told_of_eq h rfl (Nat.le_refl _) (by simp)

end Told

/-- A notifier took the mutex in `r₀`; `ts` is the record since then. -/
structure Room.Serving (r₀ r : Room ι) (ts : List (Note ι)) : Prop where
  waiting : r.waiting = r₀.waiting
  progress : (r.phase = .held ∧ ts = []) ∨
    ∃ rest, r.phase = .notifying rest ∧ r₀.waiting = ts.filterMap Note.served ++ rest
  receivers : ∀ i ch, .token i ch ∈ ts → r₀.parked i = some ch
  parked : ∀ i ch, r.parked i = some ch ↔ r₀.parked i = some ch ∧ .token i ch ∉ ts

section Serving

variable {r₀ r r' : Room ι} {ts ms : List (Note ι)}

/-- At the end every waiter that was parked at the start has got its token. -/
theorem Room.Serving.complete (h : r₀.Serving r ts) (hv : r₀.Valid)
    (hu : r₀.unserved = r₀.waiting) (hp : r.phase = .notifying []) :
    ts.filterMap Note.served = r₀.waiting ∧
      ∀ i ch, r₀.parked i = some ch → .token i ch ∈ ts := by
  have hall : ts.filterMap Note.served = r₀.waiting := by
    rcases h.progress with ⟨hheld, -⟩ | ⟨rest, hrest, hw⟩
    · cases hheld.symm.trans hp
    · cases hrest.symm.trans hp
      rw [hw, List.append_nil]
  refine ⟨hall, fun i ch hi => ?_⟩
  have hch : ch ∈ ts.filterMap Note.served := by
    rw [hall, ← hu]
    exact hv.listed i ch hi
  obtain ⟨e, he, hs⟩ := List.mem_filterMap.mp hch
  cases e with
  | registered => cases hs
  | token j c =>
    obtain rfl : c = ch := Option.some.inj hs
    obtain rfl := hv.single j i c (h.receivers j c he) hi
    exact he

variable [DecidableEq ι]

/-- The step by which a notifier takes the mutex. -/
theorem serving_start {ns : List (Note ι)} (hf : r.phase = .free) (h : Tells r r₀ ns)
    (hne : r₀.phase ≠ .free) : r₀.Serving r₀ [] ∧ r₀.unserved = r₀.waiting := by
  have hstart : r₀.phase = .held ∨ r₀.phase = .notifying r₀.waiting := by
    rcases h with ⟨rfl, -⟩ | ⟨b, hb, -⟩
    · exact (hne hf).elim
    · cases b with
      | acquire =>
        obtain ⟨-, rfl⟩ := acquire_cases hb
        exact .inl rfl
      | notify made =>
        obtain ⟨-, rfl⟩ := notify_cases hb
        exact .inr rfl
      | register i =>
        obtain ⟨-, -, rfl⟩ := register_cases hb
        exact (hne hf).elim
      | release | send | unlock => simp [step, hf] at hb
  rcases hstart with hheld | hnot
  · exact ⟨⟨rfl, .inl ⟨hheld, rfl⟩, by simp, by simp⟩, by simp only [Room.unserved, hheld]⟩
  · exact ⟨⟨rfl, .inr ⟨_, hnot, rfl⟩, by simp, by simp⟩, by simp only [Room.unserved, hnot]⟩

theorem serving_send {i : ι} {ch : ℕ} {rest : List ℕ} (h : r₀.Serving r ts)
    (hp : r.phase = .notifying (ch :: rest)) (hi : r.parked i = some ch) :
    r₀.Serving { r with phase := .notifying rest, parked := Function.update r.parked i none }
      (ts ++ [.token i ch]) := by
  have hw : r₀.waiting = ts.filterMap Note.served ++ ch :: rest := by
    rcases h.progress with ⟨hheld, -⟩ | ⟨rest', hrest, hw⟩
    · cases hheld.symm.trans hp
    · cases hrest.symm.trans hp
      exact hw
  refine ⟨h.waiting, .inr ⟨rest, rfl, ?_⟩, ?_, parked_send h.parked hi⟩
  · rw [hw, List.filterMap_append]
    simp [Note.served]
  · intro j c hj
    rcases List.mem_append.mp hj with hj | hj
    · exact h.receivers j c hj
    · cases List.mem_singleton.mp hj
      exact ((h.parked i ch).mp hi).1

theorem serving_step (h : r₀.Serving r ts) (ht : Tells r r' ms) (hf : r'.phase ≠ .free) :
    r₀.Serving r' (ts ++ ms) := by
  have hne : r.phase ≠ .free := by
    rcases h.progress with ⟨hp, -⟩ | ⟨_, hp, -⟩ <;> simp [hp]
  rcases ht with ⟨rfl, rfl⟩ | ⟨b, hb, rfl⟩
  · rwa [List.append_nil]
  · cases b with
    | acquire => exact (hne (acquire_cases hb).1).elim
    | release =>
      obtain ⟨-, rfl⟩ := release_cases hb
      exact (hf rfl).elim
    | notify made =>
      obtain ⟨hno, rfl⟩ := notify_cases hb
      rcases h.progress with ⟨-, rfl⟩ | ⟨rest, hp, -⟩
      · exact ⟨h.waiting, .inr ⟨_, rfl, h.waiting.symm⟩, h.receivers, h.parked⟩
      · exact (hno rest hp).elim
    | register i => exact (hne (register_cases hb).1).elim
    | send i =>
      obtain ⟨ch, rest, hp, hi, rfl⟩ := send_cases hb
      simp only [note, hp]
      exact serving_send h hp hi
    | unlock =>
      obtain ⟨-, rfl⟩ := unlock_cases hb
      exact (hf rfl).elim

end Serving

end SshTunnel.Lib.Notify
