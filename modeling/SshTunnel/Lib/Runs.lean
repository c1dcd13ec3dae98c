import Mathlib.Logic.Function.Basic

/-!
# Runs of a partial step function

A system is a step function `σ → α → Option σ`: `none` says that the action is
not enabled. `Run step G s t` is a finite run from `s` to `t` whose steps all
meet the side condition `G`, a condition on the state before the step and the
action taken; `Reach` is the run without a side condition. Every order of the
actions is a run, so a statement about all runs is one about all interleavings.
-/

namespace SshTunnel.Lib.Runs

variable {σ α : Type} {step : σ → α → Option σ} {G H : σ → α → Prop} {s t u : σ}

inductive Run (step : σ → α → Option σ) (G : σ → α → Prop) (s : σ) : σ → Prop
  | refl : Run step G s s
  | tail {t u : σ} {a : α} : Run step G s t → G t a → step t a = some u → Run step G s u

def Always : σ → α → Prop := fun _ _ => True

abbrev Reach (step : σ → α → Option σ) : σ → σ → Prop := Run step Always

theorem Run.mono (h : Run step G s t) (hGH : ∀ s a, G s a → H s a) : Run step H s t := by
  induction h with
  | refl => exact .refl
  | tail _ hg hs ih => exact .tail ih (hGH _ _ hg) hs

theorem Run.trans (h : Run step G s t) (h' : Run step G t u) : Run step G s u := by
  induction h' with
  | refl => exact h
  | tail _ hg hs ih => exact .tail ih hg hs

/-- The invariant rule: what holds at the start and is kept by every step that
meets the side condition holds at the end of every such run. -/
theorem Run.invariant {P : σ → Prop} (h : Run step G s t) (h0 : P s)
    (hs : ∀ t a u, P t → G t a → step t a = some u → P u) : P t := by
  induction h with
  | refl => exact h0
  | tail _ hg he ih => exact hs _ _ _ ih hg he

/-- The invariant rule relative to a fact `Q` already known of every state reached. -/
theorem Run.invariant_under {P Q : σ → Prop} (hQ : ∀ t, Run step G s t → Q t)
    (h : Run step G s t) (h0 : P s)
    (hs : ∀ t a u, Q t → P t → G t a → step t a = some u → P u) : P t := by
  induction h with
  | refl => exact h0
  | tail hp hg he ih => exact hs _ _ _ (hQ _ hp) ih hg he

def exec (step : σ → α → Option σ) : σ → List α → Option σ
  | s, [] => some s
  | s, a :: as => (step s a).bind fun t => exec step t as

theorem run_of_exec_all {p : α → Prop} {as : List α} (hp : ∀ a ∈ as, p a)
    (h : exec step s as = some t) : Run step (fun _ a => p a) s t := by
  induction as generalizing s with
  | nil =>
    cases h
    exact .refl
  | cons a as ih =>
    obtain ⟨m, hm, hr⟩ := Option.bind_eq_some_iff.mp h
    have htail := ih (fun b hb => hp b (.tail _ hb)) hr
    exact Run.trans (.tail .refl (hp a (.head _)) hm) htail

theorem reach_of_exec {as : List α} (h : exec step s as = some t) : Reach step s t :=
  run_of_exec_all (fun _ _ => trivial) h

/-- A state found by executing a list of actions is reached. -/
theorem reach_of_check (step : σ → α → Option σ) (s : σ) (as : List α) (p : σ → Bool)
    (h : (exec step s as).any p = true) : ∃ t, Reach step s t ∧ p t = true := by
  obtain ⟨t, ht, hp⟩ := (Option.any_eq_true ..).mp h
  exact ⟨t, reach_of_exec ht, hp⟩

def guarded (g : σ → α → Bool) (step : σ → α → Option σ) (s : σ) (a : α) : Option σ :=
  if g s a then step s a else none

/-- Executed steps that pass a test form a run with side condition `G`, when the
test implies `G` in the states that have `I`. -/
theorem run_of_exec {g : σ → α → Bool} {I : σ → Prop} {as : List α}
    (hI : ∀ s a u, I s → g s a = true → step s a = some u → I u)
    (hg : ∀ s a, I s → g s a = true → G s a) (h0 : I s)
    (h : exec (guarded g step) s as = some t) : Run step G s t := by
  induction as generalizing s with
  | nil =>
    cases h
    exact .refl
  | cons a as ih =>
    obtain ⟨m, hm, hr⟩ := Option.bind_eq_some_iff.mp h
    simp only [guarded, Option.ite_none_right_eq_some] at hm
    exact Run.trans (.tail .refl (hg _ _ h0 hm.1) hm.2) (ih (hI _ _ _ h0 hm.1 hm.2) hr)

section Recorded

variable {ε : Type} {note : σ → α → List ε}

/-- The system together with a record: `note s a` is what the step `a` from `s`
adds to it. -/
def recorded (step : σ → α → Option σ) (note : σ → α → List ε) (x : σ × List ε) (a : α) :
    Option (σ × List ε) :=
  (step x.1 a).map fun t => (t, x.2 ++ note x.1 a)

theorem recorded_step {x y : σ × List ε} {a : α} (h : recorded step note x a = some y) :
    step x.1 a = some y.1 ∧ y.2 = x.2 ++ note x.1 a := by
  obtain ⟨t, ht, rfl⟩ := Option.map_eq_some_iff.mp h
  exact ⟨ht, rfl⟩

/-- The record does not restrict the runs. -/
theorem Run.forget {x y : σ × List ε} (h : Run (recorded step note) (fun x => G x.1) x y) :
    Run step G x.1 y.1 := by
  induction h with
  | refl => exact .refl
  | tail _ hg hs ih => exact .tail ih hg (recorded_step hs).1

/-- Steps that add nothing leave the record as it is. -/
theorem Run.silent (hn : ∀ s a, G s a → note s a = []) (h : Run step G s t) (r : List ε) :
    Run (recorded step note) (fun x => G x.1) (s, r) (t, r) := by
  induction h with
  | refl => exact .refl
  | @tail t u a _ hg hs ih =>
    refine .tail ih hg ?_
    simp only [recorded, hs, Option.map_some, hn t a hg, List.append_nil]

end Recorded

end SshTunnel.Lib.Runs
