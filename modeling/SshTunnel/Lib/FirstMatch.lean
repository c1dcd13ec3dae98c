import Mathlib.Data.List.Nodup
import Mathlib.Data.List.Pairwise

/-!
# First match

A list of rules that each cover a set of keys; a key is served by the first rule of
the list that covers it. The rules have a rank, and of two rules that cover a common
key the one with the higher rank covers less.
-/

namespace SshTunnel.Lib.FirstMatch

variable {α X : Type} (covers : α → X → Bool) (rank : α → ℕ)

variable {covers rank} {l l' : List α} {a b : α} {x : X}

end SshTunnel.Lib.FirstMatch
