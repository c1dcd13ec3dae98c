import SshTunnel.Lib.FirstMatch
import SshTunnel.Lib.NetHost
import SshTunnel.Rules

/-!
# The order of the rules (`rules/rules.go:56-106`)

`RuleSet.Dial` takes the first rule that contains the address, in the order in which
the networks were first added. Routers take the one with the longest prefix.
-/

namespace SshTunnel.Rules

open Lib.Net Lib.Upsert Lib.FirstMatch

/-- The length of the prefix that `IPNet.String` writes. -/
def prefixLength (n : IPNet) : ℕ :=
  match networkNumberAndMask n with
  | some (_, m) => (simpleMaskLength m).getD 0
  | none => 0

def covers (r : Rule) (ip : IP) : Bool := contains r.ipNet ip

def rank (r : Rule) : ℕ := prefixLength r.ipNet

section Networks

variable {n n' : IPNet} {nn nn' : IP} {l l' : ℕ} {ip ip' : IP}

end Networks

section History

variable {reqs reqs' : List Control.Rule}

end History

section Covered

variable {reqs : List Control.Rule} {q : Control.Rule} {r r' : Rule}

theorem accepted_append (reqs reqs' : List Control.Rule) :
    accepted (reqs ++ reqs') = accepted reqs ++ accepted reqs' := List.filterMap_append

end Covered

end SshTunnel.Rules
