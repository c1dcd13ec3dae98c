import SshTunnel.Rules

/-!
# The iptables script (`commands/iptables.go`)

`execute` gives the commands of the emitted script; the `sshtunnel` chain they
build is read top to bottom by `traverse`, where the first rule that matches the
packet decides and a packet that no rule matches leaves the chain. A `--dest`
argument has the meaning `net.ParseCIDR` gives the text.
-/

namespace SshTunnel.IptablesScript

open Lib.Net Rules

inductive Protocol where
  | tcp
  | udp
  deriving Repr, DecidableEq

inductive Target where
  | accept
  | redirect (toPorts : ℕ)
  deriving Repr, DecidableEq

/-- One `iptables -t nat -A` command. -/
structure Append where
  chain : Text
  iface : Option Text
  protocol : Protocol
  dest : Option Text
  dport : Option ℕ
  target : Target
  deriving Repr, DecidableEq

inductive Command where
  | newChain (chain : Text)
  | flush (chain : Text)
  | insertJump (chain : Text) (position : ℕ) (target : Text)
  | append (rule : Append)
  deriving Repr, DecidableEq

def sshtunnel : Text := "sshtunnel".toList
def prerouting : Text := "PREROUTING".toList
def eth0 : Text := "eth0".toList
def direct : Text := "direct".toList

def proxyPort (proxyType : Text) (proxies : List Control.Proxy) : ℕ :=
  proxies.foldl (fun port p => if p.proxyType = proxyType then p.proxyPort else port) 0

def transparentPort (proxies : List Control.Proxy) : ℕ := proxyPort "transparent".toList proxies
def dnsPort (proxies : List Control.Proxy) : ℕ := proxyPort "dns".toList proxies

def prologue : List Command :=
  [.newChain sshtunnel, .flush sshtunnel, .insertJump "OUTPUT".toList 1 sshtunnel,
    .insertJump prerouting 1 sshtunnel]

def forNetwork (cidr : Text) (target : Target) : List Command :=
  [.append ⟨sshtunnel, none, .tcp, some cidr, none, target⟩,
    .append ⟨prerouting, some eth0, .tcp, some cidr, none, target⟩]

def forDNS (port : ℕ) : List Command :=
  [.append ⟨sshtunnel, none, .udp, none, some 53, .redirect port⟩,
    .append ⟨prerouting, some eth0, .udp, none, some 53, .redirect port⟩]

/-- `cmdIptablesScript.Execute` on the replies of `ListProxies` and `ListRules`:
the networks of the dialer `direct` come before all others. -/
def execute (proxies : List Control.Proxy) (rules : List Control.Rule) : List Command :=
  prologue ++
  (rules.filter fun r => r.dialer = direct).flatMap (fun r => forNetwork r.cidr .accept) ++
  (rules.filter fun r => r.dialer ≠ direct).flatMap
    (fun r => forNetwork r.cidr (.redirect (transparentPort proxies))) ++
  if 0 < dnsPort proxies then forDNS (dnsPort proxies) else []

/-- The rules appended to a chain, top to bottom. -/
def chainOf (chain : Text) (script : List Command) : List Append :=
  script.filterMap fun c =>
    match c with
    | .append a => if a.chain = chain then some a else none
    | _ => none

structure Packet where
  protocol : Protocol
  dest : IP
  dport : ℕ
  deriving Repr, DecidableEq

def destMatches (cidr : Text) (ip : IP) : Bool :=
  match parseCIDR cidr with
  | some (_, ipNet) => contains ipNet ip
  | none => false

/-- The match of a rule that names no input interface. -/
def Append.matches (a : Append) (p : Packet) : Bool :=
  decide (a.protocol = p.protocol) &&
  (match a.dest with | some cidr => destMatches cidr p.dest | none => true) &&
  (match a.dport with | some port => decide (port = p.dport) | none => true)

def traverse (chain : List Append) (p : Packet) : Option Target :=
  (chain.find? fun a => a.matches p).map Append.target

/-! ### The chain of a rule set -/

theorem chainOf_append (chain : Text) (xs ys : List Command) :
    chainOf chain (xs ++ ys) = chainOf chain xs ++ chainOf chain ys := List.filterMap_append

theorem chainOf_forNetworks (rules : List Control.Rule) (target : Target) :
    chainOf sshtunnel (rules.flatMap fun r => forNetwork r.cidr target) =
      rules.map fun r => ⟨sshtunnel, none, .tcp, some r.cidr, none, target⟩ := by
  induction rules with
  | nil => rfl
  | cons r rules ih =>
    rw [List.flatMap_cons, chainOf_append, ih]
    rfl

theorem find_network_rule (rules : List Control.Rule) (target : Target) (d : IP) (port : ℕ) :
    ((rules.map fun r => (⟨sshtunnel, none, .tcp, some r.cidr, none, target⟩ : Append)).find?
      fun a => a.matches ⟨.tcp, d, port⟩).map Append.target =
      if rules.any fun r => destMatches r.cidr d then some target else none := by
  induction rules with
  | nil => rfl
  | cons r rules ih =>
    cases hm : destMatches r.cidr d with
    | true => simp [Append.matches, hm]
    | false => simpa [Append.matches, hm] using ih

theorem find_dns_tcp (proxies : List Control.Proxy) (d : IP) (port : ℕ) :
    (chainOf sshtunnel (if 0 < dnsPort proxies then forDNS (dnsPort proxies) else [])).find?
      (fun a => a.matches ⟨.tcp, d, port⟩) = none := by
  split_ifs
  · have hc : chainOf sshtunnel (forDNS (dnsPort proxies)) =
        [⟨sshtunnel, none, .udp, none, some 53, .redirect (dnsPort proxies)⟩] := rfl
    rw [hc]
    simp [Append.matches]
  · rfl

/-- A TCP packet is accepted if a `direct` network has its destination, else
redirected if any other network has it, and leaves the chain otherwise. -/
theorem traverse_execute (proxies : List Control.Proxy) (rules : List Control.Rule) (d : IP)
    (port : ℕ) :
    traverse (chainOf sshtunnel (execute proxies rules)) ⟨.tcp, d, port⟩ =
      if (rules.filter fun r => r.dialer = direct).any fun r => destMatches r.cidr d then
        some .accept
      else if (rules.filter fun r => r.dialer ≠ direct).any fun r => destMatches r.cidr d then
        some (.redirect (transparentPort proxies))
      else none := by
  have hp : chainOf sshtunnel prologue = [] := rfl
  unfold traverse execute
  rw [chainOf_append, chainOf_append, chainOf_append, hp, List.nil_append, chainOf_forNetworks,
    chainOf_forNetworks, List.find?_append, List.find?_append, Option.map_or, Option.map_or,
    find_network_rule, find_network_rule, find_dns_tcp]
  split_ifs <;> rfl

/-- A rule for an IPv4 network; IPv4-mapped networks are IPv4 networks. -/
def IsIPv4 (r : Rule) : Prop := r.network.map (fun n => n.1.length) = some 4

instance (r : Rule) : Decidable (IsIPv4 r) := inferInstanceAs (Decidable (_ = _))

/-- The text of a rule of the set matches what the rule contains. -/
theorem destMatches_marshall {reqs : List Control.Rule} {r : Rule} (d : IP)
    (hr : r ∈ (addRules reqs).rules) (h4 : IsIPv4 r) :
    destMatches (marshall r).cidr d = contains r.ipNet d := by
  obtain ⟨nn, l, hc⟩ := addRules_canonical hr
  have hl : nn.length = 4 := by
    rw [IsIPv4, Rule.network, hc.form] at h4
    exact Option.some.inj h4
  obtain ⟨a, n', hp, he⟩ := parseCIDR_netText hc hl
  simp only [destMatches, marshall, hp]
  exact contains_congr he d

/-- The script sends a TCP packet for `d` to the transparent proxy. -/
def Redirected (proxies : List Control.Proxy) (rs : RuleSet) (d : IP) (port : ℕ) : Prop :=
  traverse (chainOf sshtunnel (execute proxies (serverListRules rs))) ⟨.tcp, d, port⟩ =
    some (.redirect (transparentPort proxies))

/-- `RuleSet.Dial` takes a rule for `d` whose dialer is not `direct`. -/
def Tunnelled (rs : RuleSet) (d : IP) : Prop :=
  ∃ r, rs.firstRule d = some r ∧ r.dialer ≠ direct

theorem any_marshall {reqs : List Control.Rule} (h4 : ∀ r ∈ (addRules reqs).rules, IsIPv4 r)
    (d : IP) (p : Text → Bool) :
    ((serverListRules (addRules reqs)).filter fun q => p q.dialer).any
        (fun q => destMatches q.cidr d) = true ↔
      ∃ r ∈ (addRules reqs).rules, p r.dialer = true ∧ contains r.ipNet d = true := by
  simp only [List.any_eq_true, List.mem_filter, serverListRules, RuleSet.listRules, List.mem_map]
  constructor
  · rintro ⟨q, ⟨⟨r, hr, rfl⟩, hp⟩, hd⟩
    rw [destMatches_marshall d hr (h4 r hr)] at hd
    exact ⟨r, hr, hp, hd⟩
  · rintro ⟨r, hr, hp, hc⟩
    refine ⟨marshall r, ⟨⟨r, hr, rfl⟩, hp⟩, ?_⟩
    rw [destMatches_marshall d hr (h4 r hr)]
    exact hc

theorem redirected_iff {reqs : List Control.Rule} (h4 : ∀ r ∈ (addRules reqs).rules, IsIPv4 r)
    (proxies : List Control.Proxy) (d : IP) (port : ℕ) :
    Redirected proxies (addRules reqs) d port ↔
      (∃ r ∈ (addRules reqs).rules, r.dialer ≠ direct ∧ contains r.ipNet d = true) ∧
        ∀ r ∈ (addRules reqs).rules, r.dialer = direct → contains r.ipNet d = false := by
  have hdirect := any_marshall h4 d fun t => decide (t = direct)
  have hother := any_marshall h4 d fun t => decide (t ≠ direct)
  simp only [decide_eq_true_eq] at hdirect hother
  rw [Redirected, traverse_execute]
  split_ifs with h1 h2
  · obtain ⟨r, hr, hd, hc⟩ := hdirect.mp h1
    simp only [Option.some.injEq, reduceCtorEq, false_iff, not_and]
    intro _ hall
    rw [hall r hr hd] at hc
    cases hc
  · simp only [true_iff]
    refine ⟨hother.mp h2, ?_⟩
    intro r hr hd
    by_contra hc
    exact h1 (hdirect.mpr ⟨r, hr, hd, by simpa using hc⟩)
  · simp only [false_iff, not_and]
    intro he
    exact absurd (hother.mpr he) h2

/-- The chain redirects a destination exactly when `RuleSet.Dial` tunnels it and
no `direct` network, wherever it stands in the list, contains it. -/
theorem redirected_iff_tunnelled (proxies : List Control.Proxy) (reqs : List Control.Rule)
    (d : IP) (port : ℕ) (h4 : ∀ r ∈ (addRules reqs).rules, IsIPv4 r) :
    Redirected proxies (addRules reqs) d port ↔
      Tunnelled (addRules reqs) d ∧
        ∀ r ∈ (addRules reqs).rules, r.dialer = direct → contains r.ipNet d = false := by
  rw [redirected_iff h4]
  refine and_congr_left fun hdirect => ?_
  constructor
  · rintro ⟨r, hr, -, hc⟩
    cases hf : (addRules reqs).firstRule d with
    | none => exact absurd hc (List.find?_eq_none.mp hf r hr)
    | some s =>
      obtain ⟨hs, hsc⟩ := RuleSet.firstRule_some hf
      refine ⟨s, hf, fun hd => ?_⟩
      rw [hdirect s hs hd] at hsc
      cases hsc
  · rintro ⟨r, hf, hne⟩
    obtain ⟨hr, hc⟩ := RuleSet.firstRule_some hf
    exact ⟨r, hr, hne, hc⟩

/-- A tunnelled network and, added after it, a `direct` one inside it. -/
def exclusionAfter : List Control.Rule :=
  [⟨"10.0.0.0/8".toList, []⟩, ⟨"10.1.0.0/16".toList, direct⟩]

def transparentProxy : List Control.Proxy := [⟨"transparent".toList, 8080, []⟩]

theorem redirected_tunnelled_differ :
    ¬ ∀ (proxies : List Control.Proxy) (reqs : List Control.Rule) (d : IP) (port : ℕ),
      (∀ r ∈ (addRules reqs).rules, IsIPv4 r) → d.length = 4 →
        (Redirected proxies (addRules reqs) d port ↔ Tunnelled (addRules reqs) d) := by
  intro h
  have hd := h transparentProxy exclusionAfter [10, 1, 2, 3] 443 (by decide) rfl
  have ht : Tunnelled (addRules exclusionAfter) [10, 1, 2, 3] :=
    ⟨⟨⟨[10, 0, 0, 0], [255, 0, 0, 0]⟩, "default".toList⟩, by decide, by decide⟩
  exact absurd (hd.mpr ht) (by unfold Redirected; decide)

/-- Outside the excluded network the destination is redirected. -/
theorem redirected_outside_exclusion :
    (∀ r ∈ (addRules exclusionAfter).rules, IsIPv4 r) ∧
      Redirected transparentProxy (addRules exclusionAfter) [10, 2, 3, 4] 443 := by
  refine ⟨by decide, (redirected_iff_tunnelled _ _ _ _ (by decide)).mpr ⟨?_, by decide⟩⟩
  exact ⟨⟨⟨[10, 0, 0, 0], [255, 0, 0, 0]⟩, "default".toList⟩, by decide, by decide⟩

end SshTunnel.IptablesScript
