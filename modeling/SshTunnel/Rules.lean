import SshTunnel.Control
import SshTunnel.Lib.NetText
import SshTunnel.Lib.Upsert

/-!
# Rules (`rules/rules.go`, `server/server.go:167-189`)

The rule set of the daemon after an arbitrary history of `Server.AddRule`
requests. The abstract side of the development is the history itself: the
networks in the order in which they were first added (`networks`) and the latest
accepted rule of each.
-/

namespace SshTunnel.Rules

open Lib.Net Lib.Upsert

/-- A rule binds a network to a dialer. -/
structure Rule where
  ipNet : IPNet
  dialer : Text
  deriving Repr, DecidableEq

structure RuleSet where
  name : Text
  rules : List Rule
  deriving Repr, DecidableEq

def marshall (rule : Rule) : Control.Rule := ⟨netText rule.ipNet, rule.dialer⟩

/-- The text of the `net.ParseError` of `net.ParseCIDR`. -/
def parseError (cidr : Text) : Text := "invalid CIDR address: ".toList ++ cidr

def unMarshall (rule : Control.Rule) : Except Text Rule :=
  let cidr := if '/' ∈ rule.cidr then rule.cidr else rule.cidr ++ "/32".toList
  match parseCIDR cidr with
  | none => .error (parseError cidr)
  | some (_, ipNet) =>
    .ok ⟨ipNet, if rule.dialer = [] then "default".toList else rule.dialer⟩

/-- `RuleSet.AddRule`: the first rule with the same network text is replaced in
place, otherwise the rule is appended. -/
def RuleSet.addRule (rs : RuleSet) (rule : Rule) : RuleSet :=
  { rs with rules := upsert (fun r => netText r.ipNet) rule rs.rules }

def RuleSet.listRules (rs : RuleSet) : List Rule := rs.rules

def defaultRuleSet : RuleSet := ⟨"default".toList, []⟩

/-- What `RuleSet.Dial` calls: a named dialer or `net.Dial`. -/
inductive Route where
  | dialer (name : Text)
  | netDial
  deriving Repr, DecidableEq

/-- The rule `RuleSet.Dial` uses: the first in list order that contains the address. -/
def RuleSet.firstRule (rs : RuleSet) (ip : IP) : Option Rule :=
  rs.rules.find? fun rule => contains rule.ipNet ip

/-- `RuleSet.Dial`; `resolveTCPAddr` is the name resolution of the host. -/
def RuleSet.dial (resolveTCPAddr : Text → Text → Option IP) (rs : RuleSet)
    (network addr : Text) : Route :=
  match resolveTCPAddr network addr with
  | some ip =>
    match rs.firstRule ip with
    | some rule => .dialer rule.dialer
    | none => .netDial
  | none => .netDial

/-- `Server.AddRule` on the default rule set, with the error it returns. -/
def serverAddRule (rs : RuleSet) (rule : Control.Rule) : RuleSet × Option Text :=
  match unMarshall rule with
  | .error err => (rs, some err)
  | .ok r => (rs.addRule r, none)

def serverListRules (rs : RuleSet) : List Control.Rule := rs.listRules.map marshall

/-- The default rule set after a history of `Server.AddRule` requests. -/
def addRules (reqs : List Control.Rule) : RuleSet :=
  reqs.foldl (fun rs q => (serverAddRule rs q).1) defaultRuleSet

theorem RuleSet.firstRule_some {rs : RuleSet} {ip : IP} {r : Rule} (h : rs.firstRule ip = some r) :
    r ∈ rs.rules ∧ contains r.ipNet ip = true := by
  rw [RuleSet.firstRule] at h
  have hc := List.find?_some h
  exact ⟨List.mem_of_find?_eq_some h, hc⟩

/-! ### The history -/

def Rule.network (r : Rule) : Option (IP × IPMask) := networkNumberAndMask r.ipNet

/-- The rules of the accepted requests, oldest first. -/
def accepted (reqs : List Control.Rule) : List Rule :=
  reqs.filterMap fun q => (unMarshall q).toOption

/-- The distinct networks of the accepted requests in the order of their first use. -/
def networks (reqs : List Control.Rule) : List (Option (IP × IPMask)) :=
  firstUses ((accepted reqs).map Rule.network)

def latestRule (reqs : List Control.Rule) (n : Option (IP × IPMask)) : Option Rule :=
  latest Rule.network n (accepted reqs)

theorem unMarshall_ok {q : Control.Rule} {r : Rule} (h : unMarshall q = .ok r) :
    (∃ nn l, Canonical r.ipNet nn l) ∧
      r.dialer = if q.dialer = [] then "default".toList else q.dialer := by
  unfold unMarshall at h
  dsimp only at h
  split at h
  · cases h
  · rename_i hp
    cases h
    exact ⟨parseCIDR_canonical hp, rfl⟩

theorem accepted_canonical {reqs : List Control.Rule} {r : Rule} (h : r ∈ accepted reqs) :
    ∃ nn l, Canonical r.ipNet nn l := by
  obtain ⟨q, _, hq⟩ := List.mem_filterMap.mp h
  cases hu : unMarshall q with
  | error err => simp [hu, Except.toOption] at hq
  | ok s =>
    simp only [hu, Except.toOption, Option.some.injEq] at hq
    exact (unMarshall_ok (hq ▸ hu)).1

theorem accepted_concat (reqs : List Control.Rule) (q : Control.Rule) :
    accepted (reqs ++ [q]) = accepted reqs ++ (unMarshall q).toOption.toList := by
  simp only [accepted, List.filterMap_append, List.filterMap_cons, List.filterMap_nil]
  cases (unMarshall q).toOption <;> rfl

theorem addRules_concat (reqs : List Control.Rule) (q : Control.Rule) :
    addRules (reqs ++ [q]) = (serverAddRule (addRules reqs) q).1 := by
  simp [addRules]

theorem addRules_build (reqs : List Control.Rule) :
    (addRules reqs).rules = build (fun r => netText r.ipNet) (accepted reqs) := by
  induction reqs using List.reverseRecOn with
  | nil => rfl
  | append_singleton reqs q ih =>
    rw [addRules_concat, accepted_concat, serverAddRule]
    cases unMarshall q with
    | error err => simpa [Except.toOption] using ih
    | ok r =>
      simp only [Except.toOption, Option.toList_some, build_concat, RuleSet.addRule, ih]

/-- Texts and canonical networks identify the same accepted rules. -/
theorem addRules_network (reqs : List Control.Rule) :
    (addRules reqs).rules = build Rule.network (accepted reqs) := by
  rw [addRules_build]
  apply build_congr
  intro r hr s hs
  obtain ⟨nn, l, hc⟩ := accepted_canonical hr
  obtain ⟨nn', l', hc'⟩ := accepted_canonical hs
  exact netText_eq_iff hc hc'

theorem addRules_eq (reqs : List Control.Rule) :
    (addRules reqs).rules = (networks reqs).filterMap (latestRule reqs) := by
  rw [addRules_network, build_eq]
  rfl

theorem addRules_networks (reqs : List Control.Rule) :
    (addRules reqs).rules.map Rule.network = networks reqs := by
  rw [addRules_network, build_keys, networks]

theorem latestRule_of_mem {reqs : List Control.Rule} {r : Rule} (h : r ∈ (addRules reqs).rules) :
    latestRule reqs r.network = some r := by
  rw [addRules_network] at h
  exact latest_of_mem_build h

theorem addRules_canonical {reqs : List Control.Rule} {r : Rule} (h : r ∈ (addRules reqs).rules) :
    ∃ nn l, Canonical r.ipNet nn l := by
  rw [addRules_network] at h
  exact accepted_canonical (mem_of_mem_build h)

/-- The dial of the specification: the latest dialer of the earliest added
network that contains the address. -/
def historyDial (resolveTCPAddr : Text → Text → Option IP) (reqs : List Control.Rule)
    (network addr : Text) : Route :=
  match resolveTCPAddr network addr with
  | none => .netDial
  | some ip =>
    match (networks reqs).find? fun n => inNetwork n ip with
    | none => .netDial
    | some n =>
      match latestRule reqs n with
      | none => .netDial
      | some r => .dialer r.dialer

theorem find_network (reqs : List Control.Rule) (ip : IP) :
    (networks reqs).find? (fun n => inNetwork n ip) =
      ((addRules reqs).firstRule ip).map Rule.network := by
  rw [← addRules_networks, List.find?_map]
  rfl

theorem dial_history (resolveTCPAddr : Text → Text → Option IP) (reqs : List Control.Rule)
    (network addr : Text) :
    (addRules reqs).dial resolveTCPAddr network addr =
      historyDial resolveTCPAddr reqs network addr := by
  unfold RuleSet.dial historyDial
  cases resolveTCPAddr network addr with
  | none => rfl
  | some ip =>
    simp only [find_network]
    cases hf : (addRules reqs).firstRule ip with
    | none => rfl
    | some r =>
      simp only [Option.map_some, latestRule_of_mem (RuleSet.firstRule_some hf).1]

theorem network_mem_iff {reqs : List Control.Rule} {n : Option (IP × IPMask)} :
    n ∈ networks reqs ↔ ∃ r ∈ accepted reqs, r.network = n := by
  simp [networks, mem_firstUses]

theorem dial_netDial_iff (resolveTCPAddr : Text → Text → Option IP) (reqs : List Control.Rule)
    (network addr : Text) :
    (addRules reqs).dial resolveTCPAddr network addr = .netDial ↔
      ∀ ip, resolveTCPAddr network addr = some ip →
        ∀ r ∈ accepted reqs, contains r.ipNet ip = false := by
  unfold RuleSet.dial
  cases resolveTCPAddr network addr with
  | none => simp
  | some ip =>
    have hnone : (addRules reqs).firstRule ip = none ↔
        ∀ r ∈ accepted reqs, contains r.ipNet ip = false := by
      have hmap := find_network reqs ip
      constructor
      · intro h r hr
        rw [h, Option.map_none, List.find?_eq_none] at hmap
        have hn := hmap r.network (network_mem_iff.mpr ⟨r, hr, rfl⟩)
        simpa [contains, Rule.network] using hn
      · intro h
        rw [RuleSet.firstRule, List.find?_eq_none]
        intro r hr
        rw [addRules_network] at hr
        simp [h r (mem_of_mem_build hr)]
    cases hf : (addRules reqs).firstRule ip with
    | none =>
      simp only [hf, true_iff]
      rintro ip' heq
      cases heq
      exact hnone.mp hf
    | some r =>
      simp only [hf, reduceCtorEq, false_iff]
      intro h
      rw [hnone.mpr (h ip rfl)] at hf
      cases hf

/-- The rule list and the routing of the daemon as functions of the request history. -/
theorem rules_follow_history (resolveTCPAddr : Text → Text → Option IP)
    (reqs : List Control.Rule) :
    serverListRules (addRules reqs) =
        ((networks reqs).filterMap (latestRule reqs)).map marshall ∧
      (serverListRules (addRules reqs)).length = (networks reqs).length ∧
      (networks reqs).Nodup ∧
      (∀ q r, unMarshall q = .ok r →
        r.dialer = if q.dialer = [] then "default".toList else q.dialer) ∧
      (∀ q err, unMarshall q = .error err →
        serverAddRule (addRules reqs) q = (addRules reqs, some err)) ∧
      ∀ network addr,
        (addRules reqs).dial resolveTCPAddr network addr =
            historyDial resolveTCPAddr reqs network addr ∧
          ((addRules reqs).dial resolveTCPAddr network addr = .netDial ↔
            ∀ ip, resolveTCPAddr network addr = some ip →
              ∀ r ∈ accepted reqs, contains r.ipNet ip = false) := by
  refine ⟨?_, ?_, nodup_firstUses _, ?_, ?_, ?_⟩
  · rw [serverListRules, RuleSet.listRules, addRules_eq]
  · rw [serverListRules, RuleSet.listRules, List.length_map, ← addRules_networks, List.length_map]
  · intro q r hq
    exact (unMarshall_ok hq).2
  · intro q err hq
    simp only [serverAddRule, hq]
  · intro network addr
    exact ⟨dial_history resolveTCPAddr reqs network addr,
      dial_netDial_iff resolveTCPAddr reqs network addr⟩

end SshTunnel.Rules
