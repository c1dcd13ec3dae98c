import SshTunnel.Rules
import SshTunnel.Lib.NetRead

/-!
# Replaying the rule list (`server/server.go:167-189`)

The entries of `Server.ListRules` are themselves a history of `Server.AddRule`
requests. Replayed on an empty rule set they are all accepted, and the rule set
they build lists and routes as the one they were taken from.
-/

namespace SshTunnel.Rules

open Lib.Net Lib.Upsert

/-- `r'` binds the network of `r` to the dialer of `r`; the networks may differ in
their bytes where one of them is an IPv4-mapped one. -/
structure Rule.Same (r r' : Rule) : Prop where
  network : r'.network = r.network
  dialer : r'.dialer = r.dialer

theorem Rule.Same.contains {r r' : Rule} (h : r.Same r') (ip : IP) :
    contains r'.ipNet ip = contains r.ipNet ip :=
  contains_congr h.network ip

theorem Rule.Same.marshall {r r' : Rule} (h : r.Same r') : marshall r' = marshall r := by
  have hn : networkNumberAndMask r'.ipNet = networkNumberAndMask r.ipNet := h.network
  simp only [Rules.marshall, netText, hn, h.dialer]

/-! ### One entry -/

/-- A rule as `UnMarshall` returns it: a canonical network and a dialer that is
not left to the default. -/
structure Rule.Stored (r : Rule) : Prop where
  canonical : ∃ nn l, Canonical r.ipNet nn l
  dialer : r.dialer ≠ []

theorem stored_of_unMarshall {q : Control.Rule} {r : Rule} (h : unMarshall q = .ok r) :
    r.Stored := by
  obtain ⟨hc, hd⟩ := unMarshall_ok h
  refine ⟨hc, ?_⟩
  rw [hd]
  split_ifs with hq
  · decide
  · exact hq

theorem addRules_stored {reqs : List Control.Rule} {r : Rule} (h : r ∈ (addRules reqs).rules) :
    r.Stored := by
  rw [addRules_network] at h
  obtain ⟨q, _, hq⟩ := List.mem_filterMap.mp (mem_of_mem_build h)
  cases hu : unMarshall q with
  | error err => simp [hu, Except.toOption] at hq
  | ok s =>
    simp only [hu, Except.toOption, Option.some.injEq] at hq
    exact stored_of_unMarshall (hq ▸ hu)

/-- The text of a stored rule is read back as the same rule: it has a slash, so no
`/32` is added, and a dialer, so the default does not apply. -/
theorem unMarshall_marshall {r : Rule} (h : r.Stored) :
    ∃ r', unMarshall (marshall r) = .ok r' ∧ r.Same r' := by
  obtain ⟨nn, l, hc⟩ := h.canonical
  obtain ⟨a, n', hp, hn⟩ := parseCIDR_read hc
  refine ⟨⟨n', r.dialer⟩, ?_, ⟨hn, rfl⟩⟩
  simp only [unMarshall, marshall, slash_mem_netText hc, if_true, hp, h.dialer, if_false]

/-! ### The whole list -/

theorem accepted_entries {rs : List Rule} (h : ∀ r ∈ rs, r.Stored) :
    List.Forall₂ Rule.Same rs (accepted (rs.map marshall)) := by
  induction rs with
  | nil => exact List.Forall₂.nil
  | cons r rs ih =>
    obtain ⟨r', hu, hs⟩ := unMarshall_marshall (h r (List.mem_cons_self ..))
    have hrest := ih fun s hs => h s (List.mem_cons_of_mem _ hs)
    have hcons : accepted ((r :: rs).map marshall) = r' :: accepted (rs.map marshall) := by
      simp only [accepted, List.map_cons, List.filterMap_cons, hu, Except.toOption]
    rw [hcons]
    exact List.Forall₂.cons hs hrest

/-- Rules that are the same one by one have the same networks, texts and first match. -/
theorem map_of_same {β : Type} {f : Rule → β} (hf : ∀ r r', r.Same r' → f r' = f r)
    {rs rs' : List Rule} (h : List.Forall₂ Rule.Same rs rs') : rs'.map f = rs.map f := by
  induction h with
  | nil => rfl
  | cons hs _ ih =>
    rw [List.map_cons, List.map_cons, hf _ _ hs, ih]

theorem find_of_same (ip : IP) {rs rs' : List Rule} (h : List.Forall₂ Rule.Same rs rs') :
    (rs'.find? fun r => contains r.ipNet ip).map Rule.dialer =
      (rs.find? fun r => contains r.ipNet ip).map Rule.dialer := by
  induction h with
  | nil => rfl
  | cons hs _ ih =>
    simp only [List.find?_cons, hs.contains ip]
    split
    · simp only [Option.map_some, hs.dialer]
    · exact ih

/-- The replay rebuilds the rule list: its networks are distinct, so that no entry
replaces an earlier one. -/
theorem replay_same (reqs : List Control.Rule) :
    List.Forall₂ Rule.Same (addRules reqs).rules
      (addRules (serverListRules (addRules reqs))).rules := by
  have hsame : List.Forall₂ Rule.Same (addRules reqs).rules
      (accepted (serverListRules (addRules reqs))) :=
    accepted_entries fun _ hr => addRules_stored hr
  have hn : ((accepted (serverListRules (addRules reqs))).map Rule.network).Nodup := by
    rw [map_of_same (fun _ _ hs => hs.network) hsame, addRules_networks]
    exact nodup_firstUses _
  rw [addRules_network (serverListRules (addRules reqs)), build_of_nodup hn]
  exact hsame

theorem replay_firstRule (reqs : List Control.Rule) (ip : IP) :
    ((addRules (serverListRules (addRules reqs))).firstRule ip).map Rule.dialer =
      ((addRules reqs).firstRule ip).map Rule.dialer :=
  find_of_same ip (replay_same reqs)

/-- The route of an address depends on the dialer of the first match alone. -/
theorem dial_congr {rs rs' : RuleSet}
    (h : ∀ ip, (rs'.firstRule ip).map Rule.dialer = (rs.firstRule ip).map Rule.dialer)
    (resolveTCPAddr : Text → Text → Option IP) (network addr : Text) :
    rs'.dial resolveTCPAddr network addr = rs.dial resolveTCPAddr network addr := by
  unfold RuleSet.dial
  cases resolveTCPAddr network addr with
  | none => rfl
  | some ip =>
    have hip := h ip
    cases hr : rs.firstRule ip <;> cases hr' : rs'.firstRule ip
    · simp only [hr, hr']
    · simp [hr, hr'] at hip
    · simp [hr, hr'] at hip
    · simp only [hr, hr', Option.map_some, Option.some.injEq] at hip
      simp only [hr, hr', hip]

/-- `ListRules` is a history that rebuilds the rule set: every entry is accepted by
the daemon it is replayed on, and the rebuilt rule set lists the same entries and
chooses the same dialer for every address. -/
theorem listRules_replays (reqs : List Control.Rule) :
    (∀ before q after, serverListRules (addRules reqs) = before ++ q :: after →
      (serverAddRule (addRules before) q).2 = none) ∧
    serverListRules (addRules (serverListRules (addRules reqs))) =
      serverListRules (addRules reqs) ∧
    (∀ ip, ((addRules (serverListRules (addRules reqs))).firstRule ip).map Rule.dialer =
      ((addRules reqs).firstRule ip).map Rule.dialer) ∧
    (∀ resolveTCPAddr network addr,
      (addRules (serverListRules (addRules reqs))).dial resolveTCPAddr network addr =
        (addRules reqs).dial resolveTCPAddr network addr) ∧
    ∀ r ∈ (addRules reqs).rules, ∃ r', unMarshall (marshall r) = .ok r' ∧ r.Same r' ∧
      ∀ ip, contains r'.ipNet ip = contains r.ipNet ip := by
  refine ⟨?_, ?_, replay_firstRule reqs, ?_, ?_⟩
  · intro before q after hq
    have hmem : q ∈ serverListRules (addRules reqs) := by
      rw [hq]
      simp
    obtain ⟨r, hr, rfl⟩ := List.mem_map.mp hmem
    obtain ⟨r', hu, _⟩ := unMarshall_marshall (addRules_stored hr)
    simp only [serverAddRule, hu]
  · exact map_of_same (fun _ _ hs => hs.marshall) (replay_same reqs)
  · intro resolveTCPAddr network addr
    exact dial_congr (replay_firstRule reqs) resolveTCPAddr network addr
  · intro r hr
    obtain ⟨r', hu, hs⟩ := unMarshall_marshall (addRules_stored hr)
    exact ⟨r', hu, hs, hs.contains⟩

-- an IPv4-mapped network and one with host bits, as they are listed and replayed
example : serverListRules (addRules [⟨"::ffff:10.1.2.3/104".toList, []⟩,
    ⟨"2001:db8::1:0:0/33".toList, "ssh".toList⟩]) =
      [⟨"10.0.0.0/8".toList, "default".toList⟩, ⟨"2001:db8::/33".toList, "ssh".toList⟩] := by
  decide +kernel

end SshTunnel.Rules
