import SshTunnel.Lib.Runs
import SshTunnel.Proxies.Serve

/-!
# The DNS proxies together (`proxy/dnsproxy.go:86-122`, `200-208`, `server/server.go:57-67`)

Each DNS proxy has a goroutine of its own, but all of them register their handler
for the pattern `.` in the one mux of package `dns`, where the latest
registration replaces the earlier ones, and their servers all use this mux.
-/

namespace SshTunnel.Proxies.Dns

open Lib.Net (Text)
open Lib.Runs

/-- Where the goroutine `forwardDNS` of a proxy stands. -/
inductive Phase where
  | handleFunc
  | listenAndServe
  | serving
  deriving DecidableEq

structure Started where
  port : ℕ
  target : Text
  phase : Phase
  deriving DecidableEq

structure Query where
  proxy : ℕ
  opcode : ℕ
  opened : List Opening
  deriving DecidableEq

/-- `mux` is the target of the handler for the pattern `.`; `crashed` says that a
goroutine has panicked. -/
structure State where
  globals : Globals
  proxies : List Control.Proxy
  started : List Started
  mux : Option Text
  log : List Query
  crashed : Bool

def init : State := ⟨⟨[], none⟩, [], [], none, [], false⟩

inductive Action where
  /-- A `StartProxy` request with the ports that it finds. -/
  | startProxy (listen freePort : Except Text ℕ) (proxyType proxyParameter : Text)
  | handleFunc (i : ℕ)
  | listenAndServe (i : ℕ) (ok : Bool)
  | query (i opcode : ℕ)

def goroutine (port : ℕ) : Proxy → List Started
  | .dns _ target => [⟨port, target, .handleFunc⟩]
  | _ => []

def State.startProxy (env : Env) (s : State) (proxyType proxyParameter : Text) : State :=
  match newProxy env s.globals proxyType proxyParameter with
  | .ok (globals, proxy, port) =>
    { s with
      globals := globals
      proxies := s.proxies ++ [⟨proxyType, port, proxyParameter⟩]
      started := s.started ++ goroutine port proxy }
  | .error _ => s

def State.setPhase (s : State) (i : ℕ) (p : Started) (phase : Phase) : State :=
  { s with started := s.started.set i { p with phase := phase } }

/-- What the server of a proxy does with a query: it asks the mux. -/
def State.serveDNS (s : State) (opcode : ℕ) : List Opening :=
  match s.mux with
  | some target => forwardDNS target opcode
  | none => []

def step (env : Env) (s : State) (a : Action) : Option State :=
  if s.crashed then none
  else
    match a with
    | .startProxy listen freePort proxyType proxyParameter =>
      some (s.startProxy { env with listen := fun _ => listen, getFreeUDPPort := freePort }
        proxyType proxyParameter)
    | .handleFunc i =>
      match s.started[i]? with
      | some p =>
        if p.phase = .handleFunc then
          some ({ s with mux := some p.target }.setPhase i p .listenAndServe)
        else none
      | none => none
    | .listenAndServe i ok =>
      match s.started[i]? with
      | some p =>
        if p.phase = .listenAndServe then
          some (if ok then s.setPhase i p .serving else { s with crashed := true })
        else none
      | none => none
    | .query i opcode =>
      match s.started[i]? with
      | some p =>
        if p.phase = .serving then
          some { s with log := s.log ++ [⟨i, opcode, s.serveDNS opcode⟩] }
        else none
      | none => none

def State.targets (s : State) : List Text := s.started.map (·.target)

/-- Every query was forwarded to the target of the proxy at whose port it came in. -/
def State.Forwards (s : State) : Prop :=
  ∀ q ∈ s.log, ∃ target, s.targets[q.proxy]? = some target ∧
    q.opened = forwardDNS target q.opcode

/-- A DNS proxy is only started for the target of those that there are. -/
def SameTarget (env : Env) (s : State) : Action → Prop
  | .startProxy _ _ proxyType proxyParameter => proxyType = "dns".toList →
      ∀ target, makeTargetAddr env proxyParameter = .ok target → ∀ t ∈ s.targets, t = target
  | _ => True

/-! ### Steps -/

section Steps

variable {env : Env} {s u : State} {a : Action}

theorem step_cases (h : step env s a = some u) :
    s.crashed = false ∧
      ((∃ listen freePort proxyType proxyParameter,
          a = .startProxy listen freePort proxyType proxyParameter ∧
          u = s.startProxy { env with listen := fun _ => listen, getFreeUDPPort := freePort }
            proxyType proxyParameter) ∨
        (∃ i, ∃ p : Started, s.started[i]? = some p ∧ p.phase = .handleFunc ∧
          u = { s with mux := some p.target }.setPhase i p .listenAndServe) ∨
        (∃ i, ∃ p : Started, s.started[i]? = some p ∧ p.phase = .listenAndServe ∧
          (u = s.setPhase i p .serving ∨ u = { s with crashed := true })) ∨
        ∃ i, ∃ p : Started, ∃ opcode, s.started[i]? = some p ∧ p.phase = .serving ∧
          u = { s with log := s.log ++ [⟨i, opcode, s.serveDNS opcode⟩] }) := by
  unfold step at h
  split at h
  · cases h
  rename_i hcrashed
  refine ⟨by simpa using hcrashed, ?_⟩
  cases a with
  | startProxy listen freePort proxyType proxyParameter =>
    cases h
    exact .inl ⟨listen, freePort, proxyType, proxyParameter, rfl, rfl⟩
  | handleFunc i =>
    dsimp only at h
    split at h
    · rename_i p hp
      split at h
      · rename_i hphase
        cases h
        exact .inr (.inl ⟨i, p, hp, hphase, rfl⟩)
      · cases h
    · cases h
  | listenAndServe i ok =>
    dsimp only at h
    split at h
    · rename_i p hp
      split at h
      · rename_i hphase
        cases h
        refine .inr (.inr (.inl ⟨i, p, hp, hphase, ?_⟩))
        cases ok with
        | true => exact .inl rfl
        | false => exact .inr rfl
      · cases h
    · cases h
  | query i opcode =>
    dsimp only at h
    split at h
    · rename_i p hp
      split at h
      · rename_i hphase
        cases h
        exact .inr (.inr (.inr ⟨i, p, opcode, hp, hphase, rfl⟩))
      · cases h
    · cases h

theorem setPhase_targets {i : ℕ} {p : Started} (h : s.started[i]? = some p) (phase : Phase) :
    (s.setPhase i p phase).targets = s.targets := by
  obtain ⟨hlt, hget⟩ := List.getElem?_eq_some_iff.mp h
  have hi : i < (s.started.map (·.target)).length := by rwa [List.length_map]
  have hself : p.target = (s.started.map (·.target))[i] := by rw [List.getElem_map, hget]
  simp only [State.targets, State.setPhase, List.map_set]
  rw [hself, List.set_getElem_self]

/-- Only a DNS proxy has a goroutine, and its target is that of the parameters. -/
theorem startProxy_started (env : Env) (s : State) (proxyType proxyParameter : Text) :
    (s.startProxy env proxyType proxyParameter).started = s.started ∨
      proxyType = "dns".toList ∧ ∃ port target, makeTargetAddr env proxyParameter = .ok target ∧
        (s.startProxy env proxyType proxyParameter).started =
          s.started ++ [⟨port, target, .handleFunc⟩] := by
  unfold State.startProxy
  split
  · rename_i globals proxy port hnew
    unfold newProxy at hnew
    have htcp : ∀ (p : Proxy), goroutine port p = [] → ∀ (x : Except Text ℕ),
        (x.map fun port => (s.globals, p, port)) = .ok (globals, proxy, port) →
        s.started ++ goroutine port proxy = s.started := by
      intro p hp x hx
      cases x with
      | error err => cases hx
      | ok n =>
        cases hx
        rw [hp, List.append_nil]
    split at hnew
    · exact .inl (htcp _ rfl _ hnew)
    split at hnew
    · exact .inl (htcp _ rfl _ hnew)
    split at hnew
    · exact .inl (htcp _ rfl _ hnew)
    split at hnew
    · rename_i hdns
      cases hport : env.getFreeUDPPort with
      | error err =>
        rw [hport] at hnew
        cases hnew
      | ok n =>
        cases htarget : makeTargetAddr env proxyParameter with
        | error err =>
          rw [hport, htarget] at hnew
          cases hnew
        | ok target =>
          rw [hport, htarget] at hnew
          cases hnew
          exact .inr ⟨hdns, _, target, rfl, rfl⟩
    · cases hnew
  · exact .inl rfl

theorem startProxy_frame (env : Env) (s : State) (proxyType proxyParameter : Text) :
    (s.startProxy env proxyType proxyParameter).mux = s.mux ∧
      (s.startProxy env proxyType proxyParameter).log = s.log ∧
      (s.startProxy env proxyType proxyParameter).crashed = s.crashed := by
  unfold State.startProxy
  split <;> exact ⟨rfl, rfl, rfl⟩

def State.Ready (s : State) : Prop :=
  ∀ p ∈ s.started, p.phase ≠ .handleFunc → s.mux.isSome = true

theorem step_ready (hs : s.Ready) (h : step env s a = some u) : u.Ready := by
  obtain ⟨-, ⟨_, _, _, _, -, rfl⟩ | ⟨i, p, -, -, rfl⟩ | ⟨i, p, hi, hphase, rfl | rfl⟩ |
    ⟨i, p, opcode, -, -, rfl⟩⟩ := step_cases h
  · intro q hq hphase
    rw [(startProxy_frame ..).1]
    rcases startProxy_started _ s _ _ with hst | ⟨-, port, target, -, hst⟩
    · rw [hst] at hq
      exact hs q hq hphase
    · rw [hst] at hq
      rcases List.mem_append.mp hq with hq | hq
      · exact hs q hq hphase
      · exact absurd (List.mem_singleton.mp hq ▸ rfl) hphase
  · intro _ _ _
    rfl
  · intro q hq hq'
    refine hs p (List.mem_of_getElem? hi) ?_
    rw [hphase]
    decide
  · exact hs
  · exact hs

/-- While all proxies have one target, the mux has it too. -/
structure State.Agree (s : State) : Prop where
  same : ∀ t ∈ s.targets, ∀ t' ∈ s.targets, t = t'
  mux : ∀ t, s.mux = some t → t ∈ s.targets
  ready : s.Ready
  log : s.Forwards

theorem State.Forwards.append (hs : s.Forwards) (new : List Text)
    (htargets : u.targets = s.targets ++ new) (hlog : u.log = s.log) : u.Forwards := by
  intro q hq
  rw [hlog] at hq
  obtain ⟨target, ht, hopened⟩ := hs q hq
  refine ⟨target, ?_, hopened⟩
  rw [htargets, List.getElem?_append_left (List.getElem?_eq_some_iff.mp ht).1, ht]

/-- A start for the target of the proxies that there are keeps them at one target. -/
theorem startProxy_targets (env : Env) (s : State) {proxyType proxyParameter : Text}
    (hg : proxyType = "dns".toList → ∀ target, makeTargetAddr env proxyParameter = .ok target →
      ∀ t ∈ s.targets, t = target) :
    ∃ new : List Text, (∀ t ∈ new, ∀ t' ∈ s.targets ++ new, t' = t) ∧
      (s.startProxy env proxyType proxyParameter).targets = s.targets ++ new := by
  rcases startProxy_started env s proxyType proxyParameter with
    hst | ⟨hdns, port, target, htarget, hst⟩
  · exact ⟨[], by simp, by rw [State.targets, hst, List.append_nil, State.targets]⟩
  · refine ⟨[target], ?_, by rw [State.targets, hst, List.map_append]; rfl⟩
    intro t ht t' ht'
    obtain rfl := List.mem_singleton.mp ht
    rcases List.mem_append.mp ht' with ht' | ht'
    · exact hg hdns t htarget t' ht'
    · exact List.mem_singleton.mp ht'

theorem State.Agree.startProxy (hs : s.Agree) {proxyType proxyParameter : Text}
    (hg : proxyType = "dns".toList → ∀ target, makeTargetAddr env proxyParameter = .ok target →
      ∀ t ∈ s.targets, t = target)
    (hready : (s.startProxy env proxyType proxyParameter).Ready) :
    (s.startProxy env proxyType proxyParameter).Agree := by
  obtain ⟨hmux, hlog, -⟩ := startProxy_frame env s proxyType proxyParameter
  obtain ⟨new, hnew, htargets⟩ := startProxy_targets env s hg
  refine ⟨?_, ?_, hready, hs.log.append new htargets hlog⟩
  · rw [htargets]
    intro t ht t' ht'
    rcases List.mem_append.mp ht with h1 | h1
    · rcases List.mem_append.mp ht' with h2 | h2
      · exact hs.same t h1 t' h2
      · exact hnew t' h2 t ht
    · exact (hnew t h1 t' ht').symm
  · rw [htargets, hmux]
    exact fun t ht => List.mem_append_left new (hs.mux t ht)

theorem State.Agree.setPhase (hs : s.Agree) (htargets : u.targets = s.targets)
    (hlog : u.log = s.log) (hmux : ∀ t, u.mux = some t → t ∈ s.targets) (hready : u.Ready) :
    u.Agree := by
  refine ⟨?_, ?_, hready, hs.log.append [] (by rw [htargets, List.append_nil]) hlog⟩
  · rw [htargets]
    exact hs.same
  · rw [htargets]
    exact hmux

/-- The mux has the target of every proxy that serves. -/
theorem State.Agree.serveDNS (hs : s.Agree) {i : ℕ} {p : Started} (hi : s.started[i]? = some p)
    (hphase : p.phase = .serving) (opcode : ℕ) :
    s.targets[i]? = some p.target ∧ s.serveDNS opcode = forwardDNS p.target opcode := by
  have hserving : p.phase ≠ .handleFunc := by
    rw [hphase]
    decide
  obtain ⟨t, ht⟩ := Option.isSome_iff_exists.mp (hs.ready p (List.mem_of_getElem? hi) hserving)
  have htarget : s.targets[i]? = some p.target := by
    rw [State.targets, List.getElem?_map, hi, Option.map_some]
  refine ⟨htarget, ?_⟩
  rw [hs.same p.target (List.mem_of_getElem? htarget) t (hs.mux t ht)]
  simp only [State.serveDNS, ht]

theorem step_agree (hs : s.Agree) (hg : SameTarget env s a) (h : step env s a = some u) :
    u.Agree := by
  have hready := step_ready hs.ready h
  obtain ⟨-, ⟨listen, freePort, proxyType, proxyParameter, rfl, rfl⟩ | ⟨i, p, hi, -, rfl⟩ |
    ⟨i, p, hi, -, rfl | rfl⟩ | ⟨i, p, opcode, hi, hphase, rfl⟩⟩ := step_cases h
  · exact hs.startProxy (fun hdns target ht => hg hdns target ht) hready
  · have htargets : ({ s with mux := some p.target }.setPhase i p .listenAndServe).targets =
        s.targets := setPhase_targets (s := { s with mux := some p.target }) hi _
    refine hs.setPhase htargets rfl (fun t ht => ?_) hready
    cases ht
    exact List.mem_map_of_mem (List.mem_of_getElem? hi)
  · exact hs.setPhase (setPhase_targets hi .serving) rfl hs.mux hready
  · exact ⟨hs.same, hs.mux, hready, hs.log⟩
  · refine ⟨hs.same, hs.mux, hready, fun q hq => ?_⟩
    rcases List.mem_append.mp hq with hq | hq
    · exact hs.log q hq
    · obtain rfl := List.mem_singleton.mp hq
      exact ⟨p.target, hs.serveDNS hi hphase opcode⟩

end Steps

/-! ### Two targets -/

section Misdirection

variable {s : State}

theorem setPhase_self {i : ℕ} {p : Started} (h : s.started[i]? = some p) (phase : Phase) :
    (s.setPhase i p phase).started[i]? = some { p with phase := phase } := by
  rw [State.setPhase, List.getElem?_set_self (List.getElem?_eq_some_iff.mp h).1]

theorem setPhase_of_ne {i j : ℕ} (hj : i ≠ j) (p : Started) (phase : Phase) :
    (s.setPhase i p phase).started[j]? = s.started[j]? := by
  rw [State.setPhase, List.getElem?_set_ne hj]

structure Brings (env : Env) (i : ℕ) (s u : State) : Prop where
  reach : Reach (step env) s u
  crashed : u.crashed = false
  targets : u.targets = s.targets
  serving : ∃ p : Started, u.started[i]? = some p ∧ p.phase = .serving
  other : ∀ j, i ≠ j → u.started[j]? = s.started[j]?

theorem brings_listen (env : Env) (hc : s.crashed = false) {i : ℕ} {p : Started}
    (hi : s.started[i]? = some p) (hphase : p.phase = .listenAndServe) :
    Brings env i s (s.setPhase i p .serving) where
  reach := .tail .refl trivial (a := .listenAndServe i true) (by simp [step, hc, hi, hphase])
  crashed := hc
  targets := setPhase_targets hi .serving
  serving := ⟨_, setPhase_self hi .serving, rfl⟩
  other j hj := setPhase_of_ne hj p .serving

theorem exists_brings (env : Env) (hc : s.crashed = false) {i : ℕ} {p : Started}
    (hi : s.started[i]? = some p) : ∃ u, Brings env i s u := by
  cases hphase : p.phase with
  | serving => exact ⟨s, .refl, hc, rfl, ⟨p, hi, hphase⟩, fun _ _ => rfl⟩
  | listenAndServe => exact ⟨_, brings_listen env hc hi hphase⟩
  | handleFunc =>
    have hi' : ({ s with mux := some p.target } : State).started[i]? = some p := hi
    have hstep : step env s (.handleFunc i) =
        some ({ s with mux := some p.target }.setPhase i p .listenAndServe) := by
      simp [step, hc, hi, hphase]
    obtain ⟨hreach, hcrashed, htargets, hserving, hother⟩ :=
      brings_listen env (s := { s with mux := some p.target }.setPhase i p .listenAndServe) hc
        (setPhase_self hi' .listenAndServe) rfl
    refine ⟨_, (Run.tail .refl trivial hstep).trans hreach, hcrashed, ?_, hserving, ?_⟩
    · exact htargets.trans (setPhase_targets hi' .listenAndServe)
    · intro j hj
      exact (hother j hj).trans (setPhase_of_ne hj p .listenAndServe)

theorem forwardDNS_query {t t' : Text}
    (h : forwardDNS t opcodeQuery = forwardDNS t' opcodeQuery) : t = t' := by
  simpa [forwardDNS] using h

theorem query_misdirected (env : Env) (hc : s.crashed = false) {k : ℕ} {p : Started} {t : Text}
    (hk : s.started[k]? = some p) (hphase : p.phase = .serving) (hmux : s.mux = some t)
    (hne : t ≠ p.target) : ∃ u, Reach (step env) s u ∧ ¬u.Forwards := by
  refine ⟨{ s with log := s.log ++ [⟨k, opcodeQuery, forwardDNS t opcodeQuery⟩] },
    .tail .refl trivial (a := .query k opcodeQuery) ?_, fun hf => ?_⟩
  · simp [step, hc, hk, hphase, State.serveDNS, hmux]
  · obtain ⟨target, htarget, hopened⟩ := hf ⟨k, opcodeQuery, forwardDNS t opcodeQuery⟩ (by simp)
    have hp : s.targets[k]? = some target := htarget
    rw [State.targets, List.getElem?_map, hk, Option.map_some, Option.some.injEq] at hp
    exact hne ((forwardDNS_query hopened).trans hp.symm)

/-- Of two proxies with different targets one can be made to forward to the other's. -/
theorem exists_misdirected (env : Env) (hs : s.Ready) (hc : s.crashed = false) {i j : ℕ}
    {t t' : Text} (hi : s.targets[i]? = some t) (hj : s.targets[j]? = some t') (hne : t ≠ t') :
    ∃ u, Reach (step env) s u ∧ ¬u.Forwards := by
  have hstarted : ∀ {s : State} {k : ℕ} {t : Text}, s.targets[k]? = some t →
      ∃ p : Started, s.started[k]? = some p ∧ p.target = t := by
    intro s k t h
    rw [State.targets, List.getElem?_map] at h
    exact Option.map_eq_some_iff.mp h
  have hij : j ≠ i := by
    rintro rfl
    exact hne (Option.some.inj (hi.symm.trans hj))
  obtain ⟨p, hp, -⟩ := hstarted hi
  obtain ⟨m, hm⟩ := exists_brings env hc hp
  obtain ⟨q, hq, -⟩ := hstarted (hm.targets ▸ hj : m.targets[j]? = some t')
  obtain ⟨u, hu⟩ := exists_brings env hm.crashed hq
  obtain ⟨pi, hpi, hpi'⟩ := hm.serving
  obtain ⟨pj, hpj, hpj'⟩ := hu.serving
  have hpi : u.started[i]? = some pi := (hu.other i hij).trans hpi
  have htargets : u.targets = s.targets := hu.targets.trans hm.targets
  have hready : u.Ready :=
    (hm.reach.trans hu.reach).invariant hs fun _ _ _ hs _ h => step_ready hs h
  have hserving : pj.phase ≠ .handleFunc := by
    rw [hpj']
    decide
  obtain ⟨t₀, ht₀⟩ := Option.isSome_iff_exists.mp (hready pj (List.mem_of_getElem? hpj) hserving)
  have htarget : ∀ {k : ℕ} {r : Started} {t : Text}, u.started[k]? = some r →
      s.targets[k]? = some t → r.target = t := by
    intro k r t hr ht
    rw [← htargets, State.targets, List.getElem?_map, hr, Option.map_some] at ht
    exact Option.some.inj ht
  have hmis : ∃ v, Reach (step env) u v ∧ ¬v.Forwards := by
    by_cases h : t₀ = t
    · refine query_misdirected env hu.crashed hpj hpj' ht₀ ?_
      rw [htarget hpj hj, h]
      exact hne
    · refine query_misdirected env hu.crashed hpi hpi' ht₀ ?_
      rwa [htarget hpi hi]
  obtain ⟨v, hv, hvf⟩ := hmis
  exact ⟨v, (hm.reach.trans hu.reach).trans hv, hvf⟩

end Misdirection

/-- As long as every DNS proxy is started for the target of those that there are,
each query goes to the target of its proxy, in every order of the steps; and as
soon as there are two targets, there is an order in which one does not. -/
theorem dns_forwards (env : Env) :
    (∀ s, Run (step env) (SameTarget env) init s → s.Forwards) ∧
      ∀ s, Reach (step env) init s → s.crashed = false →
        ∀ t ∈ s.targets, ∀ t' ∈ s.targets, t ≠ t' → ∃ u, Reach (step env) s u ∧ ¬u.Forwards := by
  constructor
  · intro s hs
    refine (hs.invariant ⟨?_, ?_, ?_, ?_⟩ fun _ _ _ hs hg h => step_agree hs hg h).log
    · exact fun t ht => by cases ht
    · exact fun t ht => by cases ht
    · exact fun p hp => by cases hp
    · exact fun q hq => by cases hq
  · intro s hs hc t ht t' ht' hne
    have hready : s.Ready := hs.invariant (fun p hp => by cases hp) fun _ _ _ hs _ h =>
      step_ready hs h
    obtain ⟨i, hi⟩ := List.mem_iff_getElem?.mp ht
    obtain ⟨j, hj⟩ := List.mem_iff_getElem?.mp ht'
    exact exists_misdirected env hready hc hi hj hne

section Example

/-- `net.SplitHostPort` for an address with one colon. -/
def resolvers : Env :=
  { sampleEnv with
    splitHostPort := fun s => .ok (s.takeWhile (· ≠ ':'), (s.dropWhile (· ≠ ':')).drop 1) }

def twoResolvers : List Action :=
  [.startProxy (.ok 0) (.ok 5353) "dns".toList "8.8.8.8:53".toList, .handleFunc 0,
    .listenAndServe 0 true,
    .startProxy (.ok 0) (.ok 5354) "dns".toList "1.1.1.1:53".toList, .handleFunc 1, .query 0 0]

def startsFirst (s : State) : Action → Bool
  | .startProxy .. => s.targets = []
  | _ => true

theorem one_dns_proxy_forwards :
    ∃ s, Run (step resolvers) (SameTarget resolvers) init s ∧
      s.log = [⟨0, 0, [⟨.direct, tcp, "8.8.8.8:53".toList⟩]⟩] ∧ s.Forwards := by
  obtain ⟨s, hs, hlog⟩ : ∃ s, exec (guarded startsFirst (step resolvers)) init
      (twoResolvers.take 3 ++ [.query 0 0]) = some s ∧
        s.log = [⟨0, 0, [⟨.direct, tcp, "8.8.8.8:53".toList⟩]⟩] := ⟨_, rfl, rfl⟩
  have hrun : Run (step resolvers) (SameTarget resolvers) init s := by
    refine run_of_exec (I := fun _ => True) (fun _ _ _ _ _ _ => trivial) ?_ trivial hs
    intro t a _ ha
    cases a with
    | startProxy listen freePort proxyType proxyParameter =>
      intro _ target _ t' ht'
      rw [of_decide_eq_true ha] at ht'
      cases ht'
    | handleFunc | listenAndServe | query => trivial
  exact ⟨s, hrun, hlog, (dns_forwards resolvers).1 s hrun⟩

theorem second_dns_proxy_takes_over :
    ¬∀ (env : Env) (s : State), Reach (step env) init s → s.Forwards := by
  intro hall
  obtain ⟨s, hs, hlog⟩ := reach_of_check (step resolvers) init twoResolvers (fun s =>
    s.log = [⟨0, 0, [⟨.direct, tcp, "1.1.1.1:53".toList⟩]⟩] &&
      s.targets = ["8.8.8.8:53".toList, "1.1.1.1:53".toList]) (by decide)
  simp only [Bool.and_eq_true, decide_eq_true_eq] at hlog
  obtain ⟨target, htarget, hopened⟩ := hall resolvers s hs _ (hlog.1 ▸ List.mem_cons_self)
  rw [hlog.2] at htarget
  cases htarget
  revert hopened
  decide

end Example

end SshTunnel.Proxies.Dns
