import SshTunnel.Daemon.Connectors
import SshTunnel.Daemon.Lock
import SshTunnel.Connector.Failover

/-!
# `SSHDialer.Connect` and `Dial` (`dialer/sshdialer.go:161-235`)

`Connect` waits for an attempt and then reads the client of the dialer, or the
error of the connector. That error is never set, so an attempt without success
ends in a nil client and no error, which `Dial` dereferences. The client and the
connector pointer are read without the lock that guards them: a `Dial` that
clears the client, or the end of the attempt, may come in between.
-/

namespace SshTunnel.Daemon

open Lib.Runs
open Lib.Net (Text)

/-- The client of the first address of the attempt that succeeds. -/
def Env.firstClient (env : Env) (c : ℕ) : Option SSHClient :=
  (env.connector c).firstSuccess.map (SSHClient.mk c)

/-- What `Connect` has to return. -/
def Result.Right (env : Env) : Result → Prop
  | .connected (some client) err => err = none ∧ env.firstClient client.conn = some client
  | .connected none err => err ≠ none ∧ ∃ c, env.firstClient c = none
  | _ => True

/-- Some address of the attempt succeeds, and if it has assigned the client the
dialer still has one. -/
def Joins (env : Env) (d : Core) (c : ℕ) : Prop :=
  env.firstClient c ≠ none ∧ ((d.connectors c).sh.client.isSome = true → d.client.isSome = true)

/-- The thread is about to read the client of an attempt that has assigned it. -/
def Pc.awaits (d : Core) : Pc → Bool
  | .loop _ c => (d.connectors c).sh.client.isSome
  | .clientTest .. | .clientRead _ => true
  | _ => false

/-- The thread has found or assigned the connector pointer and reads it again. -/
def Pc.pointing : Pc → Bool
  | .getInteractive _ | .getHeld _ | .getGo _ | .getReturn _ => true
  | _ => false

/-- Every `Connect` waits for an attempt with a success, and neither the client
nor the pointer is cleared while a thread is about to read it again. -/
def Steady (env : Env) (s : State) : Action → Prop
  | .thread t _ =>
    (∀ k c, s.threads t = .getHeld (.connect k) → s.core.sshConnector = some c →
      Joins env s.core c) ∧
    (∀ k c, s.threads t = .getUnlock (.connect k) (some c) → Joins env s.core c) ∧
    ∀ client, s.threads t = .dialClear client → ∀ t', (s.threads t').awaits s.core = false
  | .connector c .connect => (s.core.connectors c).connect = .deferClear →
    ∀ t, (s.threads t).pointing = false
  | _ => True

/-- What a thread relies on, by its place. -/
def PcOk (env : Env) (d : Core) : Pc → Prop
  | .connectHeld _ | .clientTest .. | .clientRead _ => d.client.isSome = true
  | .getInteractive _ | .getHeld _ | .getGo _ | .getReturn _ => d.sshConnector.isSome = true
  | .getUnlock _ c => c.isSome = true
  | .loop _ c => Joins env d c
  | .dialSecond client => client.isSome = true
  | .errRead .. | .panicked => False
  | .returned r => r.Right env
  | _ => True

def State.Served (env : Env) (s : State) : Prop := ∀ t, PcOk env s.core (s.threads t)

/-- On every path: a client is that of the first address that succeeds in its
attempt, and `Connect` never returns an error. -/
structure State.Honest (env : Env) (s : State) : Prop where
  client : ∀ client, s.core.client = some client → env.firstClient client.conn = some client
  result : ∀ t client err, s.threads t = .returned (.connected client err) →
    err = none ∧ ∀ cl, client = some cl → env.firstClient cl.conn = some cl

section Steps

variable {env : Env} {s u : State} {t : ℕ} {d d' : Core} {pc pc' : Pc}

/-- What the other threads rely on survives a step that keeps the client and,
where it matters, the pointer. -/
theorem PcOk.mono (h : PcOk env d pc) (hc : d.client.isSome = true → d'.client.isSome = true)
    (hp : pc.pointing = true → d.sshConnector.isSome = true → d'.sshConnector.isSome = true)
    (hj : ∀ c, Joins env d c → Joins env d' c) : PcOk env d' pc := by
  cases pc with
  | connectHeld | clientTest | clientRead => exact hc h
  | getInteractive | getHeld | getGo | getReturn => exact hp rfl h
  | loop k c => exact hj c h
  | _ => exact h

theorem connectorMove_client (h : ConnectorMove env d d') (c : ℕ)
    (hs : (d'.connectors c).sh.client.isSome = true) :
    (d.connectors c).sh.client.isSome = true := by
  cases h with
  | keep hk => rwa [hk] at hs
  | step c' a k hk hu _ ha =>
    rw [hu, Function.update_apply] at hs
    split at hs
    · rename_i hc
      have hne : a ≠ .connect := by
        rintro rfl
        cases ha
      rw [hc, ← (Connector.step_attempt_frame hk hne).2.1]
      exact hs
    · exact hs
  | new b hu =>
    rw [hu, Function.update_apply] at hs
    split at hs
    · cases hs
    · exact hs

theorem DialerMove.joins (h : DialerMove env d d')
    (hc : d.client.isSome = true → d'.client.isSome = true) {c : ℕ} (hj : Joins env d c) :
    Joins env d' c :=
  ⟨hj.1, fun hs => hc (hj.2 (connectorMove_client h.connectors c hs))⟩

theorem threadStep_client {o : DialOutcome} (h : threadStep env t o d pc = some (d', pc')) :
    d'.client = d.client ∨ ∃ client, pc = .dialClear client ∧ d' = { d with client := none } ∧
      pc' = .dialUnlock := by
  cases pc with
  | dialClear client =>
    cases h
    exact .inr ⟨client, rfl, rfl, rfl⟩
  | getHeld g =>
    rcases afterGet_cases h with ⟨rfl, -⟩ | ⟨k, c', conn, -, -, -, -, rfl⟩ <;> exact .inl rfl
  | getUnlock g c =>
    rcases afterGet_cases h with ⟨rfl, -⟩ | ⟨k, c', conn, -, -, -, -, rfl⟩ <;> exact .inl rfl
  | getInteractive g =>
    simp only [threadStep] at h
    split at h
    · cases h
      exact .inl rfl
    · obtain ⟨_, hs, he⟩ := Option.map_eq_some_iff.mp h
      cases he
      obtain ⟨k, -, rfl⟩ := stepConnector_eq hs
      exact .inl rfl
  | dialRLock | connectRLock | getRLock =>
    obtain ⟨_, hr, he⟩ := Option.map_eq_some_iff.mp h
    cases he
    simp only [Core.rLock, Option.ite_none_right_eq_some, Option.some.injEq] at hr
    exact .inl (hr.2 ▸ rfl)
  | dialLock | getLock =>
    obtain ⟨_, hr, he⟩ := Option.map_eq_some_iff.mp h
    cases he
    simp only [Core.lock, Option.ite_none_right_eq_some, Option.some.injEq] at hr
    exact .inl (hr.2 ▸ rfl)
  | dialFirst client => cases o <;> cases h <;> exact .inl rfl
  | dialSecond client => cases client <;> cases h <;> exact .inl rfl
  | getGo g =>
    simp only [threadStep] at h
    split at h <;> cases h <;> exact .inl rfl
  | loop k c | serving c =>
    simp only [threadStep, Option.ite_none_right_eq_some, Option.some.injEq] at h
    cases h.2
    exact .inl rfl
  | idle | returned | panicked => cases h
  | _ =>
    cases h
    exact .inl rfl

theorem afterConnect_ok (hv : ∀ client, d.client = some client →
    env.firstClient client.conn = some client) (hc : d.client.isSome = true) (k : Caller) :
    PcOk env d (afterConnect d.client none k) := by
  obtain ⟨client, hcl⟩ := Option.isSome_iff_exists.mp hc
  rw [hcl]
  cases k with
  | api => exact ⟨rfl, hv client hcl⟩
  | dial => exact rfl

theorem afterGet_ok {c : Option ℕ} {g : GetCaller} (hc : c.isSome = true)
    (hj : ∀ k c', g = .connect k → c = some c' → Joins env d c')
    (h : afterGet env t d c g = some (d', pc')) : PcOk env d' pc' := by
  have hm := afterGet_move h
  rcases afterGet_cases h with ⟨rfl, rfl | rfl⟩ | ⟨k, c', conn, hc', hg, rfl, -, hd⟩
  · -- a nil connector is dereferenced
    obtain ⟨c', rfl⟩ := Option.isSome_iff_exists.mp hc
    cases g with
    | api b => cases h
    | connect k =>
      obtain ⟨_, -, he⟩ := Option.map_eq_some_iff.mp h
      cases he
  · trivial
  · exact hm.joins (fun h => by rw [hd]; exact h) (hj k c' hg hc')

/-- A thread that has left its loop finds the client of the attempt. -/
theorem loop_ok {k : Caller} {c : ℕ} (hatt : (d.connectors c).Attempt (env.connector c))
    (hj : Joins env d c) (hex : (d.connectors c).threads t = .exited) :
    PcOk env d (.clientTest k c) := by
  refine hj.2 ?_
  rw [hatt.client_of_ended (hatt.exited t hex)]
  cases hf : (env.connector c).firstSuccess with
  | some i => rfl
  | none => exact (hj.1 (by rw [Env.firstClient, hf]; rfl)).elim

theorem threadStep_ok {o : DialOutcome} (hv : ∀ client, d.client = some client →
      env.firstClient client.conn = some client)
    (hatt : ∀ c, (d.connectors c).Attempt (env.connector c)) (hok : PcOk env d pc)
    (hheld : ∀ k c, pc = .getHeld (.connect k) → d.sshConnector = some c → Joins env d c)
    (hunlock : ∀ k c, pc = .getUnlock (.connect k) (some c) → Joins env d c)
    (h : threadStep env t o d pc = some (d', pc')) : PcOk env d' pc' := by
  cases pc with
  | idle | returned => cases h
  | errRead | panicked => exact hok.elim
  | connectTest k =>
    cases h
    split
    · assumption
    · trivial
  | connectHeld k | clientRead k =>
    cases h
    exact afterConnect_ok hv hok k
  | getTest g =>
    cases h
    split
    · split <;> assumption
    · trivial
  | getInteractive g =>
    simp only [threadStep] at h
    split at h
    · rename_i hnone
      simp [PcOk, hnone] at hok
    · obtain ⟨_, hs, he⟩ := Option.map_eq_some_iff.mp h
      cases he
      obtain ⟨k, -, rfl⟩ := stepConnector_eq hs
      exact hok
  | getHeld g =>
    refine afterGet_ok hok (fun k c hg hp => ?_) h
    subst hg
    exact hheld k c rfl hp
  | getNew g =>
    cases h
    exact rfl
  | getGo g =>
    simp only [threadStep] at h
    split at h
    · rename_i hnone
      simp [PcOk, hnone] at hok
    · cases h
      exact hok
  | getReturn g =>
    cases h
    exact hok
  | getUnlock g c =>
    refine afterGet_ok (d := d.unlock) hok (fun k c' hg hc => ?_) h
    subst hg hc
    exact hunlock k c' rfl
  | loop k c =>
    simp only [threadStep, Option.ite_none_right_eq_some, Option.some.injEq] at h
    obtain ⟨hex, he⟩ := h
    cases he
    exact loop_ok (hatt c) hok hex
  | clientTest k c =>
    cases h
    have hsome : d.client.isSome = true := hok
    rw [if_pos hsome]
    exact hsome
  | dialSecond client =>
    cases client with
    | none => cases hok
    | some client =>
      cases h
      trivial
  | dialRLock | connectRLock | getRLock | dialLock | getLock =>
    obtain ⟨_, -, he⟩ := Option.map_eq_some_iff.mp h
    cases he
    trivial
  | dialFirst client => cases o <;> cases h <;> trivial
  | dialRUnlock client =>
    cases h
    cases client <;> trivial
  | serving c =>
    simp only [threadStep, Option.ite_none_right_eq_some, Option.some.injEq] at h
    cases h.2
    trivial
  | dialRead | dialClear | dialUnlock | connectRUnlock | getRUnlock =>
    cases h
    trivial

theorem setThread_served (hpc : PcOk env d pc)
    (hother : ∀ t', t' ≠ t → PcOk env d (s.threads t')) :
    ({ s with core := d }.setThread t pc).Served env := by
  intro t'
  rw [setThread_threads]
  split
  · exact hpc
  · rename_i hne
    exact hother t' hne

/-- `Dial` clears the client: nobody is about to read it again, under the read
lock or after an attempt. -/
theorem dialClear_served {client : SSHClient} (hs : s.Served env) (hex : s.Exclusive)
    (hpc : s.threads t = .dialClear client)
    (hg : ∀ t', (s.threads t').awaits s.core = false) (t' : ℕ) :
    PcOk env { s.core with client := none } (s.threads t') := by
  have hreads := hex.alone (t := t) (by rw [hpc]; rfl) t'
  have haw := hg t'
  have hok := hs t'
  cases hp : s.threads t' with
  | connectHeld =>
    rw [hp] at hreads
    cases hreads
  | clientTest | clientRead =>
    rw [hp] at haw
    cases haw
  | loop k c =>
    rw [hp] at haw hok
    refine ⟨hok.1, fun hsome => ?_⟩
    simp only [Pc.awaits] at haw
    simp [haw] at hsome
  | _ =>
    rw [hp] at hok
    exact hok

theorem thread_served {o : DialOutcome} (hs : s.Served env) (hex : s.Exclusive)
    (hon : s.Honest env) (hatt : ∀ c, (s.core.connectors c).Attempt (env.connector c))
    (hg : Steady env s (.thread t o))
    (h : threadStep env t o s.core (s.threads t) = some (d, pc)) :
    ({ s with core := d }.setThread t pc).Served env := by
  obtain ⟨hheld, hunlock, hclear⟩ := hg
  have hpc := threadStep_ok hon.client hatt (hs t) hheld hunlock h
  have hm := threadStep_move h
  rcases threadStep_client h with hc | ⟨client, hp, rfl, rfl⟩
  · refine setThread_served hpc fun t' _ => ?_
    have hkeep : s.core.client.isSome = true → d.client.isSome = true := fun h => by rwa [hc]
    exact (hs t').mono hkeep (fun _ => hm.assigned) fun c => hm.joins hkeep
  · refine setThread_served hpc fun t' _ => ?_
    exact dialClear_served hs hex hp (hclear client hp) t'

theorem outside_fields (env : Env) {c : ℕ} {b : Connector.Action}
    (h : ∀ i, b = .connect → (d.connectors c).connect ≠ .setClient i) :
    (d.outside env c b).client = d.client ∧
      ((d.outside env c b).sshConnector = d.sshConnector ∨
        b = .connect ∧ (d.connectors c).connect = .deferClear) := by
  unfold Core.outside
  split
  · split
    · rename_i i hi
      exact (h i rfl hi).elim
    · rename_i hd
      exact ⟨rfl, .inr ⟨rfl, hd⟩⟩
    · exact ⟨rfl, .inl rfl⟩
  · split <;> exact ⟨rfl, .inl rfl⟩
  · exact ⟨rfl, .inl rfl⟩
  · exact ⟨rfl, .inl rfl⟩

theorem connector_served {c : ℕ} {b : Connector.Action} {k : Connector.State}
    (hs : s.Served env) (hg : Steady env s (.connector c b))
    (hk : Connector.step (env.connector c) (s.core.connectors c) b = some k) :
    State.Served env { s with core :=
      { s.core.outside env c b with
        connectors := Function.update (s.core.outside env c b).connectors c k } } := by
  by_cases hset : ∃ i, b = .connect ∧ (s.core.connectors c).connect = .setClient i
  · obtain ⟨i, rfl, hi⟩ := hset
    have ho : s.core.outside env c .connect = { s.core with client := some ⟨c, i⟩ } := by
      simp only [Core.outside, hi]
    rw [ho]
    exact fun t => (hs t).mono (fun _ => rfl) (fun _ h => h) fun c' hj => ⟨hj.1, fun _ => rfl⟩
  have hno : ∀ i, b = .connect → (s.core.connectors c).connect ≠ .setClient i :=
    fun i hb hi => hset ⟨i, hb, hi⟩
  obtain ⟨hcl, hptr⟩ := outside_fields env hno
  have hclient : k.sh.client = (s.core.connectors c).sh.client := by
    by_cases hb : b = .connect
    · subst hb
      obtain ⟨-, sh, pc, hc, rfl⟩ := Connector.step_connect hk
      exact Connector.connectStep_client hc fun i => hno i rfl
    · exact (Connector.step_attempt_frame hk hb).2.1
  refine fun t => (hs t).mono (fun h => hcl ▸ h) (fun ht h => ?_) fun c' hj =>
    ⟨hj.1, fun hsome => hcl ▸ hj.2 ?_⟩
  · rcases hptr with hsame | ⟨rfl, hd⟩
    · exact hsame ▸ h
    · -- the pointer is cleared while nobody reads it again
      have hno := hg hd t
      simp [ht] at hno
  · simp only [(outside_connectors env s.core c b).1, Function.update_apply] at hsome
    split at hsome
    · rename_i hc
      rw [hc, ← hclient]
      exact hsome
    · exact hsome

theorem step_served {a : Action} (hs : s.Served env) (hex : s.Exclusive) (hon : s.Honest env)
    (hatt : ∀ c, (s.core.connectors c).Attempt (env.connector c)) (hg : Steady env s a)
    (h : step env s a = some u) : u.Served env := by
  cases a with
  | call t e =>
    obtain ⟨-, rfl⟩ := step_call h
    refine setThread_served (s := s) ?_ fun t' _ => hs t'
    cases e <;> trivial
  | thread t o =>
    obtain ⟨d, pc, hc, rfl⟩ := step_thread h
    exact thread_served hs hex hon hatt hg hc
  | serve t c sid inp =>
    obtain ⟨-, -, k, hk, rfl⟩ := step_serve h
    have hm : DialerMove env s.core
        { s.core with connectors := Function.update s.core.connectors c k } := .step hk rfl
    refine setThread_served (s := s) trivial fun t' _ => ?_
    exact (hs t').mono id (fun _ => id) fun c' => hm.joins id
  | connector c b =>
    obtain ⟨-, -, k, hk, rfl⟩ := step_connector h
    exact connector_served hs hg hk

theorem threadStep_connected {o : DialOutcome} {client : Option SSHClient} {err : Option Text}
    (h : threadStep env t o d pc = some (d', .returned (.connected client err))) :
    client = d.client ∧ err = none ∨ ∃ c, client = none ∧ err = (d.connectors c).sh.err := by
  have hreturn : ∀ cl e k, afterConnect cl e k = .returned (.connected client err) →
      client = cl ∧ err = e := by
    intro cl e k hk
    cases k with
    | api =>
      cases hk
      exact ⟨rfl, rfl⟩
    | dial => cases e <;> cases hk
  cases pc with
  | connectHeld k | clientRead k =>
    simp only [threadStep, Option.some.injEq, Prod.mk.injEq] at h
    exact .inl (hreturn _ _ _ h.2)
  | errRead k c =>
    simp only [threadStep, Option.some.injEq, Prod.mk.injEq] at h
    exact .inr ⟨c, hreturn _ _ _ h.2⟩
  | getHeld g | getUnlock g c =>
    rcases afterGet_cases h with ⟨-, hp | hp⟩ | ⟨_, _, _, -, -, hp, -, -⟩ <;> cases hp
  | dialRLock | connectRLock | getRLock | dialLock | getLock =>
    obtain ⟨_, -, he⟩ := Option.map_eq_some_iff.mp h
    cases he
  | getInteractive g =>
    simp only [threadStep] at h
    split at h
    · cases h
    · obtain ⟨_, -, he⟩ := Option.map_eq_some_iff.mp h
      cases he
  | dialRUnlock cl | dialSecond cl => cases cl <;> cases h
  | dialFirst cl => cases o <;> cases h
  | connectTest k | clientTest k c | getTest g => grind [threadStep]
  | getGo g | loop k c | serving c => grind [threadStep]
  | _ => cases h

theorem thread_honest {o : DialOutcome} (hs : s.Honest env)
    (hatt : ∀ c, (s.core.connectors c).Attempt (env.connector c))
    (h : threadStep env t o s.core (s.threads t) = some (d, pc)) :
    ({ s with core := d }.setThread t pc).Honest env := by
  refine ⟨fun client hc => ?_, fun t' client err ht => ?_⟩
  · rcases threadStep_client h with heq | ⟨_, -, rfl, -⟩
    · exact hs.client client (heq ▸ hc)
    · cases hc
  · rw [setThread_threads] at ht
    split at ht
    · subst ht
      rcases threadStep_connected h with ⟨rfl, rfl⟩ | ⟨c, rfl, rfl⟩
      · exact ⟨rfl, hs.client⟩
      · exact ⟨(hatt c).err, fun cl hcl => by cases hcl⟩
    · exact hs.result t' client err ht

theorem step_honest {a : Action} (hs : s.Honest env)
    (hatt : ∀ c, (s.core.connectors c).Attempt (env.connector c)) (h : step env s a = some u) :
    u.Honest env := by
  have hset : ∀ (d : Core) t pc, d.client = s.core.client → (∀ r, pc ≠ .returned r) →
      ({ s with core := d }.setThread t pc).Honest env := by
    intro d t pc hd hpc
    refine ⟨fun client hc => hs.client client (hd ▸ hc), fun t' client err ht => ?_⟩
    rw [setThread_threads] at ht
    split at ht
    · exact (hpc _ ht).elim
    · exact hs.result t' client err ht
  cases a with
  | call t e =>
    obtain ⟨-, rfl⟩ := step_call h
    exact hset s.core t e.pc rfl (by cases e <;> simp [Entry.pc])
  | thread t o =>
    obtain ⟨d, pc, hc, rfl⟩ := step_thread h
    exact thread_honest hs hatt hc
  | serve t c sid inp =>
    obtain ⟨-, -, k, -, rfl⟩ := step_serve h
    exact hset _ t _ rfl (by simp)
  | connector c b =>
    obtain ⟨-, -, k, -, rfl⟩ := step_connector h
    refine ⟨fun client hcl => ?_, hs.result⟩
    by_cases hi : ∃ i, b = .connect ∧ (s.core.connectors c).connect = .setClient i
    · obtain ⟨i, rfl, hi⟩ := hi
      have hplace := (hatt c).place
      rw [hi] at hplace
      obtain rfl : (⟨c, i⟩ : SSHClient) = client := by simpa [Core.outside, hi] using hcl
      rw [Env.firstClient, hplace.2]
      rfl
    · have hf := outside_fields env fun i hb h => hi ⟨i, hb, h⟩
      exact hs.client client (hf.1 ▸ hcl)

theorem connector_attempt {G : State → Action → Prop} (h : Run (step env) G (init env) s) (c : ℕ) :
    (s.core.connectors c).Attempt (env.connector c) := by
  obtain ⟨b, hr⟩ := connector_reached h c
  exact Connector.reach_attempt hr

theorem run_honest {G : State → Action → Prop} (h : Run (step env) G (init env) s) :
    s.Honest env := by
  refine h.invariant_under (P := State.Honest env)
    (Q := fun s => ∀ c, (s.core.connectors c).Attempt (env.connector c))
    (fun _ hp => connector_attempt hp) ?_ ?_
  · exact ⟨fun _ h => (by cases h), fun _ _ _ h => (by cases h)⟩
  · intro t a u hq hs _ he
    exact step_honest hs hq he

theorem run_served (h : Run (step env) (Steady env) (init env) s) : s.Served env := by
  refine h.invariant_under (P := State.Served env) (Q := fun s => s.Exclusive ∧ s.Honest env ∧
    ∀ c, (s.core.connectors c).Attempt (env.connector c))
    (fun _ hp => ⟨run_exclusive hp, run_honest hp, connector_attempt hp⟩) (fun _ => trivial) ?_
  intro t a u hq hs hg he
  exact step_served hs hq.1 hq.2.1 hq.2.2 hg he

end Steps

/-- No call is running, the lock is free and the dialer has neither a client nor
an attempt. -/
structure State.Fresh (s : State) : Prop where
  threads : ∀ t, (s.threads t).atRest = true
  readers : s.core.readers = []
  writer : s.core.writer = none
  client : s.core.client = none
  pointer : s.core.sshConnector = none

section Return

variable {env : Env} {s : State} {t : ℕ}

/-- One step of the thread `t`, in a place where it joins no attempt and clears
no client. -/
theorem thread_run {r : State} {d : Core} {pc : Pc} (d' : Core) (pc' : Pc)
    (h : Run (step env) (Steady env) r ({ s with core := d }.setThread t pc))
    (hj : ∀ k c, pc = .getUnlock (.connect k) (some c) → Joins env d c)
    (hpc : (∀ k, pc ≠ .getHeld (.connect k)) ∧ ∀ client, pc ≠ .dialClear client)
    (hstep : threadStep env t .ok d pc = some (d', pc')) :
    Run (step env) (Steady env) r ({ s with core := d' }.setThread t pc') := by
  have hself : ({ s with core := d }.setThread t pc).threads t = pc := by
    rw [setThread_threads, if_pos rfl]
  refine .tail h (a := .thread t .ok) ⟨fun k c hk => ?_, fun k c hk => ?_, fun client hk => ?_⟩ ?_
  · exact (hpc.1 k (hself ▸ hk)).elim
  · exact hj k c (hself ▸ hk)
  · exact (hpc.2 client (hself ▸ hk)).elim
  · simp only [step, hself]
    show Option.map _ (threadStep env t .ok d pc) = _
    rw [hstep]
    simp [State.setThread]

theorem connect_starts (env : Env) (t : ℕ) (hs : s.Fresh) :
    ∃ d, Run (step env) (Steady env) s ({ s with core := d }.setThread t
        (.getUnlock (.connect .api) (some s.core.created))) ∧
      d.started s.core.created = true ∧
      d.connectors s.core.created = Connector.init (env.connector s.core.created) false := by
  have h0 : Run (step env) (Steady env) s
      ({ s with core := s.core }.setThread t (.connectRLock .api)) :=
    .tail .refl (a := .call t .connect) trivial (by simp only [step, hs.threads t, if_true]; rfl)
  have h1 := thread_run { s.core with readers := [t] } (.connectTest .api) h0 (by simp) (by simp)
    (by simp [threadStep, Core.rLock, hs.writer, hs.readers])
  have h2 := thread_run { s.core with readers := [t] } (.connectRUnlock .api) h1 (by simp)
    (by simp) (by simp [threadStep, hs.client])
  have h3 := thread_run { s.core with readers := [] } (.getRLock (.connect .api)) h2 (by simp)
    (by simp) (by simp [threadStep, Core.rUnlock])
  have h4 := thread_run { s.core with readers := [t] } (.getTest (.connect .api)) h3 (by simp)
    (by simp) (by simp [threadStep, Core.rLock, hs.writer])
  have h5 := thread_run { s.core with readers := [t] } (.getRUnlock (.connect .api)) h4 (by simp)
    (by simp) (by simp [threadStep, hs.pointer])
  have h6 := thread_run { s.core with readers := [] } (.getLock (.connect .api)) h5 (by simp)
    (by simp) (by simp [threadStep, Core.rUnlock])
  have h7 := thread_run { s.core with readers := [], writer := some t } (.getNew (.connect .api))
    h6 (by simp) (by simp) (by simp [threadStep, Core.lock, hs.writer])
  have h8 := thread_run _ _ h7 (by simp) (by simp) rfl
  have h9 := thread_run _ _ h8 (by simp) (by simp) rfl
  have h10 := thread_run _ _ h9 (by simp) (by simp) rfl
  exact ⟨_, h10, by simp, by simp [GetCaller.interactive]⟩

theorem connect_enters (hs : s.Fresh) (hf : env.firstClient s.core.created ≠ none) :
    ∃ d, Run (step env) (Steady env) s
        ({ s with core := d }.setThread t (.loop .api s.core.created)) ∧
      d.started s.core.created = true ∧
      d.connectors s.core.created =
        (Connector.init (env.connector s.core.created) false).setThread t (.done1 .connect) := by
  obtain ⟨d, hp, hst, hcon⟩ := connect_starts env t hs
  have hj : ∀ k c, Pc.getUnlock (.connect .api) (some s.core.created) =
      .getUnlock (.connect k) (some c) → Joins env d c := by
    intro k c hk
    cases hk
    refine ⟨hf, fun hsome => ?_⟩
    rw [hcon] at hsome
    cases hsome
  have hstep : d.unlock.stepConnector env s.core.created (.connectLoop t) =
      some { d.unlock with
        connectors := Function.update d.connectors s.core.created
          ((Connector.init (env.connector s.core.created) false).setThread t
            (.done1 .connect)) } := by
    simp [Core.stepConnector, Core.unlock, hcon, Connector.step, Connector.init,
      Connector.ThreadPc.atRest]
  have hlast := thread_run _ _ hp hj (by simp) (by simp only [threadStep, afterGet, hstep]; rfl)
  exact ⟨_, hlast, hst, by simp⟩

theorem loop_ends {m : State} {k : Caller} {c : ℕ}
    (hatt : (m.core.connectors c).Attempt (env.connector c))
    (hund : (m.core.connectors c).Undisturbed) (hst : m.core.started c = true)
    (hpt : ∀ t', (m.threads t').pointing = false) (hpc : m.threads t = .loop k c)
    (hloop : (m.core.connectors c).threads t = .done1 .connect) :
    ∃ u, Run (step env) (Steady env) m u ∧ u.threads t = .loop k c ∧
      (u.core.connectors c).threads t = .exited := by
  have hsteady : ∀ (m' : State) (b : Connector.Action), m'.threads = m.threads →
      b.connects = true → internal b = true ∧ Steady env m' (.connector c b) := by
    intro m' b hth hb
    cases b with
    | connect => exact ⟨rfl, fun _ t' => by rw [hth]; exact hpt t'⟩
    | unlock => exact ⟨rfl, trivial⟩
    | _ => cases hb
  obtain ⟨k₁, hk₁, hund₁, hdone, hth₁⟩ := Connector.attempt_completes hatt hund
  obtain ⟨m₁, hm₁, rfl, hst₁, ht₁⟩ := run_of_connector (G := Steady env) hsteady hst hk₁
  obtain ⟨k₂, hk₂, hex⟩ := Connector.loop_exits (env.connector c) hund₁.lock
    (hund₁.status (by rw [hdone]; rfl)) (by rw [hth₁, hloop])
  obtain ⟨m₂, hm₂, rfl, -, ht₂⟩ := run_of_connector (G := Steady env)
    (fun m' b _ hb => by rw [hb]; exact ⟨rfl, trivial⟩) hst₁ hk₂
  exact ⟨m₂, hm₁.trans hm₂, by rw [ht₂, ht₁, hpc], hex⟩

/-- `Connect` on a fresh dialer can return the client of its attempt. -/
theorem connect_can_return (h : Run (step env) (Steady env) (init env) s) (hs : s.Fresh)
    (hf : env.firstClient s.core.created ≠ none) (t : ℕ) :
    ∃ u client, Run (step env) (Steady env) s u ∧
      u.threads t = .returned (.connected (some client) none) ∧
      env.firstClient client.conn = some client := by
  obtain ⟨d, hp, hst, hcon⟩ := connect_enters (t := t) hs hf
  have hund : (d.connectors s.core.created).Undisturbed := by
    rw [hcon]
    exact ⟨rfl, rfl, rfl, rfl, fun hcl => by cases hcl⟩
  have hpt : ∀ t', (({ s with core := d }.setThread t (.loop .api s.core.created)).threads
      t').pointing = false := by
    intro t'
    rw [setThread_threads]
    split
    · rfl
    · have hrest := hs.threads t'
      show (s.threads t').pointing = false
      cases hpc : s.threads t' <;> rw [hpc] at hrest <;> first | rfl | cases hrest
  obtain ⟨m, hm, hpc, hex⟩ := loop_ends (connector_attempt (h.trans hp) _) hund hst hpt
    (by rw [setThread_threads, if_pos rfl]) (by
      show (d.connectors s.core.created).threads t = _
      rw [hcon]
      exact Function.update_self ..)
  have hpath : Run (step env) (Steady env) s m := hp.trans hm
  have hok := run_served (h.trans hpath) t
  rw [hpc] at hok
  have hsome : m.core.client.isSome = true :=
    loop_ok (k := .api) (connector_attempt (h.trans hpath) _) hok hex
  obtain ⟨client, hcl⟩ := Option.isSome_iff_exists.mp hsome
  have h0 : Run (step env) (Steady env) s
      ({ m with core := m.core }.setThread t (.loop .api s.core.created)) := by
    rwa [State.setThread, ← hpc, Function.update_eq_self]
  have h1 := thread_run m.core (.clientTest .api s.core.created) h0 (by simp) (by simp)
    (by simp [threadStep, hex])
  have h2 := thread_run m.core (.clientRead .api) h1 (by simp) (by simp)
    (by simp [threadStep, hcl])
  have h3 := thread_run m.core (.returned (.connected (some client) none)) h2 (by simp) (by simp)
    (by simp [threadStep, hcl, afterConnect])
  refine ⟨_, client, h3, ?_, (run_honest (h.trans hpath)).client client hcl⟩
  rw [setThread_threads, if_pos rfl]

end Return

/-- `Connect` returns the client of the first address that succeeds, and `Dial`
never dials through a nil client: in a run that is steady no thread comes to
one, nor to any other nil pointer, and on a fresh dialer `Connect` can return.
Where no address ever succeeds no `Connect` returns as it has to. -/
theorem connect_returns_first_client (env : Env) :
    (∀ s, Run (step env) (Steady env) (init env) s →
      (∀ t r, s.threads t = .returned r → r.Right env) ∧
      (∀ t, s.threads t ≠ .dialSecond none ∧ s.threads t ≠ .panicked) ∧
      (s.Fresh → env.firstClient s.core.created ≠ none → ∀ t, ∃ u client,
        Run (step env) (Steady env) s u ∧
        u.threads t = .returned (.connected (some client) none) ∧
        env.firstClient client.conn = some client)) ∧
    ((∀ c, env.firstClient c = none) → ∀ s, Reach (step env) (init env) s →
      ∀ t client err, s.threads t = .returned (.connected client err) →
        ¬Result.Right env (.connected client err)) := by
  refine ⟨fun s h => ?_, fun hnone s h t client err ht => ?_⟩
  · have hs := run_served h
    refine ⟨fun t r hr => ?_, fun t => ⟨fun hd => ?_, fun hp => ?_⟩, connect_can_return h⟩
    · have hok := hs t
      rwa [hr] at hok
    · have hok := hs t
      rw [hd] at hok
      cases hok
    · have hok := hs t
      rw [hp] at hok
      exact hok
  · obtain ⟨rfl, hcl⟩ := (run_honest h).result t client err ht
    cases client with
    | none => exact fun hright => hright.1 rfl
    | some cl => simpa [hnone] using hcl cl rfl

section Example

/-- On a daemon that has just started. -/
theorem connect_returns_client_at_start :
    ∃ u client, Run (step sampleEnv) (Steady sampleEnv) (init sampleEnv) u ∧
      u.threads 0 = .returned (.connected (some client) none) ∧
      sampleEnv.firstClient client.conn = some client := by
  have hfresh : (init sampleEnv).Fresh := ⟨fun _ => rfl, rfl, rfl, rfl, rfl⟩
  exact ((connect_returns_first_client sampleEnv).1 _ .refl).2.2 hfresh (by decide) 0

def emptyEnv : Env := { sampleEnv with addresses := fun _ => [] }

/-- The attempt `0` without addresses, up to the exit of the thread that waits
for it. -/
def emptyAttempt : List Action :=
  [.connect, .connect, .connect, .connect, .connect, .unlock, .thread 0, .thread 0].map
    (.connector 0)

/-- Without a success `Connect` returns a nil client and no error, and `Dial`
goes on with that client. -/
theorem connect_returns_nil :
    (¬∀ (env : Env) (s : State), Reach (step env) (init env) s →
      ∀ t r, s.threads t = .returned r → r.Right env) ∧
    ¬∀ (env : Env) (s : State), Reach (step env) (init env) s →
      ∀ t, s.threads t ≠ .dialSecond none := by
  constructor
  · intro hall
    obtain ⟨s, hr, hs⟩ := reach_of_check (step emptyEnv) (init emptyEnv)
      (.call 0 .connect :: steps 0 11 ++ emptyAttempt ++ steps 0 3)
      (fun s => s.threads 0 = .returned (.connected none none)) (by decide)
    exact (hall emptyEnv s hr 0 _ (of_decide_eq_true hs)).1 rfl
  · intro hall
    obtain ⟨s, hr, hs⟩ := reach_of_check (step emptyEnv) (init emptyEnv)
      (.call 0 .dial :: steps 0 14 ++ emptyAttempt ++ steps 0 3)
      (fun s => s.threads 0 = .dialSecond none) (by decide)
    exact hall emptyEnv s hr 0 (of_decide_eq_true hs)

end Example

end SshTunnel.Daemon
