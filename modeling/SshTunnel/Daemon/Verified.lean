import SshTunnel.Daemon.Discard
import SshTunnel.Daemon.KnownHosts

/-!
# The hosts that are dialled through (`dialer/sshdialer.go:161-210`, `324-404`)

Connections go through the clients that `connect` makes. `ssh.NewClientConn`
gives a connection only after the host key callback has returned nil for the
host, so the host of every client was in `known_hosts` when the daemon started,
or a user has accepted its key.
-/

namespace SshTunnel.Connector

open Lib.Runs
open Lib.Net (Text)

/-- The host key callback has returned nil for a key of the `i`-th address. -/
def State.Attested (env : Env) (s : State) (i : ℕ) : Prop :=
  ∃ id key, .called id (env.host i) key ∈ s.sh.log ∧ .returned id true ∈ s.sh.log

/-- The handshake with the first address that succeeds is over. -/
def ConnectPc.shaken : ConnectPc → Bool
  | .printHandshakeSucceeded .. | .setClient _ => true
  | pc => pc.ended

section Steps

variable {env : Env} {s u : State} {a : Action}

theorem State.Attested.step {i : ℕ} (hi : s.Attested env i) (h : step env s a = some u) :
    u.Attested env i := by
  obtain ⟨id, key, hc, hr⟩ := hi
  exact ⟨id, key, step_log_mono h hc, step_log_mono h hr⟩

/-- `connect` comes out of the loop through a successful handshake, or behind the
last address. -/
theorem connectStep_shaken {calm : Bool} {sh sh' : Shared} {pc pc' : ConnectPc}
    (hs : AttemptOk env sh.client pc) (h : connectStep env calm sh pc = some (sh', pc'))
    (hpc' : pc'.shaken = true) :
    pc.shaken = true ∨ env.firstSuccess = none ∨
      ∃ i user, pc = .newClientConn i user ∧ env.newClientConn i = none ∧
        env.firstSuccess = some i := by
  cases pc with
  | loop i user =>
    simp only [connectStep] at h
    split at h
    · rename_i hnone
      exact .inr (.inl (firstSuccess_none hs.2 (List.getElem?_eq_none_iff.mp hnone)))
    · obtain ⟨_, -, he⟩ := Option.map_eq_some_iff.mp h
      cases he
      cases hpc'
  | dialTimeout i user =>
    simp only [connectStep] at h
    split at h <;> cases h <;> cases hpc'
  | newClientConn i user =>
    simp only [connectStep] at h
    split at h
    · obtain ⟨-, hf, hlt, hd⟩ := hs
      split at h
      · cases h
        cases hpc'
      · rename_i hn
        refine .inr (.inr ⟨i, user, rfl, hn, firstSuccess_of_fails hf hlt ?_⟩)
        simp [Env.succeeds, hd, hn]
    · cases h
  | printDialFailed | printHandshakeFailed =>
    obtain ⟨_, -, he⟩ := Option.map_eq_some_iff.mp h
    cases he
    cases hpc'
  | setConnecting | setHandshake =>
    cases h
    cases hpc'
  | done => cases h
  | _ => exact .inl rfl

/-- Nobody may be asked, and nobody has been. -/
structure State.Silent (s : State) : Prop where
  interactive : s.sh.interactive = false
  untested : ∀ id, .tested id true ∉ s.sh.log

theorem step_interactive (h : step env s a = some u) (ha : a ≠ .setInteractive) :
    u.sh.interactive = s.sh.interactive := by
  cases a with
  | connect =>
    obtain ⟨-, sh, pc, hc, rfl⟩ := step_connect h
    obtain ⟨_, _, _, _, _, rfl, -⟩ := connectStep_frame hc
    rfl
  | banner msg =>
    obtain ⟨-, -, rfl⟩ := step_banner h
    rfl
  | hostKeyCall hostname key =>
    obtain ⟨-, -, rfl⟩ := step_hostKeyCall h
    rw [hostKeyCall_frame]
  | hostKey written =>
    obtain ⟨-, sh, pc, hc, rfl⟩ := step_hostKey h
    cases hostKeyStep_move hc <;> rfl
  | passwordCall =>
    obtain ⟨-, -, rfl⟩ := step_passwordCall h
    rfl
  | password =>
    obtain ⟨-, sh, pc, hc, rfl⟩ := step_password h
    cases passwordStep_move hc <;> rfl
  | request t sid inp =>
    obtain ⟨-, rfl⟩ := step_request h
    rfl
  | connectLoop t =>
    obtain ⟨-, rfl⟩ := step_connectLoop h
    rfl
  | thread t =>
    obtain ⟨-, sh, pc, hc, rfl⟩ := step_thread h
    cases threadStep_move hc <;> rfl
  | setInteractive => exact (ha rfl).elim
  | send w =>
    obtain ⟨b, ch, rest, -, -, rfl⟩ := step_send h
    rw [wake_sh]
  | unlock =>
    obtain ⟨b, -, rfl⟩ := step_unlock h
    rfl

theorem State.Silent.step (hs : s.Silent) (h : step env s a = some u) (ha : a ≠ .setInteractive) :
    u.Silent := by
  refine ⟨(step_interactive h ha).trans hs.interactive, fun id ht => ?_⟩
  rcases step_tested h ht with hold | ⟨_, _, -, -, -, hi⟩
  · exact hs.untested id hold
  · exact Bool.false_ne_true (hs.interactive.symm.trans hi)

end Steps

end SshTunnel.Connector

namespace SshTunnel.Daemon

open Lib.Runs
open Lib.Net (Text)
open Connector (Granted)

/-- What `ssh.NewClientConn` documents: it returns a connection only after the
host key callback has accepted a key for the address. -/
def Verifies (env : Env) (s : State) : Action → Prop
  | .connector c .connect => ∀ i user, (s.core.connectors c).connect = .newClientConn i user →
      env.newClientConn c i = none → (s.core.connectors c).Attested (env.connector c) i
  | _ => True

/-- The clients that a thread dials through or has returned. -/
def Pc.client : Pc → Option SSHClient
  | .dialRUnlock client | .dialSecond client | .returned (.connected client _) => client
  | .dialFirst client | .dialLock client | .dialClear client => some client
  | _ => none

/-- A key of the host of the client was presented that `known_hosts` listed when
the daemon started, or the host was unknown and a user has accepted the key. -/
def Core.Verified (env : Env) (d : Core) (client : SSHClient) : Prop :=
  ∃ id key, .called id ((env.connector client.conn).host client.addr) key ∈ d.log client.conn ∧
    (key ∈ env.keysOf env.knownHosts ((env.connector client.conn).host client.addr) ∨
      Granted (env.connector client.conn) (d.log client.conn)
        ⟨id, (env.connector client.conn).host client.addr, key⟩)

/-- The connector of the client has finished its attempt with it. -/
structure Core.Finished (env : Env) (d : Core) (client : SSHClient) : Prop where
  made : d.Made client
  first : env.firstClient client.conn = some client

structure State.Vouched (env : Env) (s : State) : Prop where
  shaken : ∀ c i, (s.core.connectors c).connect.shaken = true →
    (env.connector c).firstSuccess = some i → (s.core.connectors c).Attested (env.connector c) i
  held : ∀ t client, (s.threads t).client = some client → s.core.Finished env client

section Steps

variable {env : Env} {s u : State} {a : Action} {t : ℕ} {client : SSHClient}

theorem newKnownHosts_ok {hostname : Text} {key : Connector.PublicKey} {lines : List Line}
    (h : env.newKnownHosts lines hostname key = .ok) : key ∈ env.keysOf lines hostname := by
  simp only [Env.newKnownHosts] at h
  split at h
  · assumption
  · cases h

theorem afterConnect_client {cl : Option SSHClient} {err : Option Text} {k : Caller}
    (h : (afterConnect cl err k).client = some client) : cl = some client := by
  cases k with
  | api => exact h
  | dial => cases err <;> first | exact h | cases h

/-- A thread gets its client from the field, or has it already. -/
theorem threadStep_holds {o : DialOutcome} {d d' : Core} {pc pc' : Pc}
    (h : threadStep env t o d pc = some (d', pc')) (hc : pc'.client = some client) :
    pc.client = some client ∨ d.client = some client := by
  cases pc with
  | dialRead =>
    cases h
    exact .inr hc
  | connectHeld k | clientRead k =>
    simp only [threadStep, Option.some.injEq, Prod.mk.injEq] at h
    rw [← h.2] at hc
    exact .inr (afterConnect_client hc)
  | errRead k c =>
    simp only [threadStep, Option.some.injEq, Prod.mk.injEq] at h
    rw [← h.2] at hc
    cases afterConnect_client hc
  | dialRUnlock cl =>
    cases cl <;> cases h
    · cases hc
    · exact .inl hc
  | dialFirst cl =>
    cases o <;> cases h <;> first | exact .inl hc | cases hc
  | dialLock cl =>
    obtain ⟨_, -, he⟩ := Option.map_eq_some_iff.mp h
    cases he
    exact .inl hc
  | dialSecond cl => cases cl <;> cases h <;> cases hc
  | dialRLock | connectRLock | getRLock | getLock =>
    obtain ⟨_, -, he⟩ := Option.map_eq_some_iff.mp h
    cases he
    cases hc
  | getHeld g | getUnlock g c =>
    rcases afterGet_cases h with ⟨-, rfl | rfl⟩ | ⟨_, _, _, -, -, rfl, -, -⟩ <;> cases hc
  | getInteractive g =>
    simp only [threadStep] at h
    split at h
    · cases h
      cases hc
    · obtain ⟨_, -, he⟩ := Option.map_eq_some_iff.mp h
      cases he
      cases hc
  | connectTest | clientTest | getTest | getGo | loop | serving => grind [threadStep, Pc.client]
  | idle | returned | panicked => cases h
  | _ =>
    cases h
    cases hc

theorem step_holds (h : step env s a = some u) (hc : (u.threads t).client = some client) :
    (s.threads t).client = some client ∨ s.core.client = some client := by
  cases a with
  | call t' e =>
    obtain ⟨-, rfl⟩ := step_call h
    rw [setThread_threads] at hc
    split at hc
    · cases e <;> cases hc
    · exact .inl hc
  | thread t' o =>
    obtain ⟨d, pc, hstep, rfl⟩ := step_thread h
    rw [setThread_threads] at hc
    split at hc
    · rename_i ht
      subst ht
      exact threadStep_holds hstep hc
    · exact .inl hc
  | serve t' c sid inp =>
    obtain ⟨-, -, k, -, rfl⟩ := step_serve h
    rw [setThread_threads] at hc
    split at hc
    · cases hc
    · exact .inl hc
  | connector c b =>
    obtain ⟨-, -, k, -, rfl⟩ := step_connector h
    exact .inl hc

theorem Core.Finished.step (hf : s.core.Finished env client) (h : step env s a = some u) :
    u.core.Finished env client :=
  ⟨step_made hf.made h, hf.first⟩

theorem connector_shaken {c : ℕ} {b : Connector.Action} {k : Connector.State} {i : ℕ}
    (hatt : (s.core.connectors c).Attempt (env.connector c)) (hs : s.Vouched env)
    (hg : b = .connect → Verifies env s (.connector c .connect))
    (hk : Connector.step (env.connector c) (s.core.connectors c) b = some k)
    (hsh : k.connect.shaken = true) (hi : (env.connector c).firstSuccess = some i) :
    k.Attested (env.connector c) i := by
  refine Connector.State.Attested.step ?_ hk
  by_cases hb : b = .connect
  · subst hb
    obtain ⟨-, sh, pc, hc, rfl⟩ := Connector.step_connect hk
    rcases Connector.connectStep_shaken hatt.place hc hsh with hold | hnone | ⟨j, user, hpc, hn, hj⟩
    · exact hs.shaken c i hold hi
    · cases hnone.symm.trans hi
    · obtain rfl : j = i := Option.some.inj (hj.symm.trans hi)
      exact hg rfl j user hpc hn
  · rw [(Connector.step_attempt_frame hk hb).1] at hsh
    exact hs.shaken c i hsh hi

theorem step_vouched (hatt : ∀ c, (s.core.connectors c).Attempt (env.connector c))
    (hmade : ∀ client, s.core.client = some client → s.core.Finished env client)
    (hs : s.Vouched env) (hg : Verifies env s a) (h : step env s a = some u) : u.Vouched env := by
  constructor
  · have hupd : ∀ (c : ℕ) b k,
        Connector.step (env.connector c) (s.core.connectors c) b = some k →
        (b = .connect → Verifies env s (.connector c .connect)) →
        u.core.connectors = Function.update s.core.connectors c k → ∀ c' i,
          (u.core.connectors c').connect.shaken = true →
          (env.connector c').firstSuccess = some i →
          (u.core.connectors c').Attested (env.connector c') i := by
      intro c b k hk hb hu c' i hsh hi
      rw [hu, Function.update_apply] at hsh ⊢
      split
      · rename_i hc
        rw [if_pos hc] at hsh
        subst hc
        exact connector_shaken (hatt c') hs hb hk hsh hi
      · rename_i hc
        rw [if_neg hc] at hsh
        exact hs.shaken c' i hsh hi
    rcases step_move h with hm | ⟨c, b, rfl⟩
    · cases hm.connectors with
      | keep hk => exact hk ▸ hs.shaken
      | step c b k hk hu _ hb =>
        refine hupd c b k hk (fun he => ?_) hu
        rw [he] at hb
        cases hb
      | new b hu =>
        intro c i hsh hi
        rw [hu, Function.update_apply] at hsh ⊢
        split
        · rename_i hc
          rw [if_pos hc] at hsh
          cases hsh
        · rename_i hc
          rw [if_neg hc] at hsh
          exact hs.shaken c i hsh hi
    · obtain ⟨-, -, k, hk, rfl⟩ := step_connector h
      refine hupd c b k hk (fun he => he ▸ hg) ?_
      rw [(outside_connectors env s.core c b).1]
  · intro t client hc
    rcases step_holds h hc with hold | hold
    · exact (hs.held t client hold).step h
    · exact (hmade client hold).step h

theorem run_finished {G : State → Action → Prop} (h : Run (step env) G (init env) s)
    (hc : s.core.client = some client) : s.core.Finished env client :=
  ⟨reach_client_made (h.mono fun _ _ _ => trivial) hc, (run_honest h).client client hc⟩

theorem run_vouched (h : Run (step env) (Verifies env) (init env) s) : s.Vouched env := by
  refine h.invariant_under (P := State.Vouched env)
    (Q := fun s => (∀ c, (s.core.connectors c).Attempt (env.connector c)) ∧
      ∀ client, s.core.client = some client → s.core.Finished env client)
    (fun _ hr => ⟨connector_attempt hr, fun _ => run_finished hr⟩) ?_ ?_
  · exact ⟨fun _ _ hsh => (by cases hsh), fun _ _ hc => (by cases hc)⟩
  · intro m a u hq hs hg he
    exact step_vouched hq.1 hq.2 hs hg he

/-- The answer nil of the callback, read off the log of the connector. -/
theorem verified_of_finished (hlog : (s.core.connectors client.conn).Logged
      (env.connector client.conn)) (hs : s.Vouched env) (hf : s.core.Finished env client) :
    s.core.Verified env client := by
  have hsh : (s.core.connectors client.conn).connect.shaken = true := by
    have hend := hf.made.2
    cases hp : (s.core.connectors client.conn).connect <;> rw [hp] at hend <;>
      first | exact hend | cases hend
  have hi : (env.connector client.conn).firstSuccess = some client.addr := by
    obtain ⟨j, hj, he⟩ := Option.map_eq_some_iff.mp hf.first
    rw [← he]
    exact hj
  obtain ⟨id, key, hc, hr⟩ := hs.shaken client.conn client.addr hsh hi
  refine ⟨id, key, hc, ?_⟩
  exact ((hlog.history.returned id _ key true hc hr).1.mp rfl).imp_left newKnownHosts_ok

end Steps

/-- The client in the field and every client that a thread has read, dials through
or returns is one of a verified host. -/
theorem dials_verified_hosts {env : Env} {s : State}
    (h : Run (step env) (Verifies env) (init env) s) :
    (∀ client, s.core.client = some client → s.core.Verified env client) ∧
    ∀ t client, (s.threads t).client = some client → s.core.Verified env client := by
  have hs := run_vouched h
  constructor
  · intro client hc
    exact verified_of_finished (connector_logged h _) hs (run_finished h hc)
  · intro t client hc
    exact verified_of_finished (connector_logged h _) hs (hs.held t client hc)

def verifies (env : Env) (s : State) : Action → Bool
  | .connector c .connect =>
    match (s.core.connectors c).connect with
    | .newClientConn i _ => (s.core.log c).any fun
      | .called id hostname _ =>
        hostname = (env.connector c).host i && .returned id true ∈ s.core.log c
      | _ => false
    | _ => true
  | _ => true

theorem verifies_sound {env : Env} {s : State} {a : Action} (h : verifies env s a = true) :
    Verifies env s a := by
  unfold Verifies
  split
  · intro i user hpc _
    simp only [verifies, hpc, List.any_eq_true] at h
    obtain ⟨e, he, hp⟩ := h
    cases e with
    | called id hostname key =>
      simp only [Bool.and_eq_true, decide_eq_true_eq] at hp
      obtain ⟨rfl, hr⟩ := hp
      exact ⟨id, key, he, hr⟩
    | _ => cases hp
  · trivial

/-- A host that `known_hosts` does not list and whose login is accepted. -/
def guestEnv : Env := { sampleEnv with knownHosts := [] }

/-- The user accepts the key of an unknown host; the client is verified by that. -/
theorem accepted_host_verified :
    ∃ s, Run (step guestEnv) (Verifies guestEnv) (init guestEnv) s ∧
      s.core.client = some ⟨0, 0⟩ ∧ s.core.Verified guestEnv ⟨0, 0⟩ := by
  obtain ⟨s, hs, hp⟩ := (Option.any_eq_true ..).mp
    (show (exec (guarded (verifies guestEnv) (step guestEnv)) (init guestEnv)
      (toPrompt 0 ++ connectorSteps 0 [.unlock] ++ [.serve 1 0 0 ⟨[], some true⟩] ++
        connectorSteps 0 [.thread 1, .thread 1, .unlock, .hostKey true, .hostKey true,
          .hostKey true, .hostKey true, .unlock, .hostKey true, .connect, .connect, .unlock,
          .connect])).any
        (fun s => s.core.client = some ⟨0, 0⟩) = true by decide)
  have hpath : Run (step guestEnv) (Verifies guestEnv) (init guestEnv) s :=
    run_of_exec (I := fun _ => True) (fun _ _ _ _ _ _ => trivial)
      (fun _ _ _ => verifies_sound) trivial hs
  have hc := of_decide_eq_true hp
  exact ⟨s, hpath, hc, (dials_verified_hosts hpath).1 _ hc⟩

section Unattended

variable {env : Env} {s u : State} {a : Action} {t : ℕ}

/-- No `connect` command has been started: only it asks for an interactive connector. -/
def Unattended (_ : State) : Action → Prop
  | .call _ e => e ≠ .getConnector true
  | _ => True

/-- The place of a call of `GetConnector` that is not interactive, or of another call. -/
def Pc.passive : Pc → Bool
  | .getRLock g | .getTest g | .getHeld g | .getRUnlock g | .getLock g | .getNew g | .getGo g
  | .getReturn g | .getUnlock g _ => !g.interactive
  | .getInteractive _ => false
  | _ => true

structure State.Silent (s : State) : Prop where
  connectors : ∀ c, (s.core.connectors c).Silent
  threads : ∀ t, (s.threads t).passive = true

theorem silent_update {d : Core} {c : ℕ} {k : Connector.State}
    (hd : ∀ c, (d.connectors c).Silent) (hk : k.Silent) (c' : ℕ) :
    (Function.update d.connectors c k c').Silent := by
  rw [Function.update_apply]
  split
  · exact hk
  · exact hd c'

theorem init_silent (env : Env) (c : ℕ) : (Connector.init (env.connector c) false).Silent :=
  ⟨rfl, fun _ ht => (by cases ht)⟩

theorem afterGet_passive {d d' : Core} {c : Option ℕ} {g : GetCaller} {pc : Pc}
    (h : afterGet env t d c g = some (d', pc)) : pc.passive = true := by
  rcases afterGet_cases h with ⟨-, rfl | rfl⟩ | ⟨_, _, _, -, -, rfl, -, -⟩ <;> rfl

theorem threadStep_passive {o : DialOutcome} {d d' : Core} {pc pc' : Pc}
    (hpc : pc.passive = true) (h : threadStep env t o d pc = some (d', pc')) :
    pc'.passive = true := by
  cases pc with
  | idle | returned | panicked => cases h
  | dialRLock | connectRLock | getRLock | dialLock | getLock =>
    obtain ⟨_, -, he⟩ := Option.map_eq_some_iff.mp h
    cases he
    exact hpc
  | dialRUnlock client => cases client <;> cases h <;> rfl
  | dialFirst client => cases o <;> cases h <;> rfl
  | dialSecond client => cases client <;> cases h <;> rfl
  | connectTest k | clientTest k c =>
    cases h
    split <;> rfl
  | connectHeld k | clientRead k | errRead k c =>
    simp only [threadStep, Option.some.injEq, Prod.mk.injEq] at h
    rcases afterConnect_cases _ _ k with ⟨r, hr⟩ | ⟨c, hr⟩ <;> rw [← h.2, hr] <;> rfl
  | getTest g =>
    -- the branch of an interactive call is not taken
    have hg : g.interactive = false := by simpa [Pc.passive] using hpc
    simp only [threadStep, hg, Bool.false_eq_true, if_false, Option.some.injEq,
      Prod.mk.injEq] at h
    rw [← h.2]
    split <;> exact hpc
  | getInteractive g => cases hpc
  | getHeld g | getUnlock g c => exact afterGet_passive h
  | getGo g =>
    simp only [threadStep] at h
    split at h <;> cases h
    · rfl
    · exact hpc
  | loop k c | serving c =>
    simp only [threadStep, Option.ite_none_right_eq_some, Option.some.injEq] at h
    cases h.2
    rfl
  | _ =>
    cases h
    exact hpc

theorem threadStep_silent {o : DialOutcome} {d d' : Core} {pc pc' : Pc}
    (hd : ∀ c, (d.connectors c).Silent) (hpc : pc.passive = true)
    (h : threadStep env t o d pc = some (d', pc')) (c : ℕ) : (d'.connectors c).Silent := by
  cases threadStep_connectors h with
  | keep hk => exact hk ▸ hd c
  | loop c' k hk hu => exact hu ▸ silent_update hd ((hd c').step hk (by simp)) c
  | interactive g hg =>
    rw [hg] at hpc
    cases hpc
  | new g hg hu =>
    rw [hg] at hpc
    have hinter : g.interactive = false := by simpa [Pc.passive] using hpc
    rw [hinter] at hu
    exact hu ▸ silent_update hd (init_silent env _) c

theorem step_silent (hs : s.Silent) (hg : Unattended s a) (h : step env s a = some u) :
    u.Silent := by
  have hset : ∀ (d : Core) t pc, (∀ c, (d.connectors c).Silent) → pc.passive = true →
      ({ s with core := d }.setThread t pc).Silent := by
    intro d t pc hd hpc
    refine ⟨hd, fun t' => ?_⟩
    rw [setThread_threads]
    split
    · exact hpc
    · exact hs.threads t'
  cases a with
  | call t e =>
    obtain ⟨-, rfl⟩ := step_call h
    refine hset s.core t e.pc hs.connectors ?_
    cases e with
    | getConnector interactive =>
      cases interactive with
      | false => rfl
      | true => exact (hg rfl).elim
    | _ => rfl
  | thread t o =>
    obtain ⟨d, pc, hc, rfl⟩ := step_thread h
    exact hset d t pc (threadStep_silent hs.connectors (hs.threads t) hc)
      (threadStep_passive (hs.threads t) hc)
  | serve t c sid inp =>
    obtain ⟨-, -, k, hk, rfl⟩ := step_serve h
    exact hset _ t _ (silent_update hs.connectors ((hs.connectors c).step hk (by simp))) rfl
  | connector c b =>
    obtain ⟨-, hb, k, hk, rfl⟩ := step_connector h
    refine ⟨fun c' => ?_, hs.threads⟩
    show (Function.update (s.core.outside env c b).connectors c k c').Silent
    rw [(outside_connectors env s.core c b).1]
    refine silent_update hs.connectors ((hs.connectors c).step hk ?_) c'
    intro he
    rw [he] at hb
    cases hb

theorem run_silent {G : State → Action → Prop} (hG : ∀ s a, G s a → Unattended s a)
    (h : Run (step env) G (init env) s) : s.Silent := by
  refine h.invariant (P := State.Silent) ⟨fun c => init_silent env c, fun _ => rfl⟩ ?_
  intro m a u hs hg he
  exact step_silent hs (hG m a hg) he

end Unattended

/-- A daemon that only serves proxies and answers no `connect` command has clients
of no other hosts than those listed in `known_hosts` when it started. -/
theorem unattended_clients_known {env : Env} {s : State}
    (h : Run (step env) (fun s a => Verifies env s a ∧ Unattended s a) (init env) s) :
    ∀ client, s.core.client = some client ∨ (∃ t, (s.threads t).client = some client) →
      ∃ id key, .called id ((env.connector client.conn).host client.addr) key ∈
          s.core.log client.conn ∧
        key ∈ env.keysOf env.knownHosts ((env.connector client.conn).host client.addr) := by
  intro client hclient
  have hv : s.core.Verified env client := by
    have hall := dials_verified_hosts (h.mono fun _ _ hg => hg.1)
    rcases hclient with hc | ⟨t, hc⟩
    · exact hall.1 client hc
    · exact hall.2 t client hc
  obtain ⟨id, key, hc, hk⟩ := hv
  refine ⟨id, key, hc, hk.resolve_right fun hgranted => ?_⟩
  have hsilent := run_silent (fun _ _ hg => hg.2) h
  exact (hsilent.connectors client.conn).untested id hgranted.interactive

def unattended : Action → Bool
  | .call _ e => e ≠ .getConnector true
  | _ => true

theorem unattended_sound {s : State} {a : Action} (h : unattended a = true) : Unattended s a := by
  cases a with
  | call t e =>
    intro he
    simp [unattended, he] at h
  | _ => trivial

theorem dialled_host_known :
    ∃ s, Run (step sampleEnv) (fun s a => Verifies sampleEnv s a ∧ Unattended s a)
      (init sampleEnv) s ∧ s.core.client = some ⟨0, 0⟩ ∧
      ∃ id key, .called id ((sampleEnv.connector 0).host 0) key ∈ s.core.log 0 ∧
        key ∈ sampleEnv.keysOf sampleEnv.knownHosts ((sampleEnv.connector 0).host 0) := by
  obtain ⟨s, hs, hp⟩ := (Option.any_eq_true ..).mp
    (show (exec (guarded (fun s a => verifies sampleEnv s a && unattended a) (step sampleEnv))
      (init sampleEnv) (.call 0 .dial :: steps 0 14 ++ goodAttempt 0)).any
        (fun s => s.core.client = some ⟨0, 0⟩) = true by decide)
  have hpath : Run (step sampleEnv) (fun s a => Verifies sampleEnv s a ∧ Unattended s a)
      (init sampleEnv) s := by
    refine run_of_exec (I := fun _ => True) (fun _ _ _ _ _ _ => trivial) ?_ trivial hs
    intro s a _ hg
    rw [Bool.and_eq_true] at hg
    exact ⟨verifies_sound hg.1, unattended_sound hg.2⟩
  have hc := of_decide_eq_true hp
  exact ⟨s, hpath, hc, unattended_clients_known hpath _ (.inl hc)⟩

end SshTunnel.Daemon
