import SshTunnel.Daemon.Connect
import SshTunnel.Daemon.Single

/-!
# Which `Dial` discards the client (`dialer/sshdialer.go:161-192`)

`Dial` reads the client in one lock section, dials through it and, after an
error that is no `OpenChannelError`, clears the field in a later lock section.
It does not look again whose client it clears. The field loses a client through
a `Dial` that failed on this very client as long as no other one has taken its
place by then.
-/

namespace SshTunnel.Daemon

open Lib.Runs
open Lib.Net (Text)

/-- A `Dial` that is about to clear the field finds no other client there than
the one it read before. -/
def Unreplaced (s : State) : Action → Prop
  | .thread t _ => ∀ client, s.threads t = .dialClear client →
    ∀ client', s.core.client = some client' → client' = client
  | _ => True

/-- The action does not start a new call of the thread. -/
def Within (t : ℕ) (_ : State) : Action → Prop
  | .call t' _ | .serve t' .. => t' ≠ t
  | _ => True

/-- `Dial` in the thread `t` reads `client` in the step from `r` to `r'`. -/
structure Reads (env : Env) (t : ℕ) (client : SSHClient) (r r' : State) : Prop where
  place : r.threads t = .dialRead
  client : r.core.client = some client
  moves : ∃ o, step env r (.thread t o) = some r'

/-- Since the state `r`, the call running in the thread `t` has dialled through
`client` and got an error other than an `OpenChannelError`. -/
def FailedOn (env : Env) (t : ℕ) (client : SSHClient) (r s : State) : Prop :=
  ∃ f f' err, Run (step env) (Within t) r f ∧ f.threads t = .dialFirst client ∧
    step env f (.thread t (.failed err)) = some f' ∧ Run (step env) (Within t) f' s

/-- `connect` assigns `client` in the step from `m` to `m'`. -/
structure Establishes (env : Env) (client : SSHClient) (m m' : State) : Prop where
  place : (m.core.connectors client.conn).connect = .setClient client.addr
  moves : step env m (.connector client.conn .connect) = some m'

/-- The places of `Dial` up to the clearing write. -/
def Pc.dialing : Pc → Bool
  | .dialRLock | .dialRead | .dialRUnlock (some _) | .dialFirst _ | .dialLock _ | .dialClear _ => true
  | _ => false

/-- The thread has read `client`, and `P` relates the state after that to `s`. -/
def SinceRead (env : Env) (t : ℕ) (client : SSHClient) (P : State → State → Prop)
    (s : State) : Prop :=
  ∃ r r', Reach (step env) (init env) r ∧ Reads env t client r r' ∧ P r' s

/-- What the run says about a thread in `Dial`, by its place. -/
def Dialled (env : Env) (s : State) (t : ℕ) : Pc → Prop
  | .dialRUnlock (some client) | .dialFirst client =>
    SinceRead env t client (Run (step env) (Within t)) s
  | .dialLock client | .dialClear client => SinceRead env t client (FailedOn env t client) s
  | _ => True

/-- The client has been assigned by the attempt it belongs to. -/
def Core.Made (d : Core) (client : SSHClient) : Prop :=
  client.conn < d.created ∧ (d.connectors client.conn).connect.ended = true

section Steps

variable {env : Env} {s u : State} {a : Action} {t : ℕ} {client : SSHClient}

theorem threadStep_dialing {o : DialOutcome} {d d' : Core} {pc pc' : Pc}
    (h : threadStep env t o d pc = some (d', pc')) (hd : pc'.dialing = true) :
    (pc = .dialRLock ∧ pc' = .dialRead) ∨
    (pc = .dialRead ∧ pc' = .dialRUnlock d.client) ∨
    (∃ client, pc = .dialRUnlock (some client) ∧ pc' = .dialFirst client) ∨
    (∃ client err, pc = .dialFirst client ∧ o = .failed err ∧ pc' = .dialLock client) ∨
    ∃ client, pc = .dialLock client ∧ pc' = .dialClear client := by
  cases pc with
  | dialRLock | dialLock =>
    obtain ⟨_, -, he⟩ := Option.map_eq_some_iff.mp h
    cases he
    simp
  | dialRead =>
    cases h
    simp
  | dialRUnlock cl =>
    cases cl <;> cases h
    · cases hd
    · simp
  | dialFirst cl =>
    cases o <;> cases h
    · cases hd
    · cases hd
    · simp
  | connectRLock | getRLock | getLock =>
    obtain ⟨_, -, he⟩ := Option.map_eq_some_iff.mp h
    cases he
    cases hd
  | connectHeld k | clientRead k | errRead k c =>
    simp only [threadStep, Option.some.injEq, Prod.mk.injEq] at h
    rcases afterConnect_cases _ _ k with ⟨r, hr⟩ | ⟨c, hr⟩ <;> rw [← h.2, hr] at hd <;> cases hd
  | getHeld g | getUnlock g c =>
    rcases afterGet_cases h with ⟨-, rfl | rfl⟩ | ⟨_, _, _, -, -, rfl, -, -⟩ <;> cases hd
  | getInteractive g =>
    simp only [threadStep] at h
    split at h
    · cases h
      cases hd
    · obtain ⟨_, -, he⟩ := Option.map_eq_some_iff.mp h
      cases he
      cases hd
  | dialSecond cl => cases cl <;> cases h <;> cases hd
  | connectTest | clientTest | getTest | getGo | loop | serving => grind [threadStep, Pc.dialing]
  | idle | returned | panicked => cases h
  | _ =>
    cases h
    cases hd

theorem step_thread_cases (h : step env s a = some u) (t : ℕ) :
    (u.threads t = s.threads t ∧ Within t s a) ∨
    (∃ o d, a = .thread t o ∧ threadStep env t o s.core (s.threads t) = some (d, u.threads t)) ∨
    (¬Within t s a ∧ (u.threads t = .dialRLock ∨ (u.threads t).dialing = false)) := by
  cases a with
  | call t' e =>
    obtain ⟨-, rfl⟩ := step_call h
    rw [setThread_threads]
    split
    · rename_i heq
      exact .inr (.inr ⟨fun hw => hw heq.symm, by cases e <;> simp [Entry.pc, Pc.dialing]⟩)
    · rename_i hne
      exact .inl ⟨rfl, Ne.symm hne⟩
  | thread t' o =>
    obtain ⟨d, pc, hc, rfl⟩ := step_thread h
    rw [setThread_threads]
    split
    · rename_i heq
      subst heq
      exact .inr (.inl ⟨o, d, rfl, hc⟩)
    · exact .inl ⟨rfl, trivial⟩
  | serve t' c sid inp =>
    obtain ⟨-, -, k, -, rfl⟩ := step_serve h
    rw [setThread_threads]
    split
    · rename_i heq
      exact .inr (.inr ⟨fun hw => hw heq.symm, .inr rfl⟩)
    · rename_i hne
      exact .inl ⟨rfl, Ne.symm hne⟩
  | connector c b =>
    obtain ⟨-, -, k, -, rfl⟩ := step_connector h
    exact .inl ⟨rfl, trivial⟩

theorem SinceRead.extend {P : State → State → Prop} (h : SinceRead env t client P s)
    (hP : ∀ r, P r s → P r u) : SinceRead env t client P u := by
  obtain ⟨r, r', hr, hread, hp⟩ := h
  exact ⟨r, r', hr, hread, hP r' hp⟩

theorem Dialled.extend {pc : Pc} (hd : Dialled env s t pc) (hw : Within t s a)
    (h : step env s a = some u) : Dialled env u t pc := by
  have hlast : Run (step env) (Within t) s u := .tail .refl hw h
  have hread : ∀ client, SinceRead env t client (Run (step env) (Within t)) s →
      SinceRead env t client (Run (step env) (Within t)) u :=
    fun _ h => h.extend fun r hrun => hrun.trans hlast
  have hfail : ∀ client, SinceRead env t client (FailedOn env t client) s →
      SinceRead env t client (FailedOn env t client) u := by
    refine fun _ h => h.extend fun r hrun => ?_
    obtain ⟨f, f', err, hf, hp, hs, hrest⟩ := hrun
    exact ⟨f, f', err, hf, hp, hs, hrest.trans hlast⟩
  cases pc with
  | dialRUnlock cl =>
    cases cl with
    | none => trivial
    | some cl => exact hread cl hd
  | dialFirst cl => exact hread cl hd
  | dialLock cl => exact hfail cl hd
  | dialClear cl => exact hfail cl hd
  | _ => trivial

theorem Dialled.of_not_dialing {pc : Pc} (h : pc.dialing = false) : Dialled env s t pc := by
  cases pc with
  | dialRUnlock cl =>
    cases cl with
    | none => trivial
    | some cl => cases h
  | dialFirst cl | dialLock cl | dialClear cl => cases h
  | _ => trivial

theorem step_dialled (hr : Reach (step env) (init env) s)
    (hd : ∀ t, Dialled env s t (s.threads t)) (h : step env s a = some u) (t : ℕ) :
    Dialled env u t (u.threads t) := by
  rcases step_thread_cases h t with ⟨heq, hw⟩ | ⟨o, d, rfl, hc⟩ | ⟨-, hno⟩
  · rw [heq]
    exact (hd t).extend hw h
  · cases hdial : (u.threads t).dialing with
    | false => exact .of_not_dialing hdial
    | true =>
      have hold := hd t
      rcases threadStep_dialing hc hdial with ⟨-, hp'⟩ | ⟨hp, hp'⟩ | ⟨cl, hp, hp'⟩ |
        ⟨cl, err, hp, rfl, hp'⟩ | ⟨cl, hp, hp'⟩
      · rw [hp']
        trivial
      · rw [hp']
        cases hcl : s.core.client with
        | none => trivial
        | some cl => exact ⟨s, u, hr, ⟨hp, hcl, o, h⟩, .refl⟩
      · rw [hp] at hold
        rw [hp']
        exact (show Dialled env s t (.dialFirst cl) from hold).extend (a := .thread t o) trivial h
      · rw [hp] at hold
        rw [hp']
        obtain ⟨r, r', hreach, hread, hrun⟩ := hold
        exact ⟨r, r', hreach, hread, s, u, err, hrun, hp, h, .refl⟩
      · rw [hp] at hold
        rw [hp']
        exact (show Dialled env s t (.dialClear cl) from hold).extend (a := .thread t o) trivial h
  · rcases hno with hstart | hno
    · rw [hstart]
      trivial
    · exact .of_not_dialing hno

theorem reach_dialled (h : Reach (step env) (init env) s) (t : ℕ) :
    Dialled env s t (s.threads t) := by
  refine h.invariant_under (P := fun s => ∀ t, Dialled env s t (s.threads t))
    (Q := Reach (step env) (init env)) (fun _ h => h) (fun _ => trivial) ?_ t
  intro s a u hr hd _ hs
  exact step_dialled hr hd hs

/-- Only the clearing write of `Dial` takes the client away. -/
theorem step_discards (h : step env s a = some u) (hc : s.core.client = some client)
    (hn : u.core.client = none) : ∃ t o cl, a = .thread t o ∧ s.threads t = .dialClear cl := by
  cases a with
  | call t e =>
    obtain ⟨-, rfl⟩ := step_call h
    exact (Option.some_ne_none client (hc.symm.trans hn)).elim
  | thread t o =>
    obtain ⟨d, pc, ht, rfl⟩ := step_thread h
    rcases threadStep_client ht with heq | ⟨cl, hp, -, -⟩
    · exact (Option.some_ne_none client (hc.symm.trans (heq.symm.trans hn))).elim
    · exact ⟨t, o, cl, rfl, hp⟩
  | serve t c sid inp =>
    obtain ⟨-, -, k, -, rfl⟩ := step_serve h
    exact (Option.some_ne_none client (hc.symm.trans hn)).elim
  | connector c b =>
    obtain ⟨-, -, k, -, rfl⟩ := step_connector h
    by_cases hi : ∃ i, b = .connect ∧ (s.core.connectors c).connect = .setClient i
    · obtain ⟨i, rfl, hi⟩ := hi
      simp [Core.outside, hi] at hn
    · have hf := (outside_fields env (d := s.core) (b := b) fun i hb h => hi ⟨i, hb, h⟩).1
      exact (Option.some_ne_none client (hc.symm.trans (hf.symm.trans hn))).elim

/-- An attempt assigns its client once, so that a client in the field is not
assigned again. -/
theorem step_made (hm : s.core.Made client)
    (h : step env s a = some u) : u.core.Made client := by
  obtain ⟨hlt, hend⟩ := hm
  rcases step_move h with hmove | ⟨c, b, rfl⟩
  · cases hmove.connectors with
    | keep hk hc => exact ⟨hc ▸ hlt, hk ▸ hend⟩
    | step c b k hk hu hc hb =>
      refine ⟨hc ▸ hlt, ?_⟩
      have hne : b ≠ .connect := by
        rintro rfl
        cases hb
      rw [hu, update_connect hk hne]
      exact hend
    | new b hu hc =>
      refine ⟨by omega, ?_⟩
      rw [hu, Function.update_of_ne (Nat.ne_of_lt hlt)]
      exact hend
  · obtain ⟨-, -, k, hk, rfl⟩ := step_connector h
    obtain ⟨hcon, hcr, -⟩ := outside_connectors env s.core c b
    refine ⟨hcr ▸ hlt, ?_⟩
    show (Function.update (s.core.outside env c b).connectors c k client.conn).connect.ended = true
    rw [hcon, Function.update_apply]
    split
    · rename_i hc
      subst hc
      by_cases hb : b = .connect
      · subst hb
        obtain ⟨-, sh, pc, hstep, rfl⟩ := Connector.step_connect hk
        exact (Connector.connectStep_ended hstep).1 hend
      · rw [(Connector.step_attempt_frame hk hb).1]
        exact hend
    · exact hend

theorem step_client_made (hal : s.core.Allocated)
    (hs : ∀ client, s.core.client = some client → s.core.Made client)
    (h : step env s a = some u) (hc : u.core.client = some client) : u.core.Made client := by
  by_cases hsame : s.core.client = some client
  · exact step_made (hs client hsame) h
  cases a with
  | call t e =>
    obtain ⟨-, rfl⟩ := step_call h
    exact (hsame hc).elim
  | thread t o =>
    obtain ⟨d, pc, ht, rfl⟩ := step_thread h
    rcases threadStep_client ht with heq | ⟨_, -, rfl, -⟩
    · exact (hsame (heq ▸ hc)).elim
    · cases hc
  | serve t c sid inp =>
    obtain ⟨-, -, k, -, rfl⟩ := step_serve h
    exact (hsame hc).elim
  | connector c b =>
    obtain ⟨hst, -, k, hk, rfl⟩ := step_connector h
    by_cases hi : ∃ i, b = .connect ∧ (s.core.connectors c).connect = .setClient i
    · obtain ⟨i, rfl, hi⟩ := hi
      have ho : s.core.outside env c .connect = { s.core with client := some ⟨c, i⟩ } := by
        simp only [Core.outside, hi]
      obtain ⟨-, sh, pc, hstep, rfl⟩ := Connector.step_connect hk
      rw [hi] at hstep
      cases hstep
      rw [ho] at hc ⊢
      cases hc
      exact ⟨hal.started c hst, by simp [Connector.ConnectPc.ended]⟩
    · have hf := outside_fields env fun i hb h => hi ⟨i, hb, h⟩
      exact (hsame (hf.1 ▸ hc)).elim

theorem reach_client_made (h : Reach (step env) (init env) s) (hc : s.core.client = some client) :
    s.core.Made client := by
  refine h.invariant_under (P := fun s => ∀ client, s.core.client = some client →
    s.core.Made client) (Q := fun s => s.core.Allocated) (fun _ h => run_allocated h) ?_ ?_ client hc
  · intro cl hcl
    cases hcl
  · intro s a u hal hs _ he cl
    exact step_client_made hal hs he

theorem run_made {G : State → Action → Prop} {r : State} (hm : r.core.Made client)
    (h : Run (step env) G r s) : s.core.Made client :=
  h.invariant (P := fun s => s.core.Made client) hm fun _ _ _ hs _ he => step_made hs he

/-- No client that is assigned after a read is the one that was read. -/
theorem Reads.not_established {r r' m m' : State} (hr : Reach (step env) (init env) r)
    (h : Reads env t client r r') (hm : Reach (step env) r' m) {client' : SSHClient}
    (he : Establishes env client' m m') : client' ≠ client := by
  rintro rfl
  obtain ⟨o, hstep⟩ := h.moves
  have hmade := run_made (reach_client_made hr h.client)
    (Run.trans (.tail .refl (a := .thread t o) trivial hstep) hm)
  have hend := hmade.2
  rw [he.place] at hend
  cases hend

/-- After its failure on `client` a call of `Dial` is at the clearing write for
that client or has passed it. -/
def Pc.Spent (client : SSHClient) (pc : Pc) : Prop :=
  pc = .dialLock client ∨ pc = .dialClear client ∨ pc.dialing = false

theorem step_spent (hs : (s.threads t).Spent client) (hw : Within t s a)
    (h : step env s a = some u) : (u.threads t).Spent client := by
  rcases step_thread_cases h t with ⟨heq, -⟩ | ⟨o, d, rfl, hc⟩ | ⟨hno, -⟩
  · rwa [heq]
  · cases hd : (u.threads t).dialing with
    | false => exact .inr (.inr hd)
    | true =>
      rcases threadStep_dialing hc hd with ⟨hp, hp'⟩ | ⟨hp, hp'⟩ | ⟨cl, hp, hp'⟩ |
        ⟨cl, err, hp, rfl, hp'⟩ | ⟨cl, hp, hp'⟩ <;> rw [hp] at hs <;> rw [hp'] <;>
        simp_all [Pc.Spent, Pc.dialing]
  · exact (hno hw).elim

theorem FailedOn.clears {r : State} {cl : SSHClient} (h : FailedOn env t client r s)
    (hp : s.threads t = .dialClear cl) : cl = client := by
  obtain ⟨f, f', err, -, hf, hstep, hrun⟩ := h
  have hspent : (s.threads t).Spent client := by
    refine hrun.invariant (P := fun s => (s.threads t).Spent client) ?_
      fun _ _ _ hs hw he => step_spent hs hw he
    obtain ⟨d, pc, hc, rfl⟩ := step_thread hstep
    rw [hf] at hc
    cases hc
    exact .inl (by rw [setThread_threads, if_pos rfl])
  rw [hp] at hspent
  simpa [Pc.Spent, Pc.dialing] using hspent

end Steps

/-- If the step takes the client away, it is one of a `Dial` that had read this
client, dialled through it and failed on it, and no client assigned since that
read is the one it takes. -/
def Rightful (env : Env) (s : State) (a : Action) : Prop :=
  ∀ u client, step env s a = some u → s.core.client = some client → u.core.client = none →
    ∃ t o r r', a = .thread t o ∧ Reach (step env) (init env) r ∧ Reads env t client r r' ∧
      FailedOn env t client r' s ∧
      ∀ m m' client', Reach (step env) r' m → Establishes env client' m m' → client' ≠ client

theorem rightful_of_unreplaced {env : Env} {s : State} {a : Action}
    (hr : Reach (step env) (init env) s) (ha : Unreplaced s a) : Rightful env s a := by
  intro u client hstep hc hn
  obtain ⟨t, o, cl, rfl, hp⟩ := step_discards hstep hc hn
  obtain rfl := ha cl hp client hc
  have hstory := reach_dialled hr t
  rw [hp] at hstory
  obtain ⟨r, r', hreach, hread, hfail⟩ := hstory
  exact ⟨t, o, r, r', rfl, hreach, hread, hfail,
    fun m m' client' hm he => hread.not_established hreach hm he⟩

theorem unreplaced_of_rightful {env : Env} {s u : State} {a : Action}
    (hs : step env s a = some u) (h : Rightful env s a) : Unreplaced s a := by
  cases a with
  | thread t o =>
    intro cl hp client hc
    have hn : u.core.client = none := by
      obtain ⟨d, pc, ht, rfl⟩ := step_thread hs
      rw [hp] at ht
      cases ht
      rfl
    obtain ⟨t', o', r, r', ha, -, -, hfail, -⟩ := h u client hs hc hn
    cases ha
    exact (hfail.clears hp).symm
  | _ => trivial

/-- In a run in which no other client has replaced the one that a `Dial` is
about to clear, every client is taken away by a `Dial` that failed on it; and a
step from a reachable state does so only under that condition. -/
theorem dial_discards_its_client (env : Env) :
    (∀ s, Run (step env) Unreplaced (init env) s → Run (step env) (Rightful env) (init env) s) ∧
    ∀ s a u, Reach (step env) (init env) s → step env s a = some u →
      (Rightful env s a ↔ Unreplaced s a) := by
  refine ⟨fun s h => ?_, fun s a u hr hs => ⟨unreplaced_of_rightful hs,
    rightful_of_unreplaced hr⟩⟩
  induction h with
  | refl => exact .refl
  | tail hrun ha hs ih =>
    exact .tail ih (rightful_of_unreplaced (hrun.mono fun _ _ _ => trivial) ha) hs

section Example

/-- The attempt `c` succeeds and the thread `0` leaves its loop. -/
def goodAttempt (c : ℕ) : List Action :=
  Connector.toHandshake.map (.connector c) ++
    [.connect, .connect, .unlock, .connect, .connect, .connect, .connect, .connect, .connect,
      .unlock, .thread 0].map (.connector c)

/-- A first `Dial` connects; the next one reads the client and fails on it. -/
def failingDial : List Action :=
  .call 0 .dial :: steps 0 14 ++ goodAttempt 0 ++ steps 0 4 ++ .call 0 .dial :: steps 0 3 ++
    [.thread 0 (.failed "eof".toList)]

/-- Two `Dial`s fail on one client. The first has connected again before the
second clears the field. -/
theorem dial_discards_new_client :
    ¬∀ (env : Env) (s : State) (a : Action), Reach (step env) (init env) s →
      Rightful env s a := by
  intro hall
  obtain ⟨s, hr, hs⟩ := reach_of_check (step sampleEnv) (init sampleEnv)
    (failingDial.dropLast ++ .call 1 .dial :: steps 1 3 ++ [.thread 0 (.failed "eof".toList),
      .thread 1 (.failed "eof".toList)] ++ steps 0 14 ++ goodAttempt 1 ++ steps 0 4 ++ steps 1 1)
    (fun s => s.threads 1 = .dialClear ⟨0, 0⟩ && s.core.client = some ⟨1, 0⟩) (by decide)
  simp only [Bool.and_eq_true, decide_eq_true_eq] at hs
  have hstep : step sampleEnv s (.thread 1 .ok) =
      some ({ s with core := { s.core with client := none } }.setThread 1 .dialUnlock) := by
    simp [step, hs.1, threadStep]
  have hun := unreplaced_of_rightful hstep (hall sampleEnv s (.thread 1 .ok) hr)
  cases hun ⟨0, 0⟩ hs.1 ⟨1, 0⟩ hs.2

def unreplaced (s : State) : Action → Bool
  | .thread t _ =>
    match s.threads t with
    | .dialClear client => s.core.client.all (· = client)
    | _ => true
  | _ => true

theorem unreplaced_sound {s : State} {a : Action} (h : unreplaced s a = true) :
    Unreplaced s a := by
  cases a with
  | thread t o =>
    intro client hp client' hc
    simpa [unreplaced, hp, hc] using h
  | _ => trivial

/-- A single `Dial` that fails clears the client it dialled through. -/
theorem failing_dial_discards_its_client :
    ∃ s u, Run (step sampleEnv) (Rightful sampleEnv) (init sampleEnv) s ∧
      step sampleEnv s (.thread 0 .ok) = some u ∧ s.core.client = some ⟨0, 0⟩ ∧
      u.core.client = none ∧ Rightful sampleEnv s (.thread 0 .ok) := by
  obtain ⟨s, hs, hp⟩ := (Option.any_eq_true ..).mp
    (show (exec (guarded unreplaced (step sampleEnv)) (init sampleEnv)
      (failingDial ++ steps 0 1)).any
        (fun s => s.threads 0 = .dialClear ⟨0, 0⟩ && s.core.client = some ⟨0, 0⟩) =
          true by decide)
  simp only [Bool.and_eq_true, decide_eq_true_eq] at hp
  have hpath : Run (step sampleEnv) Unreplaced (init sampleEnv) s :=
    run_of_exec (I := fun _ => True) (fun _ _ _ _ _ _ => trivial)
      (fun _ _ _ => unreplaced_sound) trivial hs
  have hstep : step sampleEnv s (.thread 0 .ok) =
      some ({ s with core := { s.core with client := none } }.setThread 0 .dialUnlock) := by
    simp [step, hp.1, threadStep]
  refine ⟨s, _, (dial_discards_its_client sampleEnv).1 s hpath, hstep, hp.2, rfl, ?_⟩
  refine ((dial_discards_its_client sampleEnv).2 s _ _ (hpath.mono fun _ _ _ => trivial)
    hstep).mpr fun client hc client' hc' => ?_
  rw [hp.1] at hc
  rw [hp.2] at hc'
  cases hc
  cases hc'
  rfl

end Example

end SshTunnel.Daemon
