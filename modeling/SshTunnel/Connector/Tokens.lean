import SshTunnel.Connector.Progress
import SshTunnel.Lib.Tokens

/-!
# The tokens of `notifyWaitingLocked` (`dialer/sshdialer.go:474-500`)

Runs of a connector with the record of their registrations and tokens. A
notifier that has taken the mutex serves the list it found, and only it can free
the mutex; since every channel of the list has its receiver parked, it never
waits for a thread that needs the mutex.
-/

namespace SshTunnel.Connector

open Lib.Notify Lib.Runs

abbrev tokenStep (env : Env) := recorded (step env) tokenNote

section Told

variable {env : Env} {s : State} {ns : List (Note Waiter)}

theorem init_told (env : Env) (interactive : Bool) : (init env interactive).room.Told [] := by
  refine ⟨?_, ?_, List.nodup_nil, List.nodup_nil, ?_, ?_⟩
  · intro i ch hi
    cases hi
  · intro ch hch
    cases hch
  · intro i ch hi
    cases hi
  · intro i ch
    cases i <;> simp [State.room, Shared.room, init, State.parked, PasswordPc.channel,
      ThreadPc.channel]

theorem run_told {G : State → Action → Prop} {interactive : Bool}
    {x : State × List (Note Waiter)}
    (h : Run (tokenStep env) (fun x => G x.1) (init env interactive, []) x) :
    x.1.room.Told x.2 := by
  refine h.invariant_under (P := fun x => x.1.room.Told x.2) (Q := fun x => x.1.Locked)
    (fun y hy => (reach_room hy.forget).1) (init_told env interactive) ?_
  intro y a z hlk ht _ hs
  obtain ⟨hstep, hrec⟩ := recorded_step hs
  rw [hrec]
  exact tells_told ht (step_tells hlk hstep)

end Told

section Section

variable {env : Env} {s u m : State} {a : Action} {ts : List (Note Waiter)}

theorem phase_eq_free {l : Lock} : l.phase = .free ↔ l = .free := by
  cases l <;> simp [Lock.phase]

/-- The mutex is freed by the notifier that holds it, and by nothing else. -/
theorem step_keeps_lock (hs : s.Sound env) (hl : s.sh.lock ≠ .free) (ha : a ≠ .unlock)
    (h : step env s a = some u) : u.sh.lock ≠ .free := by
  cases a with
  | connect =>
    obtain ⟨-, sh, pc, hc, rfl⟩ := step_connect h
    obtain ⟨_, _, _, _, _, rfl, hm, -⟩ := connectStep_frame hc
    rwa [← hm.stable hl] at hl
  | banner msg =>
    obtain ⟨-, hf, -⟩ := step_banner h
    exact (hl hf).elim
  | hostKeyCall hostname key =>
    obtain ⟨-, -, rfl⟩ := step_hostKeyCall h
    rw [hostKeyCall_frame]
    exact hl
  | hostKey written =>
    obtain ⟨-, sh, pc, hc, rfl⟩ := step_hostKey h
    cases hostKeyStep_move hc with
    | prompt _ _ hf => exact (hl hf).elim
    | receive => exact hl
    | clear => exact hl
    | quiet _ _ _ _ hm => rwa [← hm.stable hl] at hl
  | passwordCall =>
    obtain ⟨-, -, rfl⟩ := step_passwordCall h
    exact hl
  | password =>
    obtain ⟨-, sh, pc, hc, rfl⟩ := step_password h
    cases passwordStep_move hc with
    | setStatus => exact hl
    | register _ hf => exact (hl hf).elim
    | quiet _ _ _ _ hm => rwa [← hm.stable hl] at hl
  | request t sid inp =>
    obtain ⟨-, rfl⟩ := step_request h
    exact hl
  | connectLoop t =>
    obtain ⟨-, rfl⟩ := step_connectLoop h
    exact hl
  | thread t =>
    obtain ⟨-, sh, pc, hc, rfl⟩ := step_thread h
    cases threadStep_move hc with
    | accept _ _ _ hf => exact (hl hf).elim
    | panic r b hpc hnil =>
      obtain ⟨p, _, hp, -⟩ := sendDecision_enabled hs.locked hs.prompting hpc
      cases hnil.symm.trans hp
    | send => exact Lock.noConfusion
    | passphrase _ _ _ hf => exact (hl hf).elim
    | register _ _ hf => exact (hl hf).elim
    | quiet => exact hl
  | setInteractive =>
    obtain rfl := step_setInteractive h
    exact hl
  | send w =>
    obtain ⟨b, ch, rest, -, -, rfl⟩ := step_send h
    rw [wake_sh]
    exact Lock.noConfusion
  | unlock => exact (ha rfl).elim

/-- What a notifier has done since it took the mutex in the state `m`. -/
theorem run_serving {x : State × List (Note Waiter)} (hm : m.Sound env) (hl : m.sh.lock ≠ .free)
    (h0 : m.room.Serving m.room [])
    (h : Run (tokenStep env) (fun _ a => a ≠ .unlock) (m, []) x) :
    m.room.Serving x.1.room x.2 ∧ x.1.sh.lock ≠ .free := by
  refine h.invariant_under (Q := fun x => x.1.Sound env)
    (P := fun x => m.room.Serving x.1.room x.2 ∧ x.1.sh.lock ≠ .free)
    (fun y hy => run_sound hm (Run.forget (G := fun _ (a : Action) => a ≠ .unlock) hy))
    ⟨h0, hl⟩ ?_
  intro y a z hs ⟨hserve, hy⟩ ha he
  obtain ⟨hstep, hrec⟩ := recorded_step he
  have hz := step_keeps_lock hs hy ha hstep
  rw [hrec]
  exact ⟨serving_step hserve (step_tells hs.locked hstep) (fun hf => hz (phase_eq_free.mp hf)), hz⟩

/-- The thread that holds the mutex for its decision can go on to notify. -/
theorem holder_notifies {b : Agent} (hs : s.Sound env) (hl : s.sh.lock = .held b) :
    ∃ t u, b = .thread t ∧ step env s (.thread t) = some u ∧
      u.sh.lock = .notifying b s.sh.waiting := by
  obtain ⟨t, r, d, hpc⟩ := hs.held b hl
  obtain rfl : b = .thread t := Lock.held.inj (hl.symm.trans (hs.locked t r d hpc))
  obtain ⟨-, u, -, hu, -, hlock, -⟩ := sendDecision_enabled hs.locked hs.prompting hpc
  exact ⟨t, u, rfl, hu, hlock⟩

end Section

structure State.Rendezvous (env : Env) (s : State) (ns : List (Note Waiter)) : Prop where
  /-- A channel of the list was registered by one thread, which is parked on it
  until it has got its token. -/
  owner : ∀ ch ∈ s.sh.waiting, ∃! w, .registered w ch ∈ ns
  receiver : ∀ ch ∈ s.room.unserved, ∃! w, s.parked w = some ch
  told : s.room.Told ns
  /-- From the step that takes the mutex to the one that frees it, the list as it
  was found is served. -/
  notifies : ∀ a m u ts, s.sh.lock = .free → step env s a = some m → m.sh.lock ≠ .free →
    Run (tokenStep env) (fun _ a => a ≠ .unlock) (m, []) (u, ts) →
      m.room.Serving u.room ts ∧ ∀ v, step env u .unlock = some v →
        ts.filterMap Note.served = m.sh.waiting ∧ m.sh.waiting.Nodup ∧
          ∀ w ch, m.parked w = some ch → .token w ch ∈ ts
  /-- The sends that are left and the unlock need nothing but parked receivers. -/
  finishes : ∀ b rest, s.sh.lock = .notifying b rest →
    ∃ (ws : List Waiter) (u : State), ws.length = rest.length ∧
      exec (step env) s (ws.map Action.send ++ [.unlock]) = some u ∧ u.sh.lock = .free ∧
        u.sh.waiting = []
  holder : ∀ b, s.sh.lock = .held b → ∃ t u, b = .thread t ∧ step env s (.thread t) = some u ∧
    u.sh.lock = .notifying b s.sh.waiting

/-- Every waiter gets one token, from the first notifier that takes the mutex
after its registration, and a notifier always finds the receivers of its list
parked. -/
theorem waiters_served_once {env : Env} {interactive : Bool} {s : State}
    {ns : List (Note Waiter)}
    (h : Reach (tokenStep env) (init env interactive, []) (s, ns)) : s.Rendezvous env ns := by
  have hrun : Reach (step env) (init env interactive) s := Run.forget (G := Always) h
  have hs := reach_sound hrun
  have ht : s.room.Told ns := run_told (G := Always) h
  refine ⟨?_, ?_, ht, ?_, ?_, ?_⟩
  · intro ch hch
    obtain ⟨w, hw⟩ := ht.listed ch hch
    exact ⟨w, hw, fun w' hw' => ht.owner hw' hw⟩
  · intro ch hch
    obtain ⟨w, hw⟩ := hs.room.owned ch hch
    exact ⟨w, hw, fun w' hw' => hs.room.single w' w ch hw' hw⟩
  · intro a m u ts hf hstep hl hsec
    have hm : m.Sound env := run_sound hs (Run.tail .refl trivial hstep : Reach (step env) s m)
    obtain ⟨h0, hall⟩ := serving_start (phase_eq_free.mpr hf) (step_tells hs.locked hstep)
      fun hp => hl (phase_eq_free.mp hp)
    have hserve := (run_serving hm hl h0 hsec).1
    refine ⟨hserve, fun v hv => ?_⟩
    obtain ⟨b, hb, -⟩ := step_unlock hv
    have hend : u.room.phase = .notifying [] := by
      simp only [State.room, Shared.room, Lock.phase, hb]
    obtain ⟨htokens, hwaiters⟩ := hserve.complete hm.room hall hend
    have hnodup : m.room.waiting.Nodup := hall ▸ hm.room.nodup
    exact ⟨htokens, hnodup, hwaiters⟩
  · intro b rest hl
    obtain ⟨ws, u, hlen, hu, hf, hnil, -⟩ := drain_exec env hs.locked hs.room hl
    exact ⟨ws, u, hlen, hu, hf, hnil⟩
  · intro b hl
    exact holder_notifies hs hl

/-- A thread in `Wait` gets its token from the first `Print`. -/
theorem waiter_gets_token :
    ∃ s ns, Reach (tokenStep sampleEnv) (init sampleEnv true, []) (s, ns) ∧
      ns = [.registered (.thread 0) 0, .token (.thread 0) 0] ∧ s.Rendezvous sampleEnv ns := by
  obtain ⟨x, hr, hs⟩ := reach_of_check (tokenStep sampleEnv) (init sampleEnv true, [])
    [.connectLoop 0, .thread 0, .thread 0, .thread 0, .thread 0, .thread 0, .connect,
      .send (.thread 0), .unlock]
    (fun x => x.2 = [.registered (.thread 0) 0, .token (.thread 0) 0]) (by decide)
  exact ⟨x.1, x.2, hr, of_decide_eq_true hs, waiters_served_once hr⟩

end SshTunnel.Connector
