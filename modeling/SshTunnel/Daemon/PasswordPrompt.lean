import SshTunnel.Connector.Passphrase
import SshTunnel.Daemon.Connect

/-!
# The password prompt without a client (`dialer/sshdialer.go:176-190`, `409-421`)

The password callback waits for a passphrase, whoever has started the attempt. As
long as no request brings one, the attempt stays where it is: no further address
is tried, and every `Connect` that waits for it, those under `Dial` included,
stays in its loop.
-/

namespace SshTunnel.Connector

open Lib.Runs
open Control (ConnectIn)

/-- The password callback runs and no passphrase is there or on its way. -/
structure State.AsksPassword (s : State) : Prop where
  asking : s.password.looking = true ∨ s.password = .setStatus
  empty : s.sh.passphrase = []
  unanswered : ∀ t r inp, s.threads t ≠ .setPassphrase r inp

/-- The action brings no passphrase. -/
def Passwordless : Action → Prop
  | .request _ _ inp => inp.passphrase = []
  | _ => True

section Steps

variable {env : Env} {s u : State} {a : Action}

theorem State.AsksPassword.running (hs : s.AsksPassword) : s.password ≠ .idle := by
  intro hidle
  rcases hs.asking with hl | hp
  · rw [hidle] at hl
    cases hl
  · rw [hidle] at hp
    cases hp

theorem not_setPassphrase_wake {t : ℕ} (hs : ∀ t r inp, s.threads t ≠ .setPassphrase r inp)
    (w : Waiter) (r : Request) (inp : ConnectIn) :
    (s.wake w).threads t ≠ .setPassphrase r inp := by
  cases w with
  | password => exact hs t r inp
  | thread t' =>
    simp only [State.wake]
    split
    · rename_i l w _
      rw [setThread_threads]
      split
      · rcases again_cases l with ⟨q, hq⟩ | hq <;> simp [threadAt, hq]
      · exact hs t r inp
    · exact hs t r inp

/-- Only a request with a passphrase leads to the call of `SetPassphrase`. -/
theorem step_unanswered (hs : ∀ t r inp, s.threads t ≠ .setPassphrase r inp)
    (ha : Passwordless a) (h : step env s a = some u) :
    ∀ t r inp, u.threads t ≠ .setPassphrase r inp := by
  have hset : ∀ (m : State) t' pc, m.threads = s.threads →
      (∀ r inp, pc ≠ .setPassphrase r inp) →
        ∀ t r inp, (m.setThread t' pc).threads t ≠ .setPassphrase r inp := by
    intro m t' pc hm hpc t r inp
    rw [setThread_threads, hm]
    split
    · exact hpc r inp
    · exact hs t r inp
  cases a with
  | request t sid inp =>
    obtain ⟨-, rfl⟩ := step_request h
    have hempty : inp.passphrase = [] := ha
    refine hset s t _ rfl ?_
    intro r inp' he
    rw [startRequest, if_pos hempty] at he
    rcases afterPassphrase_cases ⟨sid, (s.threads t).shown, []⟩ inp with ⟨b, hb⟩ | hb <;>
      cases hb.symm.trans he
  | connectLoop t =>
    obtain ⟨-, rfl⟩ := step_connectLoop h
    exact hset s t _ rfl (by simp)
  | thread t =>
    obtain ⟨-, sh, pc, hc, rfl⟩ := step_thread h
    refine hset _ t pc rfl ?_
    intro r inp he
    subst he
    exact threadStep_setPassphrase hc
  | send w =>
    obtain ⟨b, ch, rest, -, -, rfl⟩ := step_send h
    intro t r inp
    refine not_setPassphrase_wake ?_ w r inp
    exact hs
  | _ =>
    intro t r inp
    rw [step_threads h (by simp [Action.mover])]
    exact hs t r inp

theorem passwordStep_asks {sh sh' : Shared} {pc pc' : PasswordPc} (hd : ¬IsDone sh.status)
    (hpc : pc.looking = true ∨ pc = .setStatus) (he : sh.passphrase = [])
    (h : passwordStep sh pc = some (sh', pc')) :
    (pc'.looking = true ∨ pc' = .setStatus) ∧ sh'.passphrase = [] := by
  cases pc with
  | setStatus =>
    cases h
    exact ⟨.inl rfl, he⟩
  | done1 =>
    simp only [passwordStep, if_neg fun hs => hd (.inl hs), Option.some.injEq,
      Prod.mk.injEq] at h
    exact ⟨.inl (h.2 ▸ rfl), h.1 ▸ he⟩
  | done2 =>
    simp only [passwordStep, if_neg fun hs => hd (.inr hs), Option.some.injEq,
      Prod.mk.injEq] at h
    exact ⟨.inl (h.2 ▸ rfl), h.1 ▸ he⟩
  | testPassphrase =>
    -- the buffer is empty, so the callback goes back to waiting
    simp only [passwordStep, he, List.length_nil, Nat.lt_irrefl, if_false, Option.some.injEq,
      Prod.mk.injEq] at h
    exact ⟨.inl (h.2 ▸ rfl), h.1 ▸ he⟩
  | wait w =>
    obtain ⟨⟨_, w'⟩, hw, heq⟩ := Option.map_eq_some_iff.mp h
    cases heq
    refine ⟨.inl (by cases w' <;> rfl), ?_⟩
    cases waitStep_move hw <;> exact he
  | idle | readPassphrase | clearPassphrase | setHandshake | notify =>
    rcases hpc with hpc | hpc <;> cases hpc

theorem step_asksPassword (hord : s.Ordered) (hs : s.AsksPassword) (ha : Passwordless a)
    (h : step env s a = some u) : u.AsksPassword ∧ u.connect = s.connect := by
  have hun := step_unanswered hs.unanswered ha h
  have hsame : u.connect = s.connect → u.password = s.password →
      u.sh.passphrase = s.sh.passphrase → u.AsksPassword ∧ u.connect = s.connect := by
    intro hc hp he
    exact ⟨⟨hp ▸ hs.asking, he.trans hs.empty, hun⟩, hc⟩
  cases a with
  | connect =>
    -- `NewClientConn` does not return before its callbacks
    obtain ⟨-, sh, pc, hc, rfl⟩ := step_connect h
    have hhand := hord.password hs.running
    have hcalm : s.calm = false := by simp [State.calm, hs.running]
    cases hpc : s.connect with
    | newClientConn i user =>
      rw [hpc, hcalm] at hc
      cases hc
    | _ =>
      rw [State.handshaking, hpc] at hhand
      cases hhand
  | banner msg =>
    obtain ⟨-, -, rfl⟩ := step_banner h
    exact hsame rfl rfl rfl
  | hostKeyCall hostname key =>
    obtain ⟨-, -, rfl⟩ := step_hostKeyCall h
    refine hsame rfl rfl ?_
    rw [hostKeyCall_frame]
  | hostKey written =>
    obtain ⟨-, sh, pc, hc, rfl⟩ := step_hostKey h
    refine hsame rfl rfl ?_
    cases hostKeyStep_move hc <;> rfl
  | passwordCall =>
    obtain ⟨-, hidle, -⟩ := step_passwordCall h
    exact (hs.running hidle).elim
  | password =>
    obtain ⟨-, sh, pc, hc, rfl⟩ := step_password h
    obtain ⟨hl, he⟩ := passwordStep_asks (hord.not_done hs.running) hs.asking hs.empty hc
    exact ⟨⟨hl, he, hun⟩, rfl⟩
  | request t sid inp =>
    obtain ⟨-, rfl⟩ := step_request h
    exact hsame rfl rfl rfl
  | connectLoop t =>
    obtain ⟨-, rfl⟩ := step_connectLoop h
    exact hsame rfl rfl rfl
  | thread t =>
    obtain ⟨-, sh, pc, hc, rfl⟩ := step_thread h
    refine hsame rfl rfl ?_
    cases threadStep_move hc with
    | passphrase r inp hpc => exact (hs.unanswered t r inp hpc).elim
    | _ => rfl
  | setInteractive =>
    obtain rfl := step_setInteractive h
    exact hsame rfl rfl rfl
  | send w =>
    obtain ⟨b, ch, rest, -, hp, rfl⟩ := step_send h
    cases w with
    | password => exact ⟨⟨.inl rfl, hs.empty, hun⟩, rfl⟩
    | thread t =>
      refine hsame (wake_connect ..) ?_ (by rw [wake_sh])
      simp only [State.wake]
      split <;> rfl
  | unlock =>
    obtain ⟨b, -, rfl⟩ := step_unlock h
    exact hsame rfl rfl rfl

/-- No loop on the connector ends while its attempt is in a handshake. -/
theorem State.AsksPassword.not_exited (hatt : s.Attempt env) (hord : s.Ordered)
    (hs : s.AsksPassword) (t : ℕ) : s.threads t ≠ .exited := by
  intro hex
  have hend := hatt.exited t hex
  have hhand := hord.password hs.running
  cases hpc : s.connect with
  | newClientConn i user =>
    rw [hpc] at hend
    cases hend
  | _ => simp [State.handshaking, hpc] at hhand

end Steps

end SshTunnel.Connector

namespace SshTunnel.Daemon

open Lib.Runs

/-- No request brings a passphrase to the connector `c`. -/
def Passwordless (c : ℕ) (_ : State) : Action → Prop
  | .serve _ c' _ inp => c' = c → inp.passphrase = []
  | _ => True

/-- The attempt of the connector `c` waits for a passphrase. -/
structure State.AsksPassword (s : State) (c : ℕ) : Prop where
  started : s.core.started c = true
  connector : (s.core.connectors c).AsksPassword

section Steps

variable {env : Env} {s u : State} {a : Action} {c : ℕ}

theorem connector_ordered {G : State → Action → Prop} (h : Run (step env) G (init env) s) (c : ℕ) :
    (s.core.connectors c).Ordered := by
  obtain ⟨b, hr⟩ := connector_reached h c
  exact Connector.run_ordered hr

/-- Whatever the daemon does to the connector brings no passphrase to it. -/
theorem step_connector_keeps {P : Connector.State → Prop} (hP : P (s.core.connectors c))
    (hnew : c = s.core.created → ∀ b, P (Connector.init (env.connector c) b))
    (hstep : ∀ b k, Connector.Passwordless b →
      Connector.step (env.connector c) (s.core.connectors c) b = some k → P k)
    (hg : Passwordless c s a) (h : step env s a = some u) : P (u.core.connectors c) := by
  have hupd : ∀ (c' : ℕ) (b : Connector.Action) (k : Connector.State),
      (c' = c → Connector.Passwordless b) →
      Connector.step (env.connector c') (s.core.connectors c') b = some k →
      u.core.connectors = Function.update s.core.connectors c' k → P (u.core.connectors c) := by
    intro c' b k hb hk hu
    rw [hu, Function.update_apply]
    split
    · rename_i hc
      subst hc
      exact hstep b k (hb rfl) hk
    · exact hP
  cases a with
  | call t e =>
    obtain ⟨-, rfl⟩ := step_call h
    exact hP
  | serve t c' sid inp =>
    obtain ⟨-, -, k, hk, rfl⟩ := step_serve h
    exact hupd c' (.request t sid inp) k hg hk rfl
  | thread t o =>
    obtain ⟨d, pc, hc, rfl⟩ := step_thread h
    cases threadStep_connectors hc with
    | keep hk =>
      show P (d.connectors c)
      rw [hk]
      exact hP
    | loop c' k hk hu => exact hupd c' (.connectLoop t) k (fun _ => trivial) hk hu
    | interactive _ _ c' k hk hu => exact hupd c' .setInteractive k (fun _ => trivial) hk hu
    | new g _ hu =>
      show P (d.connectors c)
      rw [hu, Function.update_apply]
      split
      · rename_i hc
        subst hc
        exact hnew rfl g.interactive
      · exact hP
  | connector c' b =>
    obtain ⟨-, hb, k, hk, rfl⟩ := step_connector h
    have hpass : Connector.Passwordless b := by
      cases b with
      | request => cases hb
      | _ => trivial
    refine hupd c' b k (fun _ => hpass) hk ?_
    rw [(outside_connectors env s.core c' b).1]

theorem step_started (hst : s.core.started c = true) (h : step env s a = some u) :
    u.core.started c = true := by
  rcases step_move h with hm | ⟨c', b, rfl⟩
  · exact hm.running c hst
  · obtain ⟨-, -, k, -, rfl⟩ := step_connector h
    show (s.core.outside env c' b).started c = true
    rw [(outside_connectors env s.core c' b).2.2]
    exact hst

theorem step_daemon_asks (hal : s.core.Allocated) (hord : (s.core.connectors c).Ordered)
    (hs : s.AsksPassword c) (hg : Passwordless c s a) (h : step env s a = some u) :
    u.AsksPassword c ∧ (u.core.connectors c).connect = (s.core.connectors c).connect := by
  have hkept : (u.core.connectors c).AsksPassword ∧
      (u.core.connectors c).connect = (s.core.connectors c).connect := by
    refine step_connector_keeps (P := fun k => k.AsksPassword ∧
      k.connect = (s.core.connectors c).connect) ⟨hs.connector, rfl⟩ ?_ ?_ hg h
    · intro hc
      exact (Nat.ne_of_lt (hal.started c hs.started) hc).elim
    · intro b k hb hk
      exact Connector.step_asksPassword hord hs.connector hb hk
  exact ⟨⟨step_started hs.started h, hkept.1⟩, hkept.2⟩

theorem run_unanswered (h : Run (step env) (Passwordless c) (init env) s) :
    ∀ t r inp, (s.core.connectors c).threads t ≠ .setPassphrase r inp := by
  refine h.invariant (P := fun s : State => ∀ t r inp,
    (s.core.connectors c).threads t ≠ .setPassphrase r inp) (fun _ _ _ => nofun) ?_
  intro m a u hm hg he
  refine step_connector_keeps (P := fun k => ∀ t r inp, k.threads t ≠ .setPassphrase r inp)
    hm (fun _ _ _ _ _ => nofun) ?_ hg he
  intro b k hb hk
  exact Connector.step_unanswered hm hb hk

/-- A `Connect` that waits for the attempt goes on waiting. -/
theorem step_loop_waits {t : ℕ} {k : Caller} (hex : (s.core.connectors c).threads t ≠ .exited)
    (hl : s.threads t = .loop k c) (h : step env s a = some u) : u.threads t = .loop k c := by
  cases a with
  | call t' e =>
    obtain ⟨hrest, rfl⟩ := step_call h
    rw [setThread_threads, if_neg]
    · exact hl
    · intro he
      rw [← he, hl] at hrest
      cases hrest
  | serve t' c' sid inp =>
    obtain ⟨hrest, -, m, -, rfl⟩ := step_serve h
    rw [setThread_threads, if_neg]
    · exact hl
    · intro he
      rw [← he, hl] at hrest
      cases hrest
  | thread t' o =>
    obtain ⟨d, pc, hc, rfl⟩ := step_thread h
    rw [setThread_threads, if_neg]
    · exact hl
    · intro he
      rw [← he, hl] at hc
      simp only [threadStep, if_neg hex] at hc
      cases hc
  | connector c' b =>
    obtain ⟨-, -, m, -, rfl⟩ := step_connector h
    exact hl

end Steps

/-- While an attempt asks for a password and no request brings one, it asks on:
`connect` does not move, and the callers of `Dial` and `Connect` that wait for it
are not answered, whatever else the daemon is asked to do. -/
theorem asked_password_blocks {env : Env} {s u : State} {c : ℕ}
    (hs : Reach (step env) (init env) s) (hasks : s.AsksPassword c)
    (h : Run (step env) (Passwordless c) s u) :
    u.AsksPassword c ∧ (u.core.connectors c).connect = (s.core.connectors c).connect ∧
      ∀ t k, s.threads t = .loop k c → u.threads t = .loop k c := by
  refine (h.invariant (P := fun u : State => Reach (step env) (init env) u ∧ u.AsksPassword c ∧
    (u.core.connectors c).connect = (s.core.connectors c).connect ∧
      ∀ t k, s.threads t = .loop k c → u.threads t = .loop k c)
    ⟨hs, hasks, rfl, fun _ _ hl => hl⟩ ?_).2
  intro m a u hm hg he
  obtain ⟨hreach, hma, hcon, hloop⟩ := hm
  have hord := connector_ordered hreach c
  obtain ⟨hua, huc⟩ := step_daemon_asks (run_allocated hreach) hord hma hg he
  refine ⟨.tail hreach trivial he, hua, huc.trans hcon, fun t k hl => ?_⟩
  have hex := hma.connector.not_exited (connector_attempt hreach c) hord t
  exact step_loop_waits hex (hloop t k hl) he

def passwordless (c : ℕ) (_ : State) : Action → Bool
  | .serve _ c' _ inp => c' ≠ c || inp.passphrase = []
  | _ => true

theorem passwordless_sound {s : State} {a : Action} {c : ℕ} (h : passwordless c s a = true) :
    Passwordless c s a := by
  cases a with
  | serve t c' sid inp =>
    intro hc
    simpa [passwordless, hc] using h
  | _ => trivial

/-- A `Dial` of a proxy, with nobody to enter the password. A request that is
shown the prompt does not help it. -/
theorem proxy_dial_hangs :
    ∃ s u, Run (step sampleEnv) (Passwordless 0) s u ∧
      (u.core.connectors 0).threads 2 = .returned ⟨.needPassphrase,
        (u.core.connectors 0).sh.messages, []⟩ 0 ∧
      s.threads 0 = .loop .dial 0 ∧ u.threads 0 = .loop .dial 0 := by
  obtain ⟨s, hs, hp⟩ := (Option.any_eq_true ..).mp
    (show (exec (guarded (passwordless 0) (step sampleEnv)) (init sampleEnv)
      (.call 0 .dial :: steps 0 14 ++ Connector.toHandshake.map (.connector 0) ++
        [.passwordCall, .password].map (.connector 0))).any
      (fun s => s.threads 0 = .loop .dial 0 && s.core.started 0 &&
        (s.core.connectors 0).password = .done1 && (s.core.connectors 0).sh.passphrase = [] &&
        (exec (guarded (passwordless 0) (step sampleEnv)) s
          (.serve 2 0 0 ⟨[], none⟩ :: List.replicate 8 (.connector 0 (.thread 2)))).any
        fun u => (u.core.connectors 0).threads 2 = .returned ⟨.needPassphrase,
          (u.core.connectors 0).sh.messages, []⟩ 0) = true by decide)
  simp only [Bool.and_eq_true, decide_eq_true_eq] at hp
  obtain ⟨⟨⟨⟨hloop, hst⟩, hpc⟩, hpass⟩, hnext⟩ := hp
  obtain ⟨u, hu, hout⟩ := (Option.any_eq_true ..).mp hnext
  have hpath : Run (step sampleEnv) (Passwordless 0) (init sampleEnv) s :=
    run_of_exec (I := fun _ => True) (fun _ _ _ _ _ _ => trivial)
      (fun _ _ _ => passwordless_sound) trivial hs
  have hlater : Run (step sampleEnv) (Passwordless 0) s u :=
    run_of_exec (I := fun _ => True) (fun _ _ _ _ _ _ => trivial)
      (fun _ _ _ => passwordless_sound) trivial hu
  have hasks : s.AsksPassword 0 :=
    ⟨hst, .inl (by rw [hpc]; rfl), hpass, run_unanswered hpath⟩
  have hblocks := asked_password_blocks (hpath.mono fun _ _ _ => trivial) hasks hlater
  exact ⟨s, u, hlater, of_decide_eq_true hout, hloop, hblocks.2.2 0 _ hloop⟩

end SshTunnel.Daemon
