import SshTunnel.Connector.Waiting

/-!
# The end of `connect`

The deferred function of `connect` sets a final status and then notifies for the
last time. `Wait` tests the status outside the mutex and registers inside it, so
a thread that passed its test before the status write and registers after the
notification is never woken. The run is free of that as long as no thread is in
this window when the final notification starts.
-/

namespace SshTunnel.Connector

open Lib.Notify Lib.Runs
open Control (ConnectStatus)

/-- `Done`. -/
def IsDone (st : ConnectStatus) : Prop := st = .succeeded ∨ st = .failed

/-- The thread registers whatever it still reads of a final status. -/
def ThreadPc.late (st : ConnectStatus) : ThreadPc → Bool
  | .wait _ .register => true
  | .wait _ .done2 => st = .succeeded
  | _ => false

/-- The final notification starts when no thread is about to register, and no
prompt is raised after the handshake. -/
def Unhurried (s : State) : Action → Prop
  | .connect => s.connect = .deferNotify → ∀ t, (s.threads t).late s.sh.status = false
  | .hostKey _ => ∀ c, s.hostKey = .prompt c → s.handshaking = true
  | _ => True

/-- `connect` has executed its deferred function. -/
def State.Finished (s : State) : Prop := s.connect = .done ∧ s.sh.busy .connect = false

/-- The deferred function has settled the status. -/
def ConnectPc.closing : ConnectPc → Bool
  | .deferClear | .deferNotify | .done => true
  | _ => false

structure State.Closed (s : State) : Prop where
  /-- The password callback runs inside the handshake. -/
  password : s.password ≠ .idle → s.handshaking = true
  status : s.connect.closing = true → IsDone s.sh.status
  late : s.connect = .done → ∀ t, (s.threads t).late s.sh.status = false
  /-- Who is still parked is being notified. -/
  parked : s.connect = .done → ∀ t, (s.threads t).channel ≠ none →
    ∃ rest, s.sh.lock = .notifying .connect rest

section Threads

variable {t : ℕ} {sh sh' : Shared} {pc pc' : ThreadPc}

theorem late_cases {st : ConnectStatus} (h : pc.late st = true) :
    (∃ l, pc = .wait l .register) ∨ ∃ l, pc = .wait l .done2 ∧ st = .succeeded := by
  cases pc with
  | wait l w =>
    cases w with
    | register => exact .inl ⟨l, rfl⟩
    | done2 => exact .inr ⟨l, rfl, by simpa [ThreadPc.late] using h⟩
    | _ => cases h
  | _ => cases h

theorem threadStep_late (hst : IsDone sh.status) (hlate : pc.late sh.status = false)
    (h : threadStep t sh pc = some (sh', pc')) : pc'.late sh.status = false := by
  by_contra hl
  rcases late_cases (by simpa using hl) with ⟨l, rfl⟩ | ⟨l, rfl, hsucc⟩
  · obtain hw | ⟨w₀, rfl, hw⟩ := threadStep_wait h
    · cases hw
    · -- `Wait` comes to register from its second test, under a status other than failed
      cases w₀ with
      | done2 =>
        have hnf : sh.status ≠ .failed := by
          intro hf
          simp [waitStep, hf] at hw
        simp [ThreadPc.late, hst.resolve_right hnf] at hlate
      | register => cases hlate
      | done1 =>
        simp only [waitStep, Option.some.injEq, Prod.mk.injEq] at hw
        split at hw <;> cases hw.2
      | receive => cases hw
  · obtain hw | ⟨w₀, rfl, hw⟩ := threadStep_wait h
    · cases hw
    · cases w₀ with
      | done1 => simp [waitStep, hsucc] at hw
      | done2 =>
        simp only [waitStep, Option.some.injEq, Prod.mk.injEq] at hw
        split at hw <;> cases hw.2
      | register =>
        obtain ⟨-, hw, -⟩ := waitStep_register hw
        cases hw
      | receive => cases hw

theorem threadStep_channel (hlate : pc.late sh.status = false)
    (h : threadStep t sh pc = some (sh', pc')) : pc'.channel = none := by
  cases threadStep_move h with
  | register l hpc =>
    rw [hpc] at hlate
    cases hlate
  | passphrase r inp =>
    rcases afterPassphrase_cases r inp with ⟨b, hb⟩ | hb <;> rw [hb] <;> rfl
  | quiet _ _ _ hch' => exact hch'
  | _ => rfl

theorem isDone_status (hst : IsDone sh.status) (h : threadStep t sh pc = some (sh', pc')) :
    sh'.status = sh.status := by
  cases threadStep_move h with
  | accept _ _ _ _ hs => rcases hst with hd | hd <;> simp [hd] at hs
  | passphrase _ _ _ _ hs => rcases hst with hd | hd <;> simp [hd] at hs
  | _ => rfl

end Threads

section Steps

variable {env : Env} {s u : State} {a : Action}

theorem handshaking_iff : s.handshaking = true ↔ ∃ i user, s.connect = .newClientConn i user := by
  unfold State.handshaking
  split
  · rename_i i user he
    exact ⟨fun _ => ⟨i, user, he⟩, fun _ => rfl⟩
  · rename_i hne
    refine ⟨fun h => ?_, fun ⟨i, user, he⟩ => (hne i user he).elim⟩
    cases h

theorem not_handshaking_of_closing (h : s.connect.closing = true) : s.handshaking = false := by
  cases hh : s.handshaking with
  | false => rfl
  | true =>
    obtain ⟨i, user, he⟩ := handshaking_iff.mp hh
    rw [he] at h
    cases h

theorem connectStep_closing {calm : Bool} {sh sh' : Shared} {pc pc' : ConnectPc}
    (h : connectStep env calm sh pc = some (sh', pc')) (hc : pc'.closing = true) :
    IsDone sh'.status ∨ pc.closing = true ∧ sh'.status = sh.status := by
  cases pc with
  | deferTest =>
    simp only [connectStep, Option.some.injEq, Prod.mk.injEq] at h
    obtain ⟨rfl, rfl⟩ := h
    split at hc
    · rename_i hst
      exact .inl (.inl hst)
    · cases hc
  | deferFail =>
    cases h
    exact .inl (.inr rfl)
  | deferClear =>
    cases h
    exact .inr ⟨rfl, rfl⟩
  | deferNotify =>
    obtain ⟨_, hn, he⟩ := Option.map_eq_some_iff.mp h
    cases he
    obtain ⟨-, rfl⟩ := notifyWaiting_eq hn
    exact .inr ⟨rfl, rfl⟩
  | _ => grind [connectStep, ConnectPc.closing, Shared.print]

theorem connectStep_done {calm : Bool} {sh sh' : Shared} {pc : ConnectPc}
    (h : connectStep env calm sh pc = some (sh', .done)) :
    pc = .deferNotify ∧ sh' = { sh with lock := .notifying .connect sh.waiting } := by
  cases pc with
  | deferNotify =>
    obtain ⟨_, hn, he⟩ := Option.map_eq_some_iff.mp h
    cases he
    exact ⟨rfl, (notifyWaiting_eq hn).2⟩
  | _ => grind [connectStep, Shared.print]

theorem connectStep_password {sh : Shared} {pc : ConnectPc} (hs : s.Closed)
    (h : connectStep env s.calm s.sh s.connect = some (sh, pc)) : s.password = .idle := by
  by_contra hp
  obtain ⟨i, user, he⟩ := handshaking_iff.mp (hs.password hp)
  have hcalm : s.calm = false := by simp [State.calm, hp]
  simp [connectStep, he, hcalm] at h

theorem State.Closed.frame (hs : s.Closed) (hc : u.connect = s.connect)
    (hp : u.password ≠ .idle → s.handshaking = true) (ht : u.threads = s.threads)
    (hst : s.connect.closing = true → u.sh.status = s.sh.status)
    (hl : ∀ rest, s.sh.lock = .notifying .connect rest →
      ∃ rest', u.sh.lock = .notifying .connect rest') : u.Closed := by
  refine ⟨fun h => ?_, fun h => ?_, fun h t => ?_, fun h t hch => ?_⟩
  · rw [State.handshaking, hc]
    exact hp h
  · rw [hc] at h
    exact hst h ▸ hs.status h
  · rw [hc] at h
    rw [ht, hst (h ▸ rfl)]
    exact hs.late h t
  · rw [hc] at h
    rw [ht] at hch
    obtain ⟨rest, hr⟩ := hs.parked h t hch
    exact hl rest hr

theorem State.Closed.setThread {t : ℕ} {pc : ThreadPc} (hs : s.Closed)
    (hlate : s.connect = .done → pc.late s.sh.status = false)
    (hch : s.connect = .done → pc.channel = none) : (s.setThread t pc).Closed := by
  refine ⟨hs.password, hs.status, fun h t' => ?_, fun h t' hne => ?_⟩
  · rw [setThread_threads]
    split
    · exact hlate h
    · exact hs.late h t'
  · rw [setThread_threads] at hne
    split at hne
    · exact (hne (hch h)).elim
    · exact hs.parked h t' hne

theorem startRequest_late (st : ConnectStatus) (r : Request) (inp : Control.ConnectIn) :
    (startRequest r inp).late st = false := by
  rcases startRequest_cases r inp with h | ⟨b, h⟩ | h <;> rw [h] <;> rfl

theorem step_closed (hlk : s.Locked) (hroom : s.room.Valid) (hs : s.Closed)
    (hg : Unhurried s a) (h : step env s a = some u) : u.Closed := by
  cases a with
  | connect =>
    obtain ⟨-, sh, pc, hc, rfl⟩ := step_connect h
    have hidle := connectStep_password hs hc
    refine ⟨fun hp => (hp hidle).elim, fun hcl => ?_, fun hd => ?_, fun hd t _ => ?_⟩
    · rcases connectStep_closing hc hcl with hdone | ⟨hcl', hst⟩
      · exact hdone
      · exact hst ▸ hs.status hcl'
    · obtain rfl : pc = .done := hd
      obtain ⟨hpc, rfl⟩ := connectStep_done hc
      exact hg hpc
    · obtain rfl : pc = .done := hd
      obtain ⟨-, rfl⟩ := connectStep_done hc
      exact ⟨_, rfl⟩
  | banner msg =>
    obtain ⟨-, hl, rfl⟩ := step_banner h
    exact hs.frame rfl hs.password rfl (fun _ => rfl) fun rest hr => by simp [hl] at hr
  | hostKeyCall hostname key =>
    obtain ⟨-, -, rfl⟩ := step_hostKeyCall h
    rw [hostKeyCall_frame]
    exact hs.frame rfl hs.password rfl (fun _ => rfl) fun rest hr => ⟨rest, hr⟩
  | hostKey written =>
    obtain ⟨-, sh, pc, hc, rfl⟩ := step_hostKey h
    cases hostKeyStep_move hc with
    | prompt c hpc hl =>
      refine hs.frame rfl hs.password rfl (fun hcl => ?_) fun rest hr => by simp [hl] at hr
      have hh := hg c hpc
      simp [not_handshaking_of_closing hcl] at hh
    | receive => exact hs.frame rfl hs.password rfl (fun _ => rfl) fun rest hr => ⟨rest, hr⟩
    | clear => exact hs.frame rfl hs.password rfl (fun _ => rfl) fun rest hr => ⟨rest, hr⟩
    | quiet _ _ _ _ hl =>
      exact hs.frame rfl hs.password rfl (fun _ => rfl) fun rest hr => ⟨rest, hl.notifying hr⟩
  | passwordCall =>
    obtain ⟨hh, -, rfl⟩ := step_passwordCall h
    exact hs.frame rfl (fun _ => hh) rfl (fun _ => rfl) fun rest hr => ⟨rest, hr⟩
  | password =>
    obtain ⟨-, sh, pc, hc, rfl⟩ := step_password h
    have hh : s.handshaking = true := by
      refine hs.password fun hi => ?_
      rw [hi] at hc
      cases hc
    have hst : s.connect.closing = true → sh.status = s.sh.status := fun hcl => by
      simp [not_handshaking_of_closing hcl] at hh
    cases passwordStep_move hc with
    | setStatus => exact hs.frame rfl (fun _ => hh) rfl hst fun rest hr => ⟨rest, hr⟩
    | register => exact hs.frame rfl (fun _ => hh) rfl hst fun rest hr => ⟨rest, hr⟩
    | quiet _ _ _ _ hl =>
      exact hs.frame rfl (fun _ => hh) rfl hst fun rest hr => ⟨rest, hl.notifying hr⟩
  | request t sid inp =>
    obtain ⟨-, rfl⟩ := step_request h
    exact hs.setThread (fun _ => startRequest_late ..) fun _ => startRequest_channel ..
  | connectLoop t =>
    obtain ⟨-, rfl⟩ := step_connectLoop h
    exact hs.setThread (fun _ => rfl) fun _ => rfl
  | thread t =>
    obtain ⟨-, sh, pc, hc, rfl⟩ := step_thread h
    have hst : s.connect.closing = true → sh.status = s.sh.status :=
      fun hcl => isDone_status (hs.status hcl) hc
    have hs' : State.Closed { s with sh := sh } :=
      hs.frame rfl hs.password rfl hst fun rest hr => ⟨rest, threadStep_notifying (hlk t) hc hr⟩
    refine hs'.setThread (fun hd => ?_) fun hd => threadStep_channel (hs.late hd t) hc
    have hcl : s.connect.closing = true := by rw [show s.connect = .done from hd]; rfl
    exact (hst hcl).symm ▸ threadStep_late (hs.status hcl) (hs.late hd t) hc
  | setInteractive =>
    obtain rfl := step_setInteractive h
    exact hs.frame rfl hs.password rfl (fun _ => rfl) fun rest hr => ⟨rest, hr⟩
  | send w =>
    obtain ⟨b, ch, rest, hl, hw, rfl⟩ := step_send h
    have hl' : ∀ rest', s.sh.lock = .notifying .connect rest' →
        ∃ rest'', Lock.notifying b rest = .notifying .connect rest'' := by
      intro rest' hr
      rw [hl] at hr
      cases hr
      exact ⟨rest, rfl⟩
    have hs' : State.Closed { s with sh := { s.sh with lock := .notifying b rest } } :=
      hs.frame rfl hs.password rfl (fun _ => rfl) hl'
    cases w with
    | password =>
      refine hs.frame rfl (fun _ => hs.password fun hi => ?_) rfl (fun _ => rfl) hl'
      simp [State.parked, hi, PasswordPc.channel] at hw
    | thread t =>
      simp only [State.wake]
      split
      · rename_i l _ _
        refine hs'.setThread (fun _ => ?_) fun _ => ?_ <;> cases l <;> rfl
      · exact hs'
  | unlock =>
    obtain ⟨b, hl, rfl⟩ := step_unlock h
    refine ⟨hs.password, hs.status, hs.late, fun _ t hch => ?_⟩
    exact (hch (hroom.parked_of_served (by simp [State.room, Shared.room, Lock.phase, hl])
      (.thread t))).elim

theorem run_closed {interactive : Bool} (h : Run (step env) Unhurried (init env interactive) s) :
    s.Closed := by
  refine h.invariant_under (Q := fun s => s.Locked ∧ s.room.Valid) (fun _ => reach_room) ?_ ?_
  · exact ⟨fun hp => (hp rfl).elim, fun hc => (by cases hc), fun hd => (by cases hd),
      fun hd => (by cases hd)⟩
  · intro t a u ⟨hl, hr⟩ hs hg he
    exact step_closed hl hr hs hg he

end Steps

/-- After the deferred function of `connect` nobody is parked in `Wait`. -/
theorem nobody_parked_after_connect {env : Env} {interactive : Bool} {s : State}
    (h : Run (step env) Unhurried (init env interactive) s) (hf : s.Finished) (w : Waiter) :
    s.parked w = none := by
  have hs := run_closed h
  cases w with
  | password =>
    have hi : s.password = .idle := by
      by_contra hp
      have hh := hs.password hp
      simp [not_handshaking_of_closing (s := s) (by rw [hf.1]; rfl)] at hh
    simp [State.parked, hi, PasswordPc.channel]
  | thread t =>
    by_contra hne
    obtain ⟨rest, hl⟩ := hs.parked hf.1 t hne
    have hb := hf.2
    simp [Shared.busy, hl] at hb

section Example

/-- The rest of `connect` after a handshake that succeeds. -/
def toDone : List Action :=
  [.connect, .connect, .unlock, .connect, .connect, .connect, .connect, .connect, .connect, .unlock]

/-- A thread that tested the status before the connection succeeded registers
after the final notification. -/
theorem thread_parked_after_connect :
    ¬∀ (env : Env) (interactive : Bool) (s : State),
      Reach (step env) (init env interactive) s → s.Finished → ∀ w, s.parked w = none := by
  intro hall
  obtain ⟨s, hr, hs⟩ := reach_of_check (step sampleEnv) (init sampleEnv false)
    (.connectLoop 0 :: List.replicate 4 (.thread 0) ++ toHandshake ++ toDone ++ [.thread 0])
    (fun s => s.connect = .done && !s.sh.busy .connect && s.parked (.thread 0) = some 0)
    (by decide)
  simp only [Bool.and_eq_true, decide_eq_true_eq, Bool.not_eq_true'] at hs
  have hn := hall sampleEnv false s hr hs.1 (.thread 0)
  simp [hs.2] at hn

def unhurried (n : ℕ) (s : State) : Action → Bool
  | .connect => (List.range n).all fun t => !(s.threads t).late s.sh.status
  | .hostKey _ => s.handshaking
  | _ => true

theorem unhurried_sound {n : ℕ} {s : State} {a : Action} (hs : s.IdleFrom n)
    (h : unhurried n s a = true) : Unhurried s a := by
  cases a with
  | connect =>
    intro _ t
    simpa using hs.forall (p := fun pc => !pc.late s.sh.status) rfl h t
  | hostKey written => exact fun _ _ => h
  | _ => trivial

/-- A thread that is parked when the connection succeeds is woken. -/
theorem thread_woken_after_connect :
    ∃ s, Run (step sampleEnv) Unhurried (init sampleEnv false) s ∧ s.Finished ∧
      s.parked (.thread 0) = none := by
  obtain ⟨s, hs, hp⟩ := (Option.any_eq_true ..).mp
    (show (exec (guarded (fun s a => a.below 1 && unhurried 1 s a) (step sampleEnv))
      (init sampleEnv false) (toHandshake ++ .connect :: .connect :: .unlock :: .connectLoop 0 ::
        List.replicate 5 (.thread 0) ++ List.replicate 6 .connect ++
          [.send (.thread 0), .unlock])).any (fun s => s.connect = .done && !s.sh.busy .connect) =
            true by decide)
  simp only [Bool.and_eq_true, decide_eq_true_eq, Bool.not_eq_true'] at hp
  have hpath : Run (step sampleEnv) Unhurried (init sampleEnv false) s :=
    run_of_exec_below (fun _ _ => unhurried_sound) hs
  exact ⟨s, hpath, hp, nobody_parked_after_connect hpath hp (.thread 0)⟩

end Example

end SshTunnel.Connector
