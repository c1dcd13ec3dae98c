import SshTunnel.Connector.Waiting

/-!
# Requests and prompts

A `Server.Connect` request leaves its loop when it reads a prompt status. It
misses the prompt when it read an older status and registers in `Wait` after the
last notification: the passphrase prompt is not announced by a notification at
all, and the host key prompt only to the requests that are registered by then.
-/

namespace SshTunnel.Connector

open Lib.Notify Lib.Runs
open Control (ConnectStatus ConnectIn)

/-- The request has read a status other than a prompt and has not yet registered. -/
def ThreadPc.committed : ThreadPc → Bool
  | .done1 (.request _ st) => !decide (IsPrompt st)
  | .done2 (.request _ st) => !decide (IsPrompt st)
  | .wait (.request ..) (.receive _) => false
  | .wait (.request ..) _ => true
  | _ => false

def ThreadPc.parkedRequest : ThreadPc → Bool
  | .wait (.request ..) (.receive _) => true
  | _ => false

/-- The thread is inside `Server.Connect`. -/
def ThreadPc.inRequest : ThreadPc → Bool
  | .done1 .connect | .done2 .connect | .wait .connect _ => false
  | pc => !pc.atRest

/-- The `connect` goroutine is blocked until the user answers. -/
def State.WaitsForUser (s : State) : Prop :=
  (s.sh.status = .needPassphrase ∧ ∃ w, s.password = .wait (.receive w)) ∨
  (s.sh.status = .unknownHostKey ∧ s.sh.busy .hostKey = false ∧
    ∃ c ch, s.hostKey = .receive c ch ∧ s.sh.buffer ch = none)

/-- The steps that raise a prompt find no request that will miss it: none on its
way into `Wait` and, since the password callback does not notify, for the
passphrase prompt none in `Wait`. -/
def Announced (s : State) : Action → Prop
  | .password => s.password = .setStatus →
      ∀ t, (s.threads t).committed = false ∧ (s.threads t).parkedRequest = false
  | .hostKey _ => ∀ c, s.hostKey = .prompt c → ∀ t, (s.threads t).committed = false
  | _ => True

/-- No request misses the prompt that is up. Requests parked when the host key
prompt was raised are being notified. -/
structure State.Seen (s : State) : Prop where
  committed : IsPrompt s.sh.status → ∀ t, (s.threads t).committed = false
  parked : IsPrompt s.sh.status → ∀ t, (s.threads t).parkedRequest = true →
    s.sh.status = .unknownHostKey ∧ ∃ rest, s.sh.lock = .notifying .hostKey rest

/-- A step that raises no prompt and brings no request nearer to missing one. -/
structure Improves (s u : State) : Prop where
  status : u.sh.status = s.sh.status ∨ ¬IsPrompt u.sh.status
  committed : ∀ t, (u.threads t).committed = true →
    (s.threads t).committed = true ∨ ¬IsPrompt s.sh.status
  parked : ∀ t, (u.threads t).parkedRequest = true →
    (s.threads t).parkedRequest = true ∨ (s.threads t).committed = true
  lock : ∀ t, (u.threads t).parkedRequest = true → ∀ rest, s.sh.lock = .notifying .hostKey rest →
    ∃ rest', u.sh.lock = .notifying .hostKey rest'

theorem State.Seen.improve {s u : State} (hs : s.Seen) (h : Improves s u) : u.Seen := by
  have hprompt : IsPrompt u.sh.status → u.sh.status = s.sh.status ∧ IsPrompt s.sh.status := by
    intro hp
    rcases h.status with he | hn
    · exact ⟨he, he ▸ hp⟩
    · exact (hn hp).elim
  refine ⟨fun hp t => ?_, fun hp t ht => ?_⟩
  · have hnone := hs.committed (hprompt hp).2 t
    by_contra hc
    rcases h.committed t (by simpa using hc) with hc | hn
    · simp [hnone] at hc
    · exact hn (hprompt hp).2
  · obtain ⟨he, hps⟩ := hprompt hp
    rcases h.parked t ht with hpk | hc
    · obtain ⟨hst, rest, hl⟩ := hs.parked hps t hpk
      exact ⟨he.trans hst, h.lock t ht rest hl⟩
    · simp [hs.committed hps t] at hc

section Threads

variable {t : ℕ} {sh sh' : Shared} {pc pc' : ThreadPc}

theorem threadAt_committed (l : Loop) (w : Option WaitPc) (h : (threadAt l w).committed = true) :
    ∃ r st, l = .request r st := by
  cases l with
  | request r st => exact ⟨r, st, rfl⟩
  | connect => cases w <;> cases h

theorem wait_committed {l : Loop} {w : WaitPc} (hl : ∃ r st, l = .request r st)
    (hw : w.channel = none) : (ThreadPc.wait l w).committed = true := by
  obtain ⟨r, st, rfl⟩ := hl
  cases w with
  | receive => cases hw
  | _ => rfl

theorem leave_committed (l : Loop) : l.leave.committed = false := by
  cases l <;> rfl

theorem stay_committed {l : Loop} (h : l.stay.committed = true) :
    (ThreadPc.done2 l).committed = true := by
  cases l with
  | connect => cases h
  | request r st =>
    simp only [Loop.stay] at h
    split at h
    · cases h
    · rename_i hn
      simpa [ThreadPc.committed] using hn

/-- A request commits itself only by reading a status other than a prompt. -/
theorem threadStep_committed (h : threadStep t sh pc = some (sh', pc'))
    (hc : pc'.committed = true) : pc.committed = true ∨ ¬IsPrompt sh.status := by
  cases pc with
  | idle | returned | failed | panicked | exited => cases h
  | setPassphrase r inp =>
    simp only [threadStep, Option.ite_none_right_eq_some] at h
    obtain ⟨-, h⟩ := h
    have hpc : pc' = afterPassphrase r inp := by split at h <;> cases h <;> rfl
    rcases afterPassphrase_cases r inp with ⟨b, hb⟩ | hb <;> rw [hpc, hb] at hc <;> cases hc
  | acceptHostKey r b =>
    simp only [threadStep, Option.ite_none_right_eq_some] at h
    obtain ⟨-, h⟩ := h
    split at h <;> cases h <;> cases hc
  | sendDecision r b =>
    simp only [threadStep] at h
    split at h
    · cases h
      cases hc
    · simp only [Option.ite_none_right_eq_some, Option.some.injEq] at h
      cases h.2
      cases hc
  | messageCount r =>
    simp only [threadStep, Option.ite_none_right_eq_some, Option.some.injEq] at h
    cases h.2
    split at hc <;> cases hc
  | message r =>
    simp only [threadStep, Option.ite_none_right_eq_some] at h
    obtain ⟨-, h⟩ := h
    split at h <;> cases h <;> cases hc
  | increment =>
    cases h
    cases hc
  | readStatus r =>
    cases h
    exact .inr (by simpa [ThreadPc.committed] using hc)
  | done1 l =>
    cases h
    split at hc
    · simp [leave_committed] at hc
    · exact .inl (by cases l <;> exact hc)
  | done2 l =>
    cases h
    split at hc
    · simp [leave_committed] at hc
    · exact .inl (stay_committed hc)
  | wait l w =>
    obtain ⟨⟨_, w'⟩, hwait, he⟩ := Option.map_eq_some_iff.mp h
    cases he
    refine .inl (wait_committed (threadAt_committed l w' hc) ?_)
    cases waitStep_move hwait with
    | register hw _ =>
      rw [hw]
      rfl
    | quiet _ hw _ => exact hw
  | outStatus r =>
    cases h
    split at hc <;> cases hc
  | fingerprint r stamp =>
    simp only [threadStep, Option.ite_none_right_eq_some, Option.some.injEq] at h
    cases h.2
    cases hc

theorem parkedRequest_channel (h : pc.parkedRequest = true) : pc.channel ≠ none := by
  cases pc with
  | wait l w =>
    cases l with
    | connect => cases h
    | request r st =>
      cases w with
      | receive ch => simp [ThreadPc.channel, WaitPc.channel]
      | _ => cases h
  | _ => cases h

theorem threadStep_parkedRequest (h : threadStep t sh pc = some (sh', pc'))
    (hp : pc'.parkedRequest = true) : pc.committed = true := by
  have hch := parkedRequest_channel hp
  cases threadStep_move h with
  | accept | panic | send => exact (hch rfl).elim
  | passphrase r inp =>
    rcases afterPassphrase_cases r inp with ⟨b, hb⟩ | hb <;> rw [hb] at hp <;> cases hp
  | register l hpc hl =>
    cases l with
    | request r st =>
      rw [hpc]
      rfl
    | connect => cases hp
  | quiet _ _ _ hch' => exact (hch hch').elim

end Threads

section Steps

variable {env : Env} {s u : State} {a : Action}

theorem improves_of_threads {b : Agent} (ht : u.threads = s.threads)
    (hst : u.sh.status = s.sh.status ∨ ¬IsPrompt u.sh.status) (hl : LockMove b s.sh u.sh.lock) :
    Improves s u := by
  exact ⟨hst, fun t hc => .inl (ht ▸ hc), fun t hp => .inl (ht ▸ hp),
    fun t _ rest hr => ⟨rest, hl.notifying hr⟩⟩

theorem improves_setThread {sh : Shared} {t : ℕ} {pc : ThreadPc}
    (hst : sh.status = s.sh.status ∨ ¬IsPrompt sh.status)
    (hc : pc.committed = true → (s.threads t).committed = true ∨ ¬IsPrompt s.sh.status)
    (hp : pc.parkedRequest = true → (s.threads t).committed = true)
    (hl : ∀ rest, s.sh.lock = .notifying .hostKey rest →
      ∃ rest', sh.lock = .notifying .hostKey rest') :
    Improves s ({ s with sh := sh }.setThread t pc) := by
  refine ⟨hst, fun t' hc' => ?_, fun t' hp' => ?_, fun t' _ => hl⟩
  · rw [setThread_threads] at hc'
    split at hc'
    · rename_i he
      exact he ▸ hc hc'
    · exact .inl hc'
  · rw [setThread_threads] at hp'
    split at hp'
    · rename_i he
      exact .inr (he ▸ hp hp')
    · exact .inl hp'

theorem not_isPrompt_handshake : ¬IsPrompt .handshake := by decide

theorem threadStep_status {t : ℕ} {sh sh' : Shared} {pc pc' : ThreadPc}
    (h : threadStep t sh pc = some (sh', pc')) :
    sh'.status = sh.status ∨ ¬IsPrompt sh'.status := by
  cases threadStep_move h with
  | accept => exact .inr not_isPrompt_handshake
  | passphrase => exact .inr not_isPrompt_handshake
  | _ => exact .inl rfl

theorem startRequest_fresh (r : Request) (inp : ConnectIn) :
    (startRequest r inp).committed = false ∧ (startRequest r inp).parkedRequest = false := by
  rcases startRequest_cases r inp with h | ⟨b, h⟩ | h <;> rw [h] <;> exact ⟨rfl, rfl⟩

theorem again_fresh (l : Loop) :
    l.again.committed = false ∧ l.again.parkedRequest = false := by
  cases l <;> exact ⟨rfl, rfl⟩

theorem wake_improves {w : Waiter} {b : Agent} {ch : ℕ} {rest : List ℕ}
    (hl : s.sh.lock = .notifying b (ch :: rest)) :
    Improves s (State.wake { s with sh := { s.sh with lock := .notifying b rest } } w) := by
  have hlock : ∀ rest', s.sh.lock = .notifying .hostKey rest' →
      ∃ rest'', Lock.notifying b rest = .notifying .hostKey rest'' := by
    intro rest' hr
    rw [hl] at hr
    cases hr
    exact ⟨rest, rfl⟩
  have hsame : Improves s { s with sh := { s.sh with lock := .notifying b rest } } :=
    ⟨.inl rfl, fun _ hc => .inl hc, fun _ hp => .inl hp, fun _ _ => hlock⟩
  cases w with
  | password => exact ⟨.inl rfl, fun _ hc => .inl hc, fun _ hp => .inl hp, fun _ _ => hlock⟩
  | thread t =>
    simp only [State.wake]
    split
    · rename_i l _ _
      refine improves_setThread (.inl rfl) ?_ ?_ hlock
      · intro hc
        simp [threadAt, (again_fresh l).1] at hc
      · intro hp
        simp [threadAt, (again_fresh l).2] at hp
    · exact hsame

theorem step_seen (hlk : s.Locked) (hroom : s.room.Valid) (hs : s.Seen) (hg : Announced s a)
    (h : step env s a = some u) : u.Seen := by
  cases a with
  | connect =>
    obtain ⟨-, sh, pc, hc, rfl⟩ := step_connect h
    obtain ⟨_, _, _, _, _, rfl, hl, hst⟩ := connectStep_frame hc
    exact hs.improve (improves_of_threads rfl hst hl)
  | banner msg =>
    obtain ⟨-, hl, rfl⟩ := step_banner h
    exact hs.improve (improves_of_threads (b := .connect) rfl (.inl rfl) (.inr ⟨hl, rfl⟩))
  | hostKeyCall hostname key =>
    obtain ⟨-, -, rfl⟩ := step_hostKeyCall h
    rw [hostKeyCall_frame]
    exact hs.improve (improves_of_threads (b := .hostKey) rfl (.inl rfl) (.inl rfl))
  | hostKey written =>
    obtain ⟨-, sh, pc, hc, rfl⟩ := step_hostKey h
    cases hostKeyStep_move hc with
    | prompt c hpc hl => exact ⟨fun _ => hg c hpc, fun _ _ _ => ⟨rfl, _, rfl⟩⟩
    | receive => exact hs.improve (improves_of_threads (b := .hostKey) rfl (.inl rfl) (.inl rfl))
    | clear => exact hs.improve (improves_of_threads (b := .hostKey) rfl (.inl rfl) (.inl rfl))
    | quiet _ _ _ _ hl => exact hs.improve (improves_of_threads rfl (.inl rfl) hl)
  | passwordCall =>
    obtain ⟨-, -, rfl⟩ := step_passwordCall h
    exact hs.improve (improves_of_threads (b := .password) rfl (.inl rfl) (.inl rfl))
  | password =>
    obtain ⟨-, sh, pc, hc, rfl⟩ := step_password h
    cases passwordStep_move hc with
    | setStatus hpc =>
      refine ⟨fun _ t => (hg hpc t).1, fun _ t ht => ?_⟩
      simp [(hg hpc t).2] at ht
    | register => exact hs.improve (improves_of_threads (b := .password) rfl (.inl rfl) (.inl rfl))
    | quiet _ _ st _ hl hst =>
      refine hs.improve (improves_of_threads rfl ?_ hl)
      rcases hst with rfl | rfl
      · exact .inl rfl
      · exact .inr not_isPrompt_handshake
  | request t sid inp =>
    obtain ⟨-, rfl⟩ := step_request h
    have hf := startRequest_fresh ⟨sid, (s.threads t).shown, []⟩ inp
    refine hs.improve (improves_setThread (.inl rfl) ?_ ?_ fun rest hr => ⟨rest, hr⟩) <;> simp [hf]
  | connectLoop t =>
    obtain ⟨-, rfl⟩ := step_connectLoop h
    refine hs.improve (improves_setThread (.inl rfl) ?_ ?_ fun rest hr => ⟨rest, hr⟩) <;>
      simp [ThreadPc.committed, ThreadPc.parkedRequest]
  | thread t =>
    obtain ⟨-, sh, pc, hc, rfl⟩ := step_thread h
    exact hs.improve (improves_setThread (threadStep_status hc) (threadStep_committed hc)
      (threadStep_parkedRequest hc) fun rest hr => ⟨rest, threadStep_notifying (hlk t) hc hr⟩)
  | setInteractive =>
    obtain rfl := step_setInteractive h
    exact hs.improve (improves_of_threads (b := .connect) rfl (.inl rfl) (.inl rfl))
  | send w =>
    obtain ⟨b, ch, rest, hl, hw, rfl⟩ := step_send h
    exact hs.improve (wake_improves hl)
  | unlock =>
    obtain ⟨b, hl, rfl⟩ := step_unlock h
    -- the list has been served, so no request is parked any more
    refine ⟨hs.committed, fun _ t ht => ?_⟩
    have hnone : (s.threads t).channel = none :=
      hroom.parked_of_served (by simp [State.room, Shared.room, Lock.phase, hl]) (.thread t)
    exact (parkedRequest_channel ht hnone).elim

theorem run_seen {interactive : Bool} (h : Run (step env) Announced (init env interactive) s) :
    s.Seen := by
  refine h.invariant_under (Q := fun s => s.Locked ∧ s.room.Valid) (fun _ => reach_room) ?_ ?_
  · exact ⟨fun _ _ => rfl, fun _ _ ht => by cases ht⟩
  · intro t a u ⟨hl, hr⟩ hs hg he
    exact step_seen hl hr hs hg he

/-- A thread that is inside a call and not parked can move when the mutex is free. -/
theorem threadStep_enabled {t : ℕ} {sh : Shared} {pc : ThreadPc} (hl : sh.lock = .free)
    (hr : pc.atRest = false) (hch : pc.channel = none) (hs : ∀ r b, pc ≠ .sendDecision r b) :
    (threadStep t sh pc).isSome = true := by
  cases pc with
  | idle | returned | failed | panicked | exited => cases hr
  | sendDecision r b => exact (hs r b rfl).elim
  | wait l w =>
    cases w with
    | receive ch => cases hch
    | done1 | done2 | register => simp [threadStep, waitStep, hl]
  | setPassphrase | acceptHostKey =>
    simp only [threadStep, hl, if_true]
    split <;> rfl
  | message =>
    simp only [threadStep, hl, if_true]
    split <;> rfl
  | messageCount | increment | readStatus | done1 | done2 | outStatus | fingerprint =>
    simp [threadStep, hl]

theorem inRequest_atRest {pc : ThreadPc} (h : pc.inRequest = true) : pc.atRest = false := by
  cases pc with
  | idle | returned | failed | panicked | exited => cases h
  | _ => rfl

theorem channel_eq_none {pc : ThreadPc} (h : pc.inRequest = true) (hp : pc.parkedRequest = false) :
    pc.channel = none := by
  cases pc with
  | wait l w =>
    cases l with
    | connect => cases h
    | request r st => cases w <;> first | rfl | cases hp
  | _ => rfl

end Steps

/-- When `connect` waits for the user, every request that is still in its call
can take a step when the mutex is free, and has not yet passed the prompt. -/
theorem requests_see_prompt {env : Env} {interactive : Bool} {s : State}
    (h : Run (step env) Announced (init env interactive) s) (hw : s.WaitsForUser) (t : ℕ)
    (ht : (s.threads t).inRequest = true) :
    s.parked (.thread t) = none ∧ (s.threads t).committed = false ∧
      (s.sh.lock = .free → (step env s (.thread t)).isSome = true) := by
  have hseen := run_seen h
  have hprompt : IsPrompt s.sh.status := hw.imp And.left And.left
  have hparked : (s.threads t).parkedRequest = false := by
    by_contra hp
    obtain ⟨hst, rest, hl⟩ := hseen.parked hprompt t (by simpa using hp)
    rcases hw with ⟨hn, -⟩ | ⟨-, hb, -⟩
    · simp [hst] at hn
    · simp [Shared.busy, hl] at hb
  have hch := channel_eq_none ht hparked
  refine ⟨hch, hseen.committed hprompt t, fun hl => ?_⟩
  have hs : ∀ r b, s.threads t ≠ .sendDecision r b := by
    intro r b hpc
    simp [(reach_room h).1 t r b hpc] at hl
  have he := threadStep_enabled (t := t) hl (inRequest_atRest ht) hch hs
  simpa [step, Shared.busy, hl] using he

section Example

/-- A request that waits during the handshake stays parked when the password
callback asks for the passphrase. -/
theorem request_parked_at_prompt :
    ¬∀ (env : Env) (interactive : Bool) (s : State),
      Reach (step env) (init env interactive) s → s.WaitsForUser →
        ∀ t, (s.threads t).inRequest = true → s.parked (.thread t) = none := by
  intro hall
  obtain ⟨s, hr, hs⟩ := reach_of_check (step sampleEnv) (init sampleEnv true)
    (toHandshake ++ .passwordCall :: .request 0 0 noInput :: List.replicate 10 (.thread 0) ++
      List.replicate 7 .password)
    (fun s => s.sh.status = .needPassphrase && s.password = .wait (.receive 1) &&
      (s.threads 0).inRequest && s.parked (.thread 0) = some 0) (by decide)
  simp only [Bool.and_eq_true, decide_eq_true_eq] at hs
  obtain ⟨⟨⟨hst, hp⟩, hin⟩, hpk⟩ := hs
  have hn := hall sampleEnv true s hr (.inl ⟨hst, 1, hp⟩) 0 hin
  simp [hpk] at hn

def announced (n : ℕ) (s : State) : Action → Bool
  | .password => s.password ≠ .setStatus || (List.range n).all fun t =>
      !(s.threads t).committed && !(s.threads t).parkedRequest
  | .hostKey _ => (List.range n).all fun t => !(s.threads t).committed
  | _ => true

theorem announced_sound {n : ℕ} {s : State} {a : Action} (hs : s.IdleFrom n)
    (h : announced n s a = true) : Announced s a := by
  cases a with
  | password =>
    intro hp t
    simp only [announced, hp, ne_eq, not_true_eq_false, decide_false, Bool.false_or] at h
    simpa using hs.forall (p := fun pc => !pc.committed && !pc.parkedRequest) rfl h t
  | hostKey written =>
    intro c _ t
    simpa using hs.forall (p := fun pc => !pc.committed) rfl h t
  | _ => trivial

theorem request_sees_passphrase_prompt :
    ∃ s, Run (step sampleEnv) Announced (init sampleEnv true) s ∧ s.WaitsForUser ∧
      (s.threads 0).inRequest = true ∧ s.parked (.thread 0) = none := by
  obtain ⟨s, hs, hp⟩ := (Option.any_eq_true ..).mp
    (show (exec (guarded (fun s a => a.below 1 && announced 1 s a) (step sampleEnv))
      (init sampleEnv true) (toHandshake ++ .passwordCall :: List.replicate 7 .password ++
        [.request 0 0 noInput])).any (fun s => s.sh.status = .needPassphrase &&
          s.password = .wait (.receive 0) && (s.threads 0).inRequest) = true by decide)
  simp only [Bool.and_eq_true, decide_eq_true_eq] at hp
  obtain ⟨⟨hst, hpw⟩, hin⟩ := hp
  have hpath : Run (step sampleEnv) Announced (init sampleEnv true) s :=
    run_of_exec_below (fun _ _ => announced_sound) hs
  have hw : s.WaitsForUser := .inl ⟨hst, 0, hpw⟩
  exact ⟨s, hpath, hw, hin, (requests_see_prompt hpath hw 0 hin).1⟩

end Example

end SshTunnel.Connector
