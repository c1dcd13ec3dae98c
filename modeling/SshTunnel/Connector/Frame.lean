import SshTunnel.Connector.Step

/-!
# What each goroutine of a connector can change

One lemma per goroutine: the fields it may change, how it may change the mutex,
and which statuses it writes. The lemmas give the new fields as an update of the
old ones, so everything not named in the update is unchanged.
-/

namespace SshTunnel.Connector

open Lib.Net (Text)
open Control (ConnectStatus ConnectIn)

variable {env : Env} {sh sh' : Shared}

/-- The mutex is left alone, or taken to notify. -/
def LockMove (a : Agent) (sh : Shared) (lock : Lock) : Prop :=
  lock = sh.lock ∨ sh.lock = .free ∧ lock = .notifying a sh.waiting

theorem LockMove.stable {a : Agent} {lock : Lock} (h : LockMove a sh lock)
    (hl : sh.lock ≠ .free) : lock = sh.lock :=
  h.resolve_right fun ⟨hf, _⟩ => hl hf

theorem LockMove.notifying {a b : Agent} {lock : Lock} {rest : List ℕ} (h : LockMove a sh lock)
    (hl : sh.lock = .notifying b rest) : lock = .notifying b rest :=
  (h.stable (by simp [hl])).trans hl

theorem print_eq {a : Agent} {msg : Text} (h : sh.print a msg = some sh') :
    sh.lock = .free ∧
      sh' = { sh with messages := sh.messages ++ [msg], lock := .notifying a sh.waiting } := by
  simp only [Shared.print, Option.ite_none_right_eq_some, Option.some.injEq] at h
  exact ⟨h.1, h.2.symm⟩

theorem notifyWaiting_eq {a : Agent} (h : sh.notifyWaiting a = some sh') :
    sh.lock = .free ∧ sh' = { sh with lock := .notifying a sh.waiting } := by
  simp only [Shared.notifyWaiting, Option.ite_none_right_eq_some, Option.some.injEq] at h
  exact ⟨h.1, h.2.symm⟩

theorem connectStep_frame {calm : Bool} {pc pc' : ConnectPc}
    (h : connectStep env calm sh pc = some (sh', pc')) :
    ∃ messages lock status err client,
      sh' = { sh with
        messages := messages, lock := lock, status := status, err := err, client := client } ∧
      LockMove .connect sh lock ∧ (status = sh.status ∨ ¬IsPrompt status) := by
  have hprint : ∀ msg sh'', sh.print .connect msg = some sh'' → ∃ messages lock status err client,
      sh'' = { sh with
        messages := messages, lock := lock, status := status, err := err, client := client } ∧
      LockMove .connect sh lock ∧ (status = sh.status ∨ ¬IsPrompt status) := by
    intro msg sh'' hp
    obtain ⟨hf, rfl⟩ := print_eq hp
    exact ⟨_, _, _, _, _, rfl, .inr ⟨hf, rfl⟩, .inl rfl⟩
  cases pc with
  | loop i user =>
    simp only [connectStep] at h
    split at h
    · cases h
      exact ⟨_, _, _, _, _, rfl, .inl rfl, .inl rfl⟩
    · obtain ⟨_, hp, he⟩ := Option.map_eq_some_iff.mp h
      cases he
      exact hprint _ _ hp
  | printDialFailed | printHandshakeFailed | printHandshakeSucceeded =>
    obtain ⟨_, hp, he⟩ := Option.map_eq_some_iff.mp h
    cases he
    exact hprint _ _ hp
  | dialTimeout =>
    simp only [connectStep] at h
    split at h <;> cases h <;> exact ⟨_, _, _, _, _, rfl, .inl rfl, .inl rfl⟩
  | newClientConn =>
    simp only [connectStep] at h
    split at h
    · split at h <;> cases h <;> exact ⟨_, _, _, _, _, rfl, .inl rfl, .inl rfl⟩
    · cases h
  | deferNotify =>
    obtain ⟨_, hp, he⟩ := Option.map_eq_some_iff.mp h
    cases he
    obtain ⟨hf, rfl⟩ := notifyWaiting_eq hp
    exact ⟨_, _, _, _, _, rfl, .inr ⟨hf, rfl⟩, .inl rfl⟩
  | setConnecting | setHandshake | setSucceeded | deferFail =>
    cases h
    exact ⟨_, _, _, _, _, rfl, .inl rfl, .inr (by decide)⟩
  | setClient | clearErr | deferTest | deferClear =>
    cases h
    exact ⟨_, _, _, _, _, rfl, .inl rfl, .inl rfl⟩
  | done => cases h

theorem hostKeyCall_frame (hostname : Text) (key : PublicKey) :
    (hostKeyCall env sh hostname key).1 =
      { sh with
        calls := sh.calls + 1
        log := .called sh.calls hostname key :: sh.log } := by
  simp only [hostKeyCall]
  split <;> rfl

/-- The call and the channel of the prompt that the host key callback has raised. -/
def HostKeyPc.asking : HostKeyPc → Option (Call × ℕ)
  | .receive c ch | .clearPending c ch _ => some (c, ch)
  | _ => none

theorem hostKeyCall_asking (hostname : Text) (key : PublicKey) :
    (hostKeyCall env sh hostname key).2.asking = none := by
  simp only [hostKeyCall]
  split <;> rfl

/-- The steps of the host key callback. Outside its prompt it only prints and
records. -/
inductive HostKeyMove (env : Env) (sh : Shared) (pc : HostKeyPc) : Shared → HostKeyPc → Prop
  | prompt (c : Call) (hpc : pc = .prompt c) (hl : sh.lock = .free) :
    HostKeyMove env sh pc
      { sh with
        pendingHostKey := some ⟨c.hostname, c.key, env.fingerprintSHA256 c.key, sh.nextChan⟩
        nextChan := sh.nextChan + 1
        status := .unknownHostKey
        messages := sh.messages ++ [authenticityText c.hostname (env.fingerprintSHA256 c.key)]
        log := .prompted c.id sh.nextChan :: sh.log
        lock := .notifying .hostKey sh.waiting }
      (.receive c sh.nextChan)
  | receive (c : Call) (ch : ℕ) (b : Bool) (hpc : pc = .receive c ch) (hb : sh.buffer ch = some b) :
    HostKeyMove env sh pc { sh with buffer := Function.update sh.buffer ch none }
      (.clearPending c ch b)
  | clear (c : Call) (ch : ℕ) (b : Bool) (hpc : pc = .clearPending c ch b)
      (hl : sh.lock = .free) :
    HostKeyMove env sh pc { sh with pendingHostKey := none } (if b then .append c else .ret c false)
  | quiet (messages : List Text) (lock : Lock) (log : List Event) (pc' : HostKeyPc)
      (hl : LockMove .hostKey sh lock) (hpc : pc.asking = none) (hpc' : pc'.asking = none)
      (hlog : ∀ t p b shown, .decided t p b shown ∈ log → .decided t p b shown ∈ sh.log) :
    HostKeyMove env sh pc { sh with messages := messages, lock := lock, log := log } pc'

theorem hostKeyStep_move {written : Bool} {pc pc' : HostKeyPc}
    (h : hostKeyStep env written sh pc = some (sh', pc')) : HostKeyMove env sh pc sh' pc' := by
  cases pc with
  | idle => cases h
  | printMismatch | printUnknown | printAdded =>
    obtain ⟨_, hp, he⟩ := Option.map_eq_some_iff.mp h
    cases he
    obtain ⟨hf, rfl⟩ := print_eq hp
    exact .quiet _ _ _ _ (.inr ⟨hf, rfl⟩) rfl rfl fun _ _ _ _ hd => hd
  | prompt c =>
    simp only [hostKeyStep, Option.ite_none_right_eq_some, Option.some.injEq] at h
    obtain ⟨hf, he⟩ := h
    cases he
    exact .prompt c rfl hf
  | receive c ch =>
    obtain ⟨b, hb, he⟩ := Option.map_eq_some_iff.mp h
    cases he
    exact .receive c ch b rfl hb
  | clearPending c ch b =>
    simp only [hostKeyStep, Option.ite_none_right_eq_some, Option.some.injEq] at h
    obtain ⟨hf, he⟩ := h
    cases he
    exact .clear c ch b rfl hf
  | testInteractive | append | ret =>
    cases h
    refine .quiet _ _ _ _ (.inl rfl) rfl (by first | rfl | (split <;> rfl)) ?_
    simp

/-- The steps of `Wait`: it registers, or moves on without changing anything. -/
inductive WaitMove (sh : Shared) (w : WaitPc) : Shared → Option WaitPc → Prop
  | register (hw : w = .register) (hl : sh.lock = .free) :
    WaitMove sh w
      { sh with waiting := sh.waiting ++ [sh.nextChan], nextChan := sh.nextChan + 1 }
      (some (.receive sh.nextChan))
  | quiet (w' : Option WaitPc) (hw : w.channel = none) (hw' : w'.bind WaitPc.channel = none) :
    WaitMove sh w sh w'

theorem waitStep_register {w' : Option WaitPc} (h : waitStep sh .register = some (sh', w')) :
    sh.lock = .free ∧ w' = some (.receive sh.nextChan) ∧
      sh' = { sh with waiting := sh.waiting ++ [sh.nextChan], nextChan := sh.nextChan + 1 } := by
  simp only [waitStep, Option.ite_none_right_eq_some, Option.some.injEq] at h
  obtain ⟨hf, he⟩ := h
  cases he
  exact ⟨hf, rfl, rfl⟩

theorem waitStep_move {w : WaitPc} {w' : Option WaitPc} (h : waitStep sh w = some (sh', w')) :
    WaitMove sh w sh' w' := by
  cases w with
  | done1 | done2 =>
    cases h
    exact .quiet _ rfl (by split <;> rfl)
  | register =>
    obtain ⟨hf, rfl, rfl⟩ := waitStep_register h
    exact .register rfl hf
  | receive => cases h

theorem passwordAt_channel (w : Option WaitPc) :
    (passwordAt w).channel = w.bind WaitPc.channel := by
  cases w <;> rfl

theorem threadAt_channel (l : Loop) (w : Option WaitPc) :
    (threadAt l w).channel = w.bind WaitPc.channel := by
  cases w with
  | none => cases l <;> rfl
  | some w => rfl

inductive PasswordMove (sh : Shared) (pc : PasswordPc) : Shared → PasswordPc → Prop
  | setStatus (hpc : pc = .setStatus) :
    PasswordMove sh pc { sh with status := .needPassphrase } .done1
  | register (hpc : pc = .wait .register) (hl : sh.lock = .free) :
    PasswordMove sh pc
      { sh with waiting := sh.waiting ++ [sh.nextChan], nextChan := sh.nextChan + 1 }
      (.wait (.receive sh.nextChan))
  | quiet (passphrase : Text) (lock : Lock) (status : ConnectStatus) (pc' : PasswordPc)
      (hl : LockMove .password sh lock) (hst : status = sh.status ∨ status = .handshake)
      (hch : pc.channel = none) (hch' : pc'.channel = none) :
    PasswordMove sh pc { sh with passphrase := passphrase, lock := lock, status := status } pc'

theorem passwordStep_move {pc pc' : PasswordPc} (h : passwordStep sh pc = some (sh', pc')) :
    PasswordMove sh pc sh' pc' := by
  cases pc with
  | idle => cases h
  | wait w =>
    obtain ⟨⟨_, w'⟩, hwait, he⟩ := Option.map_eq_some_iff.mp h
    cases he
    cases waitStep_move hwait with
    | register hw hl => exact .register (hw ▸ rfl) hl
    | quiet _ hw hw' => exact .quiet _ _ _ _ (.inl rfl) (.inl rfl) hw (passwordAt_channel _ ▸ hw')
  | notify p =>
    obtain ⟨_, hn, he⟩ := Option.map_eq_some_iff.mp h
    cases he
    obtain ⟨hf, rfl⟩ := notifyWaiting_eq hn
    exact .quiet _ _ _ _ (.inr ⟨hf, rfl⟩) (.inl rfl) rfl rfl
  | setStatus =>
    cases h
    exact .setStatus rfl
  | setHandshake p =>
    cases h
    exact .quiet _ _ _ _ (.inl rfl) (.inr rfl) rfl rfl
  | done1 | done2 | testPassphrase =>
    cases h
    exact .quiet _ _ _ _ (.inl rfl) (.inl rfl) rfl (by split <;> rfl)
  | readPassphrase | clearPassphrase =>
    cases h
    exact .quiet _ _ _ _ (.inl rfl) (.inl rfl) rfl rfl

/-- The steps of a thread. It decides a host key in two steps, `accept` and
`send`, between which it holds the mutex. -/
inductive ThreadMove (t : ℕ) (sh : Shared) (pc : ThreadPc) : Shared → ThreadPc → Prop
  | accept (r : Request) (b : Bool) (hpc : pc = .acceptHostKey r b) (hl : sh.lock = .free)
      (hst : sh.status = .unknownHostKey) :
    ThreadMove t sh pc
      { sh with
        status := .handshake, lock := .held (.thread t), decisions := sh.decisions + 1 }
      (.sendDecision r b)
  | panic (r : Request) (b : Bool) (hpc : pc = .sendDecision r b)
      (hp : sh.pendingHostKey = none) :
    ThreadMove t sh pc { sh with lock := .free } .panicked
  | send (r : Request) (b : Bool) (p : PendingHostKeyInfo) (hpc : pc = .sendDecision r b)
      (hp : sh.pendingHostKey = some p) (hb : sh.buffer p.decision = none) :
    ThreadMove t sh pc
      { sh with
        buffer := Function.update sh.buffer p.decision (some b)
        log := .decided t p b (r.answers.map Shown.fingerprint) :: sh.log
        lock := .notifying (.thread t) sh.waiting }
      (.messageCount r)
  | passphrase (r : Request) (inp : ConnectIn) (hpc : pc = .setPassphrase r inp)
      (hl : sh.lock = .free) (hst : sh.status = .needPassphrase) :
    ThreadMove t sh pc
      { sh with
        passphrase := inp.passphrase, status := .handshake
        lock := .notifying (.thread t) sh.waiting }
      (afterPassphrase r inp)
  | register (l : Loop) (hpc : pc = .wait l .register) (hl : sh.lock = .free) :
    ThreadMove t sh pc
      { sh with waiting := sh.waiting ++ [sh.nextChan], nextChan := sh.nextChan + 1 }
      (.wait l (.receive sh.nextChan))
  | quiet (sessions : ℕ → ℕ) (pc' : ThreadPc) (hch : pc.channel = none) (hch' : pc'.channel = none)
      (hs : ∀ r b, pc ≠ .sendDecision r b) (hs' : ∀ r b, pc' ≠ .sendDecision r b) :
    ThreadMove t sh pc { sh with sessions := sessions } pc'

theorem afterPassphrase_cases (r : Request) (inp : ConnectIn) :
    (∃ b, afterPassphrase r inp = .acceptHostKey r b) ∨
      afterPassphrase r inp = .messageCount r := by
  unfold afterPassphrase
  split
  · exact .inl ⟨_, rfl⟩
  · exact .inr rfl

theorem leave_cases (l : Loop) : (∃ r, l.leave = .outStatus r) ∨ l.leave = .exited := by
  cases l with
  | request r st => exact .inl ⟨r, rfl⟩
  | connect => exact .inr rfl

theorem stay_cases (l : Loop) : (∃ r, l.stay = .outStatus r) ∨ l.stay = .wait l .done1 := by
  cases l with
  | connect => exact .inr rfl
  | request r st =>
    simp only [Loop.stay]
    split
    · exact .inl ⟨r, rfl⟩
    · exact .inr rfl

theorem again_cases (l : Loop) : (∃ r, l.again = .messageCount r) ∨ l.again = .done1 .connect := by
  cases l with
  | request r st => exact .inl ⟨r, rfl⟩
  | connect => exact .inr rfl

theorem threadStep_move {t : ℕ} {pc pc' : ThreadPc} (h : threadStep t sh pc = some (sh', pc')) :
    ThreadMove t sh pc sh' pc' := by
  cases pc with
  | idle | returned | failed | panicked | exited => cases h
  | setPassphrase r inp =>
    simp only [threadStep, Option.ite_none_right_eq_some] at h
    obtain ⟨hf, h⟩ := h
    split at h
    · rename_i hst
      cases h
      exact .passphrase r inp rfl hf hst
    · cases h
      refine .quiet _ _ rfl ?_ (by simp) ?_ <;>
        rcases afterPassphrase_cases r inp with ⟨b, hb⟩ | hb <;> simp [hb, ThreadPc.channel]
  | acceptHostKey r b =>
    simp only [threadStep, Option.ite_none_right_eq_some] at h
    obtain ⟨hf, h⟩ := h
    split at h
    · rename_i hst
      cases h
      exact .accept r b rfl hf hst
    · cases h
      exact .quiet _ _ rfl rfl (by simp) (by simp)
  | sendDecision r b =>
    simp only [threadStep] at h
    split at h
    · rename_i hp
      cases h
      exact .panic r b rfl hp
    · rename_i p hp
      simp only [Option.ite_none_right_eq_some, Option.some.injEq] at h
      obtain ⟨hb, he⟩ := h
      cases he
      exact .send r b p rfl hp hb
  | wait l w =>
    obtain ⟨⟨_, w'⟩, hwait, he⟩ := Option.map_eq_some_iff.mp h
    cases he
    cases waitStep_move hwait with
    | register hw hl => exact .register l (hw ▸ rfl) hl
    | quiet _ hw hw' =>
      refine .quiet _ _ hw (threadAt_channel l _ ▸ hw') (by simp) ?_
      cases w' with
      | some w' => simp [threadAt]
      | none => rcases again_cases l with ⟨r, hr⟩ | hr <;> simp [threadAt, hr]
  | messageCount r =>
    simp only [threadStep, Option.ite_none_right_eq_some, Option.some.injEq] at h
    cases h.2
    refine .quiet _ _ rfl ?_ (by simp) ?_ <;> split <;> simp [ThreadPc.channel]
  | message r =>
    simp only [threadStep, Option.ite_none_right_eq_some] at h
    obtain ⟨-, h⟩ := h
    split at h <;> cases h <;> exact .quiet _ _ rfl rfl (by simp) (by simp)
  | fingerprint r stamp =>
    simp only [threadStep, Option.ite_none_right_eq_some, Option.some.injEq] at h
    cases h.2
    exact .quiet _ _ rfl rfl (by simp) (by simp)
  | increment | readStatus =>
    cases h
    exact .quiet _ _ rfl rfl (by simp) (by simp)
  | done1 l =>
    cases h
    refine .quiet _ _ rfl ?_ (by simp) ?_ <;> split <;>
      rcases leave_cases l with ⟨r, hr⟩ | hr <;> simp [hr, ThreadPc.channel]
  | done2 l =>
    cases h
    refine .quiet _ _ rfl ?_ (by simp) ?_ <;> split <;>
      rcases leave_cases l with ⟨r, hr⟩ | hr <;> rcases stay_cases l with ⟨q, hq⟩ | hq <;>
      simp [hr, hq, ThreadPc.channel, WaitPc.channel]
  | outStatus r =>
    cases h
    refine .quiet _ _ rfl ?_ (by simp) ?_ <;> split <;> simp [ThreadPc.channel]

theorem threadStep_notifying {t : ℕ} {sh sh' : Shared} {pc pc' : ThreadPc} {b : Agent}
    {rest : List ℕ} (hs : ∀ r d, pc = .sendDecision r d → sh.lock = .held (.thread t))
    (h : threadStep t sh pc = some (sh', pc')) (hl : sh.lock = .notifying b rest) :
    sh'.lock = .notifying b rest := by
  cases threadStep_move h with
  | accept _ _ _ hf => simp [hl] at hf
  | panic r d hpc => cases hl.symm.trans (hs r d hpc)
  | send r d _ hpc => cases hl.symm.trans (hs r d hpc)
  | passphrase _ _ _ hf => simp [hl] at hf
  | register => exact hl
  | quiet => exact hl

/-- A thread is inside `Wait` because it just entered, or by a step of `Wait`. -/
theorem threadStep_wait {t : ℕ} {pc : ThreadPc} {l : Loop} {w : WaitPc}
    (h : threadStep t sh pc = some (sh', .wait l w)) :
    w = .done1 ∨ ∃ w₀, pc = .wait l w₀ ∧ waitStep sh w₀ = some (sh', some w) := by
  cases pc with
  | wait l' w₀ =>
    obtain ⟨⟨_, o⟩, hw, he⟩ := Option.map_eq_some_iff.mp h
    cases o with
    | none => cases l' <;> cases he
    | some w' =>
      cases he
      exact .inr ⟨w₀, rfl, hw⟩
  | done2 l' =>
    simp only [threadStep, Option.some.injEq, Prod.mk.injEq] at h
    have hpc := h.2
    split at hpc
    · cases l' <;> cases hpc
    · rcases stay_cases l' with ⟨r, hr⟩ | hr <;> rw [hr] at hpc <;> cases hpc
      exact .inl rfl
  | done1 l' =>
    simp only [threadStep, Option.some.injEq, Prod.mk.injEq] at h
    have hpc := h.2
    split at hpc
    · cases l' <;> cases hpc
    · cases hpc
  | setPassphrase r inp =>
    rcases afterPassphrase_cases r inp with ⟨b, hb⟩ | hb <;> grind [threadStep]
  | _ => grind [threadStep]

theorem setThread_threads (s : State) (t : ℕ) (pc : ThreadPc) (t' : ℕ) :
    (s.setThread t pc).threads t' = if t' = t then pc else s.threads t' := by
  simp only [State.setThread, Function.update_apply]

/-- A thread at another place than the one that moved is another thread. -/
theorem setThread_other {s : State} {t t' : ℕ} {pc pc' : ThreadPc}
    (h : (s.setThread t pc).threads t' = pc') (hne : pc ≠ pc') :
    t' ≠ t ∧ s.threads t' = pc' := by
  rw [setThread_threads] at h
  split at h
  · exact (hne h).elim
  · rename_i ht
    exact ⟨ht, h⟩

theorem wake_sh (s : State) (w : Waiter) : (s.wake w).sh = s.sh := by
  cases w with
  | password => rfl
  | thread t =>
    simp only [State.wake]
    split <;> rfl

theorem wake_hostKey (s : State) (w : Waiter) : (s.wake w).hostKey = s.hostKey := by
  cases w with
  | password => rfl
  | thread t =>
    simp only [State.wake]
    split <;> rfl

theorem wake_connect (s : State) (w : Waiter) : (s.wake w).connect = s.connect := by
  cases w with
  | password => rfl
  | thread t =>
    simp only [State.wake]
    split <;> rfl

section Threads

def Action.mover : Action → Option ℕ
  | .request t _ _ | .connectLoop t | .thread t | .send (.thread t) => some t
  | _ => none

theorem step_threads {s u : State} {a : Action} {t : ℕ} (h : step env s a = some u)
    (ht : a.mover ≠ some t) : u.threads t = s.threads t := by
  have hset : ∀ (s : State) t' pc, some t' ≠ some t → (s.setThread t' pc).threads t = s.threads t :=
    fun s t' pc hne => by
      rw [setThread_threads, if_neg fun he => hne (congrArg some he.symm)]
  cases a with
  | connect =>
    obtain ⟨-, _, _, -, rfl⟩ := step_connect h
    rfl
  | banner =>
    obtain ⟨-, -, rfl⟩ := step_banner h
    rfl
  | hostKeyCall =>
    obtain ⟨-, -, rfl⟩ := step_hostKeyCall h
    rfl
  | hostKey =>
    obtain ⟨-, _, _, -, rfl⟩ := step_hostKey h
    rfl
  | passwordCall =>
    obtain ⟨-, -, rfl⟩ := step_passwordCall h
    rfl
  | password =>
    obtain ⟨-, _, _, -, rfl⟩ := step_password h
    rfl
  | request t' =>
    obtain ⟨-, rfl⟩ := step_request h
    exact hset _ _ _ ht
  | connectLoop t' =>
    obtain ⟨-, rfl⟩ := step_connectLoop h
    exact hset _ _ _ ht
  | thread t' =>
    obtain ⟨-, _, _, -, rfl⟩ := step_thread h
    exact hset _ _ _ ht
  | setInteractive =>
    obtain rfl := step_setInteractive h
    rfl
  | send w =>
    obtain ⟨_, _, _, -, -, rfl⟩ := step_send h
    cases w with
    | password => rfl
    | thread t' =>
      simp only [State.wake]
      split
      · exact hset _ _ _ ht
      · rfl
  | unlock =>
    obtain ⟨_, -, rfl⟩ := step_unlock h
    rfl

/-- Only the threads below `n` have been used. -/
def State.IdleFrom (n : ℕ) (s : State) : Prop := ∀ t, n ≤ t → s.threads t = .idle

def Action.below (n : ℕ) (a : Action) : Bool := a.mover.all (· < n)

theorem step_idleFrom {n : ℕ} {s u : State} {a : Action} (hs : s.IdleFrom n)
    (ha : a.below n = true) (h : step env s a = some u) : u.IdleFrom n := by
  intro t ht
  refine (step_threads h fun hm => ?_).trans (hs t ht)
  simp only [Action.below, hm, Option.all_some, decide_eq_true_eq] at ha
  omega

theorem run_of_exec_below {G : State → Action → Prop} {g : State → Action → Bool} {n : ℕ}
    {interactive : Bool} {as : List Action} {s : State}
    (hg : ∀ s a, s.IdleFrom n → g s a = true → G s a)
    (h : Lib.Runs.exec (Lib.Runs.guarded (fun s a => a.below n && g s a) (step env))
      (init env interactive) as = some s) :
    Lib.Runs.Run (step env) G (init env interactive) s := by
  refine Lib.Runs.run_of_exec (I := State.IdleFrom n) ?_ ?_ (fun _ _ => rfl) h
  · intro s a u hs ha h
    exact step_idleFrom hs (Bool.and_eq_true _ _ ▸ ha).1 h
  · intro s a hs ha
    exact hg s a hs (Bool.and_eq_true _ _ ▸ ha).2

/-- What holds of an idle thread and of the threads used holds of every thread. -/
theorem State.IdleFrom.forall {n : ℕ} {s : State} {p : ThreadPc → Bool} (hs : s.IdleFrom n)
    (h0 : p .idle = true) (h : (List.range n).all (fun t => p (s.threads t)) = true) (t : ℕ) :
    p (s.threads t) = true := by
  by_cases ht : t < n
  · exact List.all_eq_true.mp h t (List.mem_range.mpr ht)
  · rw [hs t (by omega)]
    exact h0

end Threads

section Prompts

/-- The actions of the host key callback and of the threads, which raise prompts
and decide them. -/
def Action.decides : Action → Bool
  | .hostKeyCall .. | .hostKey _ | .thread _ => true
  | _ => false

/-- The callback, its prompt, the decisions and the log are as they were. -/
structure KeepsPrompt (s u : State) : Prop where
  hostKey : u.hostKey = s.hostKey
  pending : u.sh.pendingHostKey = s.sh.pendingHostKey
  buffer : u.sh.buffer = s.sh.buffer
  decisions : u.sh.decisions = s.sh.decisions
  calls : u.sh.calls = s.sh.calls
  log : u.sh.log = s.sh.log
  nextChan : s.sh.nextChan ≤ u.sh.nextChan

theorem step_keepsPrompt {s u : State} {a : Action} (h : step env s a = some u)
    (ha : a.decides = false) : KeepsPrompt s u := by
  cases a with
  | hostKeyCall | hostKey | thread => cases ha
  | connect =>
    obtain ⟨-, sh, pc, hc, rfl⟩ := step_connect h
    obtain ⟨_, _, _, _, _, rfl, -, -⟩ := connectStep_frame hc
    exact ⟨rfl, rfl, rfl, rfl, rfl, rfl, Nat.le_refl _⟩
  | banner msg =>
    obtain ⟨-, -, rfl⟩ := step_banner h
    exact ⟨rfl, rfl, rfl, rfl, rfl, rfl, Nat.le_refl _⟩
  | passwordCall =>
    obtain ⟨-, -, rfl⟩ := step_passwordCall h
    exact ⟨rfl, rfl, rfl, rfl, rfl, rfl, Nat.le_refl _⟩
  | password =>
    obtain ⟨-, sh, pc, hc, rfl⟩ := step_password h
    cases passwordStep_move hc with
    | register => exact ⟨rfl, rfl, rfl, rfl, rfl, rfl, Nat.le_succ _⟩
    | _ => exact ⟨rfl, rfl, rfl, rfl, rfl, rfl, Nat.le_refl _⟩
  | request t sid inp =>
    obtain ⟨-, rfl⟩ := step_request h
    exact ⟨rfl, rfl, rfl, rfl, rfl, rfl, Nat.le_refl _⟩
  | connectLoop t =>
    obtain ⟨-, rfl⟩ := step_connectLoop h
    exact ⟨rfl, rfl, rfl, rfl, rfl, rfl, Nat.le_refl _⟩
  | setInteractive =>
    obtain rfl := step_setInteractive h
    exact ⟨rfl, rfl, rfl, rfl, rfl, rfl, Nat.le_refl _⟩
  | send w =>
    obtain ⟨_, _, _, -, -, rfl⟩ := step_send h
    refine ⟨wake_hostKey .., ?_, ?_, ?_, ?_, ?_, ?_⟩ <;> rw [wake_sh]
  | unlock =>
    obtain ⟨_, -, rfl⟩ := step_unlock h
    exact ⟨rfl, rfl, rfl, rfl, rfl, rfl, Nat.le_refl _⟩

end Prompts

end SshTunnel.Connector
