import SshTunnel.Connector.Frame
import SshTunnel.Lib.Notify

/-!
# The waiting list of a connector

Every step of a connector is a step of the waiting room of `Lib.Notify`, or
leaves it as it is: `Wait` registers, the methods that end in
`notifyWaitingLocked` notify, and the status writes are invisible. The room's
invariant therefore holds in every state of every run.
-/

namespace SshTunnel.Connector

open Lib.Notify Lib.Runs
open Lib.Net (Text)

def Lock.phase : Lock → Phase
  | .free => .free
  | .held _ => .held
  | .notifying _ rest => .notifying rest

def Shared.room (sh : Shared) (parked : Waiter → Option ℕ) : Room Waiter :=
  ⟨sh.lock.phase, sh.waiting, sh.nextChan, parked⟩

def State.room (s : State) : Room Waiter := s.sh.room s.parked

/-- The registration that the next step of the password callback makes. -/
def PasswordPc.registration (sh : Shared) : PasswordPc → List (Note Waiter)
  | .wait .register => [.registered .password sh.nextChan]
  | _ => []

def ThreadPc.registration (t : ℕ) (sh : Shared) : ThreadPc → List (Note Waiter)
  | .wait _ .register => [.registered (.thread t) sh.nextChan]
  | _ => []

/-- The registration or the token of a step. -/
def tokenNote (s : State) : Action → List (Note Waiter)
  | .password => s.password.registration s.sh
  | .thread t => (s.threads t).registration t s.sh
  | .send w =>
    match s.sh.lock with
    | .notifying _ (ch :: _) => [.token w ch]
    | _ => []
  | _ => []

/-- Between the check of the status and the send, `AcceptHostKey` holds the mutex. -/
def State.Locked (s : State) : Prop :=
  ∀ t r b, s.threads t = .sendDecision r b → s.sh.lock = .held (.thread t)

section Rooms

variable {sh sh' : Shared} {p : Waiter → Option ℕ}

theorem lockMove_tells {a : Agent} (hl : LockMove a sh sh'.lock) (hw : sh'.waiting = sh.waiting)
    (hn : sh'.nextChan = sh.nextChan) : Tells (sh.room p) (sh'.room p) [] := by
  rcases hl with hl | ⟨hf, hl⟩
  · exact .inl ⟨by simp only [Shared.room, hl, hw, hn], rfl⟩
  · refine .inr ⟨.notify 0, ?_, rfl⟩
    simp only [Lib.Notify.step, Shared.room, Lock.phase, hf, hl, hw, hn, Nat.add_zero]

theorem register_tells {i : Waiter} (hl : sh.lock = .free) (hi : p i = none) :
    Tells (sh.room p)
      (Shared.room { sh with waiting := sh.waiting ++ [sh.nextChan], nextChan := sh.nextChan + 1 }
        (Function.update p i (some sh.nextChan))) [.registered i sh.nextChan] := by
  refine .inr ⟨.register i, ?_, rfl⟩
  simp only [Lib.Notify.step, Shared.room, Lock.phase, hl, hi, and_self, if_true]

theorem tells_update {i : Waiter} {o : Option ℕ} {ns : List (Note Waiter)} (hi : p i = o)
    (h : Tells (sh.room p) (sh'.room p) ns) :
    Tells (sh.room p) (sh'.room (Function.update p i o)) ns := by
  rwa [← hi, Function.update_eq_self]

end Rooms

section Parked

variable (s : State)

theorem parked_setThread (t : ℕ) (pc : ThreadPc) :
    (s.setThread t pc).parked = Function.update s.parked (.thread t) pc.channel := by
  funext i
  cases i with
  | password => rfl
  | thread t' =>
    by_cases h : t' = t
    · subst h
      simp [State.parked, State.setThread]
    · simp [State.parked, State.setThread, h]

theorem parked_password (sh : Shared) (pc : PasswordPc) :
    State.parked { s with sh := sh, password := pc } =
      Function.update s.parked .password pc.channel := by
  funext i
  cases i <;> rfl

end Parked

variable {env : Env} {s u : State} {a : Action}

theorem connectStep_tells {p : Waiter → Option ℕ} {calm : Bool} {sh sh' : Shared}
    {pc pc' : ConnectPc} (h : connectStep env calm sh pc = some (sh', pc')) :
    Tells (sh.room p) (sh'.room p) [] := by
  obtain ⟨_, _, _, _, _, rfl, hl, -⟩ := connectStep_frame h
  exact lockMove_tells hl rfl rfl

theorem hostKeyStep_tells {p : Waiter → Option ℕ} {written : Bool} {sh sh' : Shared}
    {pc pc' : HostKeyPc} (h : hostKeyStep env written sh pc = some (sh', pc')) :
    Tells (sh.room p) (sh'.room p) [] := by
  cases hostKeyStep_move h with
  | prompt c hpc hl =>
    refine .inr ⟨.notify 1, ?_, rfl⟩
    simp only [Lib.Notify.step, Shared.room, Lock.phase, hl]
  | receive => exact .inl ⟨rfl, rfl⟩
  | clear => exact .inl ⟨rfl, rfl⟩
  | quiet _ _ _ _ hl => exact lockMove_tells hl rfl rfl

theorem PasswordPc.registration_eq_nil {sh : Shared} {pc : PasswordPc}
    (h : pc ≠ .wait .register) : pc.registration sh = [] := by
  unfold PasswordPc.registration
  split
  · exact (h rfl).elim
  · rfl

theorem ThreadPc.registration_eq_nil {t : ℕ} {sh : Shared} {pc : ThreadPc}
    (h : ∀ l, pc ≠ .wait l .register) : pc.registration t sh = [] := by
  unfold ThreadPc.registration
  split
  · rename_i l
    exact (h l rfl).elim
  · rfl

theorem passwordStep_tells {p : Waiter → Option ℕ} {sh sh' : Shared} {pc pc' : PasswordPc}
    (hp : p .password = pc.channel) (h : passwordStep sh pc = some (sh', pc')) :
    Tells (sh.room p) (sh'.room (Function.update p .password pc'.channel))
      (pc.registration sh) := by
  by_cases hreg : pc = .wait .register
  · subst hreg
    obtain ⟨⟨_, _⟩, hw, he⟩ := Option.map_eq_some_iff.mp h
    obtain ⟨hl, rfl, rfl⟩ := waitStep_register hw
    cases he
    exact register_tells hl hp
  · rw [PasswordPc.registration_eq_nil hreg]
    cases passwordStep_move h with
    | setStatus hpc => exact tells_update (hp.trans (hpc ▸ rfl)) (.inl ⟨rfl, rfl⟩)
    | register hpc => exact (hreg hpc).elim
    | quiet _ _ _ _ hl _ hch hch' =>
      exact tells_update (hp.trans (hch.trans hch'.symm)) (lockMove_tells hl rfl rfl)

theorem threadStep_tells {p : Waiter → Option ℕ} {t : ℕ} {sh sh' : Shared} {pc pc' : ThreadPc}
    (hp : p (.thread t) = pc.channel)
    (hlocked : ∀ r b, pc = .sendDecision r b → sh.lock = .held (.thread t))
    (h : threadStep t sh pc = some (sh', pc')) :
    Tells (sh.room p) (sh'.room (Function.update p (.thread t) pc'.channel))
      (pc.registration t sh) := by
  by_cases hreg : ∃ l, pc = .wait l .register
  · obtain ⟨l, rfl⟩ := hreg
    obtain ⟨⟨_, _⟩, hw, he⟩ := Option.map_eq_some_iff.mp h
    obtain ⟨hl, rfl, rfl⟩ := waitStep_register hw
    cases he
    exact register_tells hl hp
  · rw [ThreadPc.registration_eq_nil fun l hl => hreg ⟨l, hl⟩]
    cases threadStep_move h with
    | accept r b hpc hl hst =>
      refine tells_update (hp.trans (hpc ▸ rfl)) (.inr ⟨.acquire, ?_, rfl⟩)
      simp only [Lib.Notify.step, Shared.room, Lock.phase, hl, if_true]
    | panic r b hpc hpend =>
      have hl := hlocked r b hpc
      refine tells_update (hp.trans (hpc ▸ rfl)) (.inr ⟨.release, ?_, rfl⟩)
      simp only [Lib.Notify.step, Shared.room, Lock.phase, hl, if_true]
    | send r b q hpc hpend hb =>
      have hl := hlocked r b hpc
      refine tells_update (hp.trans (hpc ▸ rfl)) (.inr ⟨.notify 0, ?_, rfl⟩)
      simp only [Lib.Notify.step, Shared.room, Lock.phase, hl, Nat.add_zero]
    | passphrase r inp hpc hl hst =>
      refine tells_update (hp.trans ?_) (lockMove_tells (.inr ⟨hl, rfl⟩) rfl rfl)
      rcases afterPassphrase_cases r inp with ⟨b, hb⟩ | hb <;> simp [hb, hpc, ThreadPc.channel]
    | register l hpc => exact (hreg ⟨l, hpc⟩).elim
    | quiet _ _ hch hch' _ _ =>
      exact tells_update (hp.trans (hch.trans hch'.symm)) (.inl ⟨rfl, rfl⟩)

theorem atRest_channel {pc : ThreadPc} (h : pc.atRest = true) : pc.channel = none := by
  cases pc <;> first | rfl | cases h

/-- Where a request starts. -/
theorem startRequest_cases (r : Request) (inp : Control.ConnectIn) :
    startRequest r inp = .setPassphrase r inp ∨ (∃ b, startRequest r inp = .acceptHostKey r b) ∨
      startRequest r inp = .messageCount r := by
  unfold startRequest
  split
  · exact .inr (afterPassphrase_cases r inp)
  · exact .inl rfl

theorem startRequest_channel (r : Request) (inp : Control.ConnectIn) :
    (startRequest r inp).channel = none := by
  rcases startRequest_cases r inp with h | ⟨b, h⟩ | h <;> rw [h] <;> rfl

theorem wake_parked {w : Waiter} {ch : ℕ} (hw : s.parked w = some ch) (sh : Shared) :
    (State.wake { s with sh := sh } w).parked = Function.update s.parked w none := by
  cases w with
  | password => exact parked_password s sh (passwordAt none)
  | thread t =>
    have hw : (s.threads t).channel = some ch := hw
    simp only [State.wake]
    split
    · rename_i l _ _
      rw [parked_setThread, threadAt_channel]
      rfl
    · rename_i hne
      cases hpc : s.threads t with
      | wait l w => exact (hne l w hpc).elim
      | _ => simp [hpc, ThreadPc.channel] at hw

theorem step_tells (hlocked : s.Locked) (h : step env s a = some u) :
    Tells s.room u.room (tokenNote s a) := by
  cases a with
  | connect =>
    obtain ⟨-, sh, pc, hc, rfl⟩ := step_connect h
    exact connectStep_tells hc
  | banner msg =>
    obtain ⟨-, hl, rfl⟩ := step_banner h
    exact lockMove_tells (.inr ⟨hl, rfl⟩) rfl rfl
  | hostKeyCall hostname key =>
    obtain ⟨-, -, rfl⟩ := step_hostKeyCall h
    refine .inl ⟨?_, rfl⟩
    simp only [State.room, hostKeyCall_frame]
    rfl
  | hostKey written =>
    obtain ⟨-, sh, pc, hc, rfl⟩ := step_hostKey h
    exact hostKeyStep_tells hc
  | passwordCall =>
    obtain ⟨-, hi, rfl⟩ := step_passwordCall h
    refine .inl ⟨?_, rfl⟩
    have hp : s.parked .password = none := by simp only [State.parked, hi, PasswordPc.channel]
    rw [State.room, parked_password s s.sh .setStatus]
    exact congrArg s.sh.room (Function.update_eq_self_iff.mpr hp.symm)
  | password =>
    obtain ⟨-, sh, pc, hc, rfl⟩ := step_password h
    rw [State.room, State.room, parked_password s sh pc]
    exact passwordStep_tells (p := s.parked) rfl hc
  | request t sid inp =>
    obtain ⟨hr, rfl⟩ := step_request h
    rw [State.room, State.room, parked_setThread, startRequest_channel]
    exact tells_update (atRest_channel hr) (.inl ⟨rfl, rfl⟩)
  | connectLoop t =>
    obtain ⟨hr, rfl⟩ := step_connectLoop h
    rw [State.room, State.room, parked_setThread]
    exact tells_update (atRest_channel hr) (.inl ⟨rfl, rfl⟩)
  | thread t =>
    obtain ⟨-, sh, pc, hc, rfl⟩ := step_thread h
    rw [State.room, State.room, parked_setThread]
    exact threadStep_tells (p := s.parked) rfl (hlocked t) hc
  | setInteractive =>
    obtain rfl := step_setInteractive h
    exact .inl ⟨rfl, rfl⟩
  | send w =>
    obtain ⟨b, ch, rest, hl, hw, rfl⟩ := step_send h
    refine .inr ⟨.send w, ?_, ?_⟩
    · have hsh := wake_sh { s with sh := { s.sh with lock := .notifying b rest } } w
      rw [State.room, State.room, wake_parked hw, hsh]
      simp only [Lib.Notify.step, Shared.room, Lock.phase, hl, hw, if_true]
    · simp only [tokenNote, note, State.room, Shared.room, Lock.phase, hl]
  | unlock =>
    obtain ⟨b, hl, rfl⟩ := step_unlock h
    refine .inr ⟨.unlock, ?_, rfl⟩
    simp only [Lib.Notify.step, State.room, Shared.room, Lock.phase, hl]
    rfl

theorem step_room (hlocked : s.Locked) (h : step env s a = some u) : Moves s.room u.room :=
  (step_tells hlocked h).moves

theorem locked_of_lock (sh : Shared) (hs : s.Locked) (hl : ∀ c, s.sh.lock ≠ .held c) :
    State.Locked { s with sh := sh } :=
  fun t r b ht => (hl _ (hs t r b ht)).elim

theorem locked_setThread {t : ℕ} {pc : ThreadPc} (hs : s.Locked)
    (hpc : ∀ r b, pc ≠ .sendDecision r b) : (s.setThread t pc).Locked := by
  intro t' r b ht
  exact hs t' r b (setThread_other ht (hpc r b)).2

theorem threadStep_locked {t : ℕ} {sh : Shared} {pc : ThreadPc} (hs : s.Locked)
    (h : threadStep t s.sh (s.threads t) = some (sh, pc)) :
    ({ s with sh := sh }.setThread t pc).Locked := by
  -- a thread that holds the mutex is the only one at its send
  have hone : ∀ t' r b, t' ≠ t → s.threads t' = .sendDecision r b →
      ∀ c, s.sh.lock = .held c → c = .thread t' := by
    intro t' r b _ ht c hc
    exact Lock.held.inj (hc.symm.trans (hs t' r b ht))
  cases threadStep_move h with
  | accept r b hpc hl hst =>
    intro t' r' b' ht
    rw [setThread_threads] at ht
    split at ht
    · rename_i he
      rw [he]
      rfl
    · rw [hs t' r' b' ht] at hl
      cases hl
  | panic r b hpc hp =>
    intro t' r' b' ht
    obtain ⟨he, ht⟩ := setThread_other ht (by simp)
    cases hone t' r' b' he ht _ (hs t r b hpc)
    exact (he rfl).elim
  | send r b p hpc hp hb =>
    intro t' r' b' ht
    obtain ⟨he, ht⟩ := setThread_other ht (by simp)
    cases hone t' r' b' he ht _ (hs t r b hpc)
    exact (he rfl).elim
  | passphrase r inp hpc hl hst =>
    refine locked_setThread (locked_of_lock _ hs (by simp [hl])) ?_
    rcases afterPassphrase_cases r inp with ⟨b, hb⟩ | hb <;> simp [hb]
  | register l hpc hl => exact locked_setThread hs (by simp)
  | quiet _ _ _ _ _ hs' => exact locked_setThread hs hs'

theorem step_locked (hs : s.Locked) (h : step env s a = some u) : u.Locked := by
  cases a with
  | connect =>
    obtain ⟨-, sh, pc, hc, rfl⟩ := step_connect h
    obtain ⟨_, _, _, _, _, rfl, hl, -⟩ := connectStep_frame hc
    exact fun t r b ht => (hl.stable (by simp [hs t r b ht])).trans (hs t r b ht)
  | banner msg =>
    obtain ⟨-, hl, rfl⟩ := step_banner h
    exact locked_of_lock _ hs (by simp [hl])
  | hostKeyCall hostname key =>
    obtain ⟨-, -, rfl⟩ := step_hostKeyCall h
    intro t r b ht
    rw [hostKeyCall_frame]
    exact hs t r b ht
  | hostKey written =>
    obtain ⟨-, sh, pc, hc, rfl⟩ := step_hostKey h
    intro t r b ht
    cases hostKeyStep_move hc with
    | prompt c hpc hl => simp [hs t r b ht] at hl
    | receive => exact hs t r b ht
    | clear => exact hs t r b ht
    | quiet _ _ _ _ hl => exact (hl.stable (by simp [hs t r b ht])).trans (hs t r b ht)
  | passwordCall =>
    obtain ⟨-, -, rfl⟩ := step_passwordCall h
    exact hs
  | password =>
    obtain ⟨-, sh, pc, hc, rfl⟩ := step_password h
    intro t r b ht
    cases passwordStep_move hc with
    | setStatus => exact hs t r b ht
    | register => exact hs t r b ht
    | quiet _ _ _ _ hl => exact (hl.stable (by simp [hs t r b ht])).trans (hs t r b ht)
  | request t sid inp =>
    obtain ⟨-, rfl⟩ := step_request h
    refine locked_setThread hs ?_
    rcases startRequest_cases ⟨sid, (s.threads t).shown, []⟩ inp with hr | ⟨b, hr⟩ | hr <;>
      simp [hr]
  | connectLoop t =>
    obtain ⟨-, rfl⟩ := step_connectLoop h
    exact locked_setThread hs (by simp)
  | thread t =>
    obtain ⟨-, sh, pc, hc, rfl⟩ := step_thread h
    exact threadStep_locked hs hc
  | setInteractive =>
    obtain rfl := step_setInteractive h
    exact hs
  | send w =>
    obtain ⟨b, ch, rest, hl, hw, rfl⟩ := step_send h
    have hs' := locked_of_lock { s.sh with lock := .notifying b rest } hs (by simp [hl])
    cases w with
    | password => exact hs'
    | thread t =>
      simp only [State.wake]
      split
      · rename_i l _ _
        refine locked_setThread hs' ?_
        rcases again_cases l with ⟨r, hr⟩ | hr <;> simp [threadAt, hr]
      · exact hs'
  | unlock =>
    obtain ⟨b, hl, rfl⟩ := step_unlock h
    exact locked_of_lock _ hs (by simp [hl])

theorem init_locked (env : Env) (interactive : Bool) : (init env interactive).Locked := by
  intro t r b ht
  cases ht

theorem init_room (env : Env) (interactive : Bool) : (init env interactive).room.Valid := by
  refine ⟨?_, ?_, ?_, ?_, List.nodup_nil⟩
  · intro ch hch
    cases hch
  · intro i ch hi
    cases i <;> cases hi
  · intro ch hch
    cases hch
  · intro i j ch hi
    cases i <;> cases hi

theorem reach_room {G : State → Action → Prop} {interactive : Bool}
    (h : Run (step env) G (init env interactive) s) : s.Locked ∧ s.room.Valid := by
  refine h.invariant (P := fun s => s.Locked ∧ s.room.Valid)
    ⟨init_locked env interactive, init_room env interactive⟩ ?_
  intro t a u ⟨hl, hr⟩ _ hs
  exact ⟨step_locked hl hs, moves_valid hr (step_room hl hs)⟩

end SshTunnel.Connector
