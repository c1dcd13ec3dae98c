import SshTunnel.Connector.Absorbing
import SshTunnel.Connector.Progress

/-!
# From `SetPassphrase` to the password callback (`dialer/sshdialer.go:253-263`, `406-419`)

`SetPassphrase` stores the passphrase, leaves the status `need_passphrase` and
notifies once. The callback tests the field and registers in `Wait` in separate
steps. Every callback takes at most the one passphrase that was accepted while
it prompted; but one that is accepted between the test and the registration
finds the callback deaf, which then parks with the passphrase stored.
-/

namespace SshTunnel.Connector

open Lib.Notify Lib.Runs
open Lib.Net (Text)
open Control (ConnectStatus ConnectIn)

/-- A call of the password callback, a `SetPassphrase` that returns `nil`, and
the return of the callback. -/
inductive PassEvent where
  | called
  | accepted (p : Text)
  | returned (p : Text)
  deriving DecidableEq

/-- What a step adds to the history of the passphrases. -/
def passNote (s : State) : Action → List PassEvent
  | .passwordCall => [.called]
  | .thread t =>
    match s.threads t with
    | .setPassphrase _ inp =>
      if s.sh.status = .needPassphrase then [.accepted inp.passphrase] else []
    | _ => []
  | .password =>
    match s.password with
    | .notify p => [.returned p]
    | .done1 => if s.sh.status = .succeeded then [.returned []] else []
    | .done2 => if s.sh.status = .failed then [.returned []] else []
    | _ => []
  | _ => []

abbrev passStep (env : Env) := recorded (step env) passNote

/-- Where the last callback of a history is. -/
inductive Stage where
  | finished
  | prompting
  | holding (p : Text)
  deriving DecidableEq

def Stage.events : Stage → List PassEvent
  | .finished => []
  | .prompting => [.called]
  | .holding p => [.called, .accepted p]

/-- Callbacks that returned the passphrase accepted while they prompted, and a
last one that is still running. -/
def history (returned : List Text) (last : Stage) : List PassEvent :=
  returned.flatMap (fun p => [.called, .accepted p, .returned p]) ++ last.events

/-- The loop of the callback, where it looks for a passphrase. -/
def PasswordPc.looking : PasswordPc → Bool
  | .done1 | .done2 | .testPassphrase | .wait _ => true
  | _ => false

/-- The callback has found no passphrase and is not registered yet. -/
def PasswordPc.deaf : PasswordPc → Bool
  | .wait .done1 | .wait .done2 | .wait .register => true
  | _ => false

/-- No passphrase is accepted while the callback is deaf. -/
def Heard (s : State) : Action → Prop
  | .thread t => ∀ r inp, s.threads t = .setPassphrase r inp → s.sh.status = .needPassphrase →
    s.password.deaf = false
  | _ => True

/-- An accepted passphrase is stored, no other is accepted, and the callback is
parked with no token to come. -/
def State.Stranded (s : State) : Prop :=
  s.sh.passphrase ≠ [] ∧ s.sh.status ≠ .needPassphrase ∧ ∃ w, s.password = .wait (.receive w) ∧
    ∀ a rest, s.sh.lock = .notifying a rest → w ∉ rest

/-- The fields and the place of the callback, by its stage. -/
def StageOk (s : State) : Stage → Prop
  | .finished => s.password = .idle ∧ s.sh.passphrase = [] ∧ s.sh.status ≠ .needPassphrase
  | .prompting => s.sh.passphrase = [] ∧
    (s.password.looking = true ∨ s.password = .setStatus ∧ s.sh.status ≠ .needPassphrase)
  | .holding p => p ≠ [] ∧ s.sh.status ≠ .needPassphrase ∧
    (s.sh.passphrase = p ∧ (s.password.looking = true ∨ s.password = .readPassphrase ∨
        s.password = .clearPassphrase p) ∨
      s.sh.passphrase = [] ∧ (s.password = .setHandshake p ∨ s.password = .notify p))

/-- `Server.Connect` calls `SetPassphrase` only with a passphrase. -/
def State.Given (s : State) : Prop :=
  ∀ t r inp, s.threads t = .setPassphrase r inp → inp.passphrase ≠ []

section Given

variable {env : Env} {s u : State} {a : Action}

theorem threadStep_setPassphrase {t : ℕ} {sh sh' : Shared} {pc : ThreadPc} {r : Request}
    {inp : ConnectIn} (h : threadStep t sh pc = some (sh', .setPassphrase r inp)) : False := by
  cases pc with
  | setPassphrase r' inp' =>
    rcases afterPassphrase_cases r' inp' with ⟨b, hb⟩ | hb <;> grind [threadStep]
  | done1 l => rcases leave_cases l with ⟨q, hq⟩ | hq <;> grind [threadStep]
  | done2 l =>
    rcases leave_cases l with ⟨q, hq⟩ | hq <;> rcases stay_cases l with ⟨q', hq'⟩ | hq' <;>
      grind [threadStep]
  | wait l w =>
    obtain ⟨⟨_, w'⟩, -, he⟩ := Option.map_eq_some_iff.mp h
    simp only [Prod.mk.injEq] at he
    cases w' with
    | some w' => cases he.2
    | none => rcases again_cases l with ⟨q, hq⟩ | hq <;> cases hq.symm.trans he.2
  | _ => grind [threadStep]

theorem step_given (hs : s.Given) (h : step env s a = some u) : u.Given := by
  intro t r inp hpc
  by_cases hm : a.mover = some t
  · cases a with
    | request t' sid inp' =>
      obtain rfl : t' = t := Option.some.inj hm
      obtain ⟨-, rfl⟩ := step_request h
      rw [setThread_threads, if_pos rfl] at hpc
      unfold startRequest at hpc
      split at hpc
      · rcases afterPassphrase_cases ⟨sid, (s.threads t').shown, []⟩ inp' with ⟨b, hb⟩ | hb <;>
          cases hb.symm.trans hpc
      · rename_i hne
        cases hpc
        exact hne
    | connectLoop t' =>
      obtain rfl : t' = t := Option.some.inj hm
      obtain ⟨-, rfl⟩ := step_connectLoop h
      rw [setThread_threads, if_pos rfl] at hpc
      cases hpc
    | thread t' =>
      obtain rfl : t' = t := Option.some.inj hm
      obtain ⟨-, sh, pc, hc, rfl⟩ := step_thread h
      rw [setThread_threads, if_pos rfl] at hpc
      subst hpc
      exact (threadStep_setPassphrase hc).elim
    | send w =>
      obtain ⟨b, ch, rest, -, -, rfl⟩ := step_send h
      cases w with
      | password => cases hm
      | thread t' =>
        obtain rfl : t' = t := Option.some.inj hm
        simp only [State.wake] at hpc
        split at hpc
        · rename_i l w hw
          rw [setThread_threads, if_pos rfl] at hpc
          rcases again_cases l with ⟨q, hq⟩ | hq <;> cases hq.symm.trans hpc
        · exact hs t' r inp hpc
    | _ => cases hm
  · exact hs t r inp (step_threads h hm ▸ hpc)

theorem run_given {G : State → Action → Prop} {interactive : Bool}
    (h : Run (step env) G (init env interactive) s) : s.Given :=
  h.invariant (fun _ _ _ hpc => by cases hpc) fun _ _ _ hs _ he => step_given hs he

end Given

/-- How a step moves the last callback of the history. -/
inductive StageMove (note : List PassEvent) : Stage → Stage → Prop
  | stay (st : Stage) (h : note = []) : StageMove note st st
  | call (h : note = [.called]) : StageMove note .finished .prompting
  | accept (p : Text) (h : note = [.accepted p]) : StageMove note .prompting (.holding p)
  | ret (p : Text) (h : note = [.returned p]) : StageMove note (.holding p) .finished

section Stages

variable {env : Env} {s u : State} {a : Action} {st : Stage}

theorem StageMove.history {note : List PassEvent} {st' : Stage} (h : StageMove note st st')
    (returned : List Text) :
    ∃ returned', history returned st ++ note = history returned' st' := by
  cases h with
  | stay _ h => exact ⟨returned, by rw [h, List.append_nil]⟩
  | call h => exact ⟨returned, by simp [Connector.history, Stage.events, h]⟩
  | accept p h => exact ⟨returned, by simp [Connector.history, Stage.events, h]⟩
  | ret p h => exact ⟨returned ++ [p], by simp [Connector.history, Stage.events, h]⟩

/-- The stage that the last event of a history leads to. -/
def Stage.after : Option PassEvent → Stage
  | some .called => .prompting
  | some (.accepted p) => .holding p
  | _ => .finished

theorem after_history (returned : List Text) (st : Stage) :
    Stage.after (history returned st).getLast? = st := by
  cases st with
  | finished =>
    cases returned using List.reverseRecOn with
    | nil => rfl
    | append_singleton l p => simp [history, Stage.events, Stage.after]
  | prompting => simp [history, Stage.events, Stage.after]
  | holding p => simp [history, Stage.events, Stage.after]

/-- A history tells where its last callback is. -/
theorem history_last {returned returned' : List Text} {st' : Stage}
    (h : history returned st = history returned' st') : st = st' := by
  rw [← after_history returned st, h, after_history]

theorem StageOk.frame (hs : StageOk s st) (hp : u.password = s.password)
    (hpass : u.sh.passphrase = s.sh.passphrase)
    (hst : u.sh.status = s.sh.status ∨ u.sh.status ≠ .needPassphrase) : StageOk u st := by
  have hneed : s.sh.status ≠ .needPassphrase → u.sh.status ≠ .needPassphrase := fun hn =>
    hst.elim (fun he => he ▸ hn) id
  cases st with
  | finished => exact ⟨hp.trans hs.1, hpass.trans hs.2.1, hneed hs.2.2⟩
  | prompting =>
    obtain ⟨h0, h1⟩ := hs
    refine ⟨hpass.trans h0, ?_⟩
    rw [hp]
    exact h1.imp id fun h => ⟨h.1, hneed h.2⟩
  | holding p =>
    obtain ⟨h0, h1, h2⟩ := hs
    refine ⟨h0, hneed h1, ?_⟩
    rw [hp, hpass]
    exact h2

theorem State.Ordered.not_done (hs : s.Ordered) (hp : s.password ≠ .idle) :
    ¬IsDone s.sh.status := fun hd => hp (hs.of_done hd).2

theorem password_stage {sh : Shared} {pc : PasswordPc} (hord : s.Ordered) (hs : StageOk s st)
    (h : passwordStep s.sh s.password = some (sh, pc)) :
    ∃ st', StageMove (passNote s .password) st st' ∧
      StageOk { s with sh := sh, password := pc } st' := by
  have hdone : s.password ≠ .idle → s.sh.status ≠ .succeeded ∧ s.sh.status ≠ .failed :=
    fun hp => not_or.mp (hord.not_done hp)
  cases hpc : s.password with
  | idle =>
    rw [hpc] at h
    cases h
  | setStatus =>
    rw [hpc] at h
    cases h
    cases st with
    | prompting => exact ⟨_, .stay _ (by simp [passNote, hpc]), hs.1, .inl rfl⟩
    | finished => simp [StageOk, hpc] at hs
    | holding p => simp [StageOk, hpc, PasswordPc.looking] at hs
  | done1 =>
    obtain ⟨hsucc, -⟩ := hdone (by simp [hpc])
    rw [hpc] at h
    cases h
    rw [if_neg hsucc]
    refine ⟨st, .stay _ (by simp [passNote, hpc, hsucc]), ?_⟩
    cases st <;> simp_all [StageOk, PasswordPc.looking]
  | done2 =>
    obtain ⟨-, hfail⟩ := hdone (by simp [hpc])
    rw [hpc] at h
    cases h
    rw [if_neg hfail]
    refine ⟨st, .stay _ (by simp [passNote, hpc, hfail]), ?_⟩
    cases st <;> simp_all [StageOk, PasswordPc.looking]
  | testPassphrase =>
    rw [hpc] at h
    cases h
    refine ⟨st, .stay _ (by simp [passNote, hpc]), ?_⟩
    cases st with
    | finished => simp [StageOk, hpc] at hs
    | prompting => simp_all [StageOk, PasswordPc.looking]
    | holding p =>
      simp only [StageOk, hpc] at hs
      obtain ⟨hne, hst, ⟨hp, -⟩ | ⟨-, hp | hp⟩⟩ := hs
      · have hpos : 0 < s.sh.passphrase.length := by
          rw [hp]
          exact List.length_pos_iff.mpr hne
        rw [if_pos hpos]
        exact ⟨hne, hst, .inl ⟨hp, .inr (.inl rfl)⟩⟩
      · cases hp
      · cases hp
  | readPassphrase =>
    rw [hpc] at h
    cases h
    refine ⟨st, .stay _ (by simp [passNote, hpc]), ?_⟩
    cases st <;> simp_all [StageOk, PasswordPc.looking]
  | clearPassphrase q =>
    rw [hpc] at h
    cases h
    refine ⟨st, .stay _ (by simp [passNote, hpc]), ?_⟩
    cases st <;> simp_all [StageOk, PasswordPc.looking]
  | setHandshake q =>
    rw [hpc] at h
    cases h
    refine ⟨st, .stay _ (by simp [passNote, hpc]), ?_⟩
    cases st <;> simp_all [StageOk, PasswordPc.looking]
  | notify q =>
    rw [hpc] at h
    obtain ⟨_, hn, he⟩ := Option.map_eq_some_iff.mp h
    cases he
    obtain ⟨-, rfl⟩ := notifyWaiting_eq hn
    cases st with
    | finished => simp [StageOk, hpc] at hs
    | prompting => simp [StageOk, hpc, PasswordPc.looking] at hs
    | holding p =>
      simp only [StageOk, hpc, PasswordPc.looking] at hs
      obtain ⟨-, hst, ⟨-, hp⟩ | ⟨hp, hq⟩⟩ := hs
      · simp at hp
      · obtain rfl : q = p := by simpa using hq
        exact ⟨_, .ret q (by simp [passNote, hpc]), rfl, hp, hst⟩
  | wait w =>
    rw [hpc] at h
    obtain ⟨⟨_, w'⟩, hwait, he⟩ := Option.map_eq_some_iff.mp h
    cases he
    have hlook : (passwordAt w').looking = true := by cases w' <;> rfl
    refine ⟨st, .stay _ (by simp [passNote, hpc]), ?_⟩
    have hsame : ∀ m : State, m.password.looking = true → m.sh.passphrase = s.sh.passphrase →
        m.sh.status = s.sh.status → StageOk m st := by
      intro m hm hpass hst
      cases st <;> simp_all [StageOk, PasswordPc.looking]
    cases waitStep_move hwait <;> exact hsame _ hlook rfl rfl

theorem StageOk.of_need (hs : StageOk s st) (hst : s.sh.status = .needPassphrase) :
    st = .prompting ∧ s.password.looking = true := by
  cases st with
  | finished => exact (hs.2.2 hst).elim
  | prompting => exact ⟨rfl, hs.2.resolve_right fun h => h.2 hst⟩
  | holding p => exact (hs.2.1 hst).elim

theorem thread_stage {t : ℕ} {sh : Shared} {pc : ThreadPc} (hgiven : s.Given) (hs : StageOk s st)
    (h : threadStep t s.sh (s.threads t) = some (sh, pc)) :
    ∃ st', StageMove (passNote s (.thread t)) st st' ∧
      StageOk ({ s with sh := sh }.setThread t pc) st' := by
  have hquiet : (∀ r inp, s.threads t = .setPassphrase r inp → s.sh.status ≠ .needPassphrase) →
      passNote s (.thread t) = [] := by
    intro hno
    simp only [passNote]
    split
    · rename_i r inp hpc
      exact if_neg (hno r inp hpc)
    · rfl
  cases threadStep_move h with
  | accept r b hpc hl hst =>
    exact ⟨st, .stay _ (hquiet (by simp [hpc])), hs.frame rfl rfl (.inr (by simp [State.setThread]))⟩
  | panic r b hpc hp =>
    exact ⟨st, .stay _ (hquiet (by simp [hpc])), hs.frame rfl rfl (.inl rfl)⟩
  | send r b q hpc hp hb =>
    exact ⟨st, .stay _ (hquiet (by simp [hpc])), hs.frame rfl rfl (.inl rfl)⟩
  | passphrase r inp hpc hl hst =>
    obtain ⟨rfl, hlook⟩ := hs.of_need hst
    refine ⟨.holding inp.passphrase, .accept _ (by simp [passNote, hpc, hst]),
      hgiven t r inp hpc, by simp [State.setThread], .inl ⟨rfl, .inl hlook⟩⟩
  | register l hpc hl =>
    exact ⟨st, .stay _ (hquiet (by simp [hpc])), hs.frame rfl rfl (.inl rfl)⟩
  | quiet sessions pc' hch hch' hns hns' =>
    refine ⟨st, .stay _ (hquiet fun r inp hpc hst => ?_), hs.frame rfl rfl (.inl rfl)⟩
    -- a `SetPassphrase` that is accepted changes the status
    simp only [hpc, threadStep, hst, Option.ite_none_right_eq_some, if_true, Option.some.injEq,
      Prod.mk.injEq] at h
    have hhand : ConnectStatus.handshake = .needPassphrase := congrArg Shared.status h.2.1
    cases hhand

theorem step_stage (hord : s.Ordered) (hgiven : s.Given) (hs : StageOk s st)
    (h : step env s a = some u) :
    ∃ st', StageMove (passNote s a) st st' ∧ StageOk u st' := by
  cases a with
  | connect =>
    obtain ⟨-, sh, pc, hc, rfl⟩ := step_connect h
    obtain ⟨_, _, _, _, _, rfl, -, hst⟩ := connectStep_frame hc
    refine ⟨st, .stay _ rfl, hs.frame rfl rfl (hst.imp id fun hn he => hn (.inl he))⟩
  | banner msg =>
    obtain ⟨-, -, rfl⟩ := step_banner h
    exact ⟨st, .stay _ rfl, hs.frame rfl rfl (.inl rfl)⟩
  | hostKeyCall hostname key =>
    obtain ⟨-, -, rfl⟩ := step_hostKeyCall h
    refine ⟨st, .stay _ rfl, hs.frame rfl ?_ (.inl ?_)⟩ <;> rw [hostKeyCall_frame]
  | hostKey written =>
    obtain ⟨-, sh, pc, hc, rfl⟩ := step_hostKey h
    refine ⟨st, .stay _ rfl, ?_⟩
    cases hostKeyStep_move hc with
    | prompt => exact hs.frame rfl rfl (.inr (by simp))
    | _ => exact hs.frame rfl rfl (.inl rfl)
  | passwordCall =>
    obtain ⟨-, hidle, rfl⟩ := step_passwordCall h
    cases st with
    | finished => exact ⟨.prompting, .call rfl, hs.2.1, .inr ⟨rfl, hs.2.2⟩⟩
    | prompting => simp [StageOk, hidle, PasswordPc.looking] at hs
    | holding p => simp [StageOk, hidle, PasswordPc.looking] at hs
  | password =>
    obtain ⟨-, sh, pc, hc, rfl⟩ := step_password h
    exact password_stage hord hs hc
  | request t sid inp =>
    obtain ⟨-, rfl⟩ := step_request h
    exact ⟨st, .stay _ rfl, hs.frame rfl rfl (.inl rfl)⟩
  | connectLoop t =>
    obtain ⟨-, rfl⟩ := step_connectLoop h
    exact ⟨st, .stay _ rfl, hs.frame rfl rfl (.inl rfl)⟩
  | thread t =>
    obtain ⟨-, sh, pc, hc, rfl⟩ := step_thread h
    exact thread_stage hgiven hs hc
  | setInteractive =>
    obtain rfl := step_setInteractive h
    exact ⟨st, .stay _ rfl, hs.frame rfl rfl (.inl rfl)⟩
  | send w =>
    obtain ⟨b, ch, rest, -, hpk, rfl⟩ := step_send h
    refine ⟨st, .stay _ rfl, ?_⟩
    cases w with
    | password =>
      have hpk : s.password.channel = some ch := hpk
      cases hpc : s.password with
      | wait w =>
        simp only [State.wake, passwordAt]
        cases st <;> simp_all [StageOk, PasswordPc.looking]
      | _ => simp [hpc, PasswordPc.channel] at hpk
    | thread t =>
      refine hs.frame ?_ (by rw [wake_sh]) (.inl (by rw [wake_sh]))
      simp only [State.wake]
      split <;> rfl
  | unlock =>
    obtain ⟨b, -, rfl⟩ := step_unlock h
    exact ⟨st, .stay _ rfl, hs.frame rfl rfl (.inl rfl)⟩

/-- Every run of the callbacks has a history of returned passphrases. -/
def Staged (x : State × List PassEvent) : Prop :=
  ∃ returned st, x.2 = history returned st ∧ StageOk x.1 st

theorem run_staged {G : State → Action → Prop} {interactive : Bool}
    {x : State × List PassEvent}
    (h : Run (passStep env) (fun x => G x.1) (init env interactive, []) x) : Staged x := by
  refine h.invariant_under (P := Staged) (Q := fun x => x.1.Ordered ∧ x.1.Given)
    (fun y hy => ⟨run_ordered hy.forget, run_given hy.forget⟩) ?_ ?_
  · exact ⟨[], .finished, rfl, rfl, rfl, by simp [init, newShared]⟩
  · rintro y a z ⟨hord, hgiven⟩ ⟨returned, st, hh, hst⟩ _ hs
    obtain ⟨hstep, hrec⟩ := recorded_step hs
    obtain ⟨st', hmove, hst'⟩ := step_stage hord hgiven hst hstep
    obtain ⟨returned', hhist⟩ := hmove.history returned
    exact ⟨returned', st', by rw [hrec, hh, hhist], hst'⟩

end Stages

/-- While a passphrase is stored the callback is not deaf, and if it is parked a
notifier is at work. -/
def State.Alert (s : State) : Prop :=
  s.sh.passphrase ≠ [] → s.password.deaf = false ∧
    ∀ w, s.password = .wait (.receive w) → ∃ a rest, s.sh.lock = .notifying a rest

section Alert

variable {env : Env} {s u : State} {a : Action}

theorem State.Alert.frame (hs : s.Alert) (hp : u.password = s.password)
    (hpass : u.sh.passphrase = s.sh.passphrase)
    (hl : ∀ a rest, s.sh.lock = .notifying a rest → ∃ b rest', u.sh.lock = .notifying b rest') :
    u.Alert := by
  intro hne
  obtain ⟨hdeaf, hpark⟩ := hs (hpass ▸ hne)
  refine ⟨hp ▸ hdeaf, fun w hw => ?_⟩
  obtain ⟨b, rest, hlock⟩ := hpark w (hp ▸ hw)
  exact hl b rest hlock

theorem password_alert {sh : Shared} {pc : PasswordPc} (hs : s.Alert)
    (h : passwordStep s.sh s.password = some (sh, pc)) :
    State.Alert { s with sh := sh, password := pc } := by
  intro hne
  cases hpc : s.password with
  | idle =>
    rw [hpc] at h
    cases h
  | setStatus | readPassphrase | setHandshake q =>
    rw [hpc] at h
    cases h
    exact ⟨rfl, by simp⟩
  | clearPassphrase q =>
    rw [hpc] at h
    cases h
    exact (hne rfl).elim
  | done1 | done2 =>
    rw [hpc] at h
    cases h
    split <;> exact ⟨rfl, by simp⟩
  | testPassphrase =>
    rw [hpc] at h
    cases h
    rw [if_pos (List.length_pos_iff.mpr hne)]
    exact ⟨rfl, by simp⟩
  | notify q =>
    rw [hpc] at h
    obtain ⟨_, -, he⟩ := Option.map_eq_some_iff.mp h
    cases he
    exact ⟨rfl, by simp⟩
  | wait w =>
    -- the callback is parked, as it would be deaf elsewhere
    have hpass : s.sh.passphrase ≠ [] := by
      rw [hpc] at h
      obtain ⟨⟨_, w'⟩, hwait, he⟩ := Option.map_eq_some_iff.mp h
      cases he
      cases waitStep_move hwait <;> exact hne
    have hdeaf := (hs hpass).1
    rw [hpc] at h hdeaf
    cases w with
    | receive w => cases h
    | _ => cases hdeaf

theorem step_alert (hlk : s.Locked) (hroom : s.room.Valid) (hs : s.Alert) (hg : Heard s a)
    (h : step env s a = some u) : u.Alert := by
  cases a with
  | connect =>
    obtain ⟨-, sh, pc, hc, rfl⟩ := step_connect h
    obtain ⟨_, _, _, _, _, rfl, hl, -⟩ := connectStep_frame hc
    exact hs.frame rfl rfl fun b rest hr => ⟨b, rest, hl.notifying hr⟩
  | banner msg =>
    obtain ⟨-, hl, rfl⟩ := step_banner h
    exact hs.frame rfl rfl fun b rest hr => by simp [hl] at hr
  | hostKeyCall hostname key =>
    obtain ⟨-, -, rfl⟩ := step_hostKeyCall h
    refine hs.frame rfl (by rw [hostKeyCall_frame]) fun b rest hr => ⟨b, rest, ?_⟩
    rw [hostKeyCall_frame]
    exact hr
  | hostKey written =>
    obtain ⟨-, sh, pc, hc, rfl⟩ := step_hostKey h
    cases hostKeyStep_move hc with
    | prompt c hpc hl => exact hs.frame rfl rfl fun b rest hr => by simp [hl] at hr
    | receive => exact hs.frame rfl rfl fun b rest hr => ⟨b, rest, hr⟩
    | clear => exact hs.frame rfl rfl fun b rest hr => ⟨b, rest, hr⟩
    | quiet _ _ _ _ hl => exact hs.frame rfl rfl fun b rest hr => ⟨b, rest, hl.notifying hr⟩
  | passwordCall =>
    obtain ⟨-, -, rfl⟩ := step_passwordCall h
    exact fun _ => ⟨rfl, by simp⟩
  | password =>
    obtain ⟨-, sh, pc, hc, rfl⟩ := step_password h
    exact password_alert hs hc
  | request t sid inp =>
    obtain ⟨-, rfl⟩ := step_request h
    exact hs.frame rfl rfl fun b rest hr => ⟨b, rest, hr⟩
  | connectLoop t =>
    obtain ⟨-, rfl⟩ := step_connectLoop h
    exact hs.frame rfl rfl fun b rest hr => ⟨b, rest, hr⟩
  | thread t =>
    obtain ⟨-, sh, pc, hc, rfl⟩ := step_thread h
    have hnot : ∀ {b rest}, s.sh.lock = .notifying b rest → sh.lock = .notifying b rest :=
      fun hr => threadStep_notifying (hlk t) hc hr
    cases threadStep_move hc with
    | passphrase r inp hpc hl hst => exact fun _ => ⟨hg r inp hpc hst, fun w _ => ⟨_, _, rfl⟩⟩
    | _ => exact hs.frame rfl rfl fun b rest hr => ⟨b, rest, hnot hr⟩
  | setInteractive =>
    obtain rfl := step_setInteractive h
    exact hs.frame rfl rfl fun b rest hr => ⟨b, rest, hr⟩
  | send w =>
    obtain ⟨b, ch, rest, hl, -, rfl⟩ := step_send h
    cases w with
    | password => exact fun _ => ⟨rfl, by simp [State.wake, passwordAt]⟩
    | thread t =>
      refine hs.frame ?_ (by rw [wake_sh]) fun _ _ _ => ⟨b, rest, by rw [wake_sh]⟩
      simp only [State.wake]
      split <;> rfl
  | unlock =>
    obtain ⟨b, hl, rfl⟩ := step_unlock h
    intro hne
    refine ⟨(hs hne).1, fun w hw => ?_⟩
    have hnone := hroom.parked_of_served (by
      simp only [State.room, Shared.room, Lock.phase, hl]) .password
    have hsome : s.room.parked .password = some w := by
      show s.password.channel = some w
      rw [show s.password = .wait (.receive w) from hw]
      rfl
    cases hnone.symm.trans hsome

theorem run_alert {interactive : Bool} (h : Run (step env) Heard (init env interactive) s) :
    s.Alert := by
  refine h.invariant_under (P := State.Alert) (Q := fun s => s.Locked ∧ s.room.Valid)
    (fun _ hp => reach_room hp) (fun hne => (hne rfl).elim) ?_
  intro t a u hr hs hg he
  exact step_alert hr.1 hr.2 hs hg he

theorem State.Alert.not_stranded (hroom : s.room.Valid) (hs : s.Alert) : ¬s.Stranded := by
  rintro ⟨hne, -, w, hw, hno⟩
  obtain ⟨b, rest, hl⟩ := (hs hne).2 w hw
  refine hno b rest hl ?_
  have hlisted := hroom.listed .password w (by
    show s.password.channel = some w
    rw [hw]
    rfl)
  simpa [Room.unserved, State.room, Shared.room, Lock.phase, hl] using hlisted

end Alert

/-- The steps that free the mutex: a decision in hand is sent, and the notifier
serves its list. -/
def Frees (s : State) : Action → Prop
  | .thread t => ∃ r b, s.threads t = .sendDecision r b
  | a => a.releases = true

/-- The callback can return `p`, without the help of any client. -/
def State.Yields (env : Env) (s : State) (p : Text) : Prop :=
  ∀ h, ∃ u, Run (passStep env) (fun x => Heard x.1) (s, h) (u, h ++ [.returned p]) ∧
    u.password = .idle ∧ u.sh.busy .password = false

structure State.Ready (env : Env) (s : State) : Prop where
  sound : s.Sound env
  lock : s.sh.lock = .free

section Yields

variable {env : Env} {s : State} {p : Text}

theorem free_lock (hs : s.Sound env) : ∃ u, Run (step env) Frees s u ∧ u.sh.lock = .free := by
  have hdrain : ∀ {s : State} {b rest}, s.Sound env → s.sh.lock = .notifying b rest →
      ∃ u, Run (step env) Frees s u ∧ u.sh.lock = .free := by
    intro s b rest hs hl
    obtain ⟨u, hrun, hf, -⟩ := drain env hs.locked hs.room hl
    refine ⟨u, hrun.mono fun m a ha => ?_, hf⟩
    cases a <;> first | exact ha | cases ha
  cases hl : s.sh.lock with
  | free => exact ⟨s, .refl, hl⟩
  | notifying b rest => exact hdrain hs hl
  | held c =>
    obtain ⟨t, r, b, hpc⟩ := hs.held c hl
    obtain ⟨-, m, -, hm, -, hlock, -⟩ := sendDecision_enabled hs.locked hs.prompting hpc
    have hfirst : Run (step env) Frees s m :=
      .tail .refl (a := .thread t) ⟨r, b, hpc⟩ hm
    obtain ⟨u, hu, hf⟩ := hdrain (run_sound hs hfirst) hlock
    exact ⟨u, hfirst.trans hu, hf⟩

/-- A notifier leaves a callback that is not parked, and the fields, alone. -/
theorem releases_frame {u : State} (h : Run (step env) (fun _ a => a.releases = true) s u)
    (hp : s.password.channel = none) :
    u.password = s.password ∧ u.sh.passphrase = s.sh.passphrase ∧ u.sh.status = s.sh.status := by
  refine h.invariant (P := fun m => m.password = s.password ∧
    m.sh.passphrase = s.sh.passphrase ∧ m.sh.status = s.sh.status) ⟨rfl, rfl, rfl⟩ ?_
  intro m a m' hm ha he
  cases a with
  | send w =>
    obtain ⟨b, ch, rest, -, hpk, rfl⟩ := step_send he
    cases w with
    | password =>
      have hpk : m.password.channel = some ch := hpk
      rw [hm.1, hp] at hpk
      cases hpk
    | thread t =>
      simp only [State.wake]
      split <;> exact hm
  | unlock =>
    obtain ⟨b, -, rfl⟩ := step_unlock he
    exact hm
  | _ => cases ha

theorem frees_silent {a : Action} (h : Frees s a) : passNote s a = [] ∧ Heard s a := by
  cases a with
  | thread t =>
    obtain ⟨r, b, hpc⟩ := h
    exact ⟨by simp [passNote, hpc], by simp [Heard, hpc]⟩
  | passwordCall | password => cases h
  | _ => exact ⟨rfl, trivial⟩

theorem yields_step (sh : Shared) (pc : PasswordPc) (hr : s.Ready env)
    (h : passwordStep s.sh s.password = some (sh, pc)) (hl : sh.lock = .free)
    (hn : passNote s .password = [])
    (hnext : State.Ready env { s with sh := sh, password := pc } →
      State.Yields env { s with sh := sh, password := pc } p) : s.Yields env p := by
  have hstep : step env s .password = some { s with sh := sh, password := pc } := by
    simp [step, Shared.busy, hr.lock, h]
  have hrun : Run (step env) Always s { s with sh := sh, password := pc } :=
    .tail .refl trivial hstep
  intro r
  obtain ⟨u, hu, hend⟩ := hnext ⟨run_sound hr.sound hrun, hl⟩ r
  refine ⟨u, Run.trans (.tail .refl (a := .password) trivial ?_) hu, hend⟩
  simp [recorded, hstep, hn]

theorem notify_yields (hr : s.Ready env) (hpc : s.password = .notify p) : s.Yields env p := by
  intro r
  have hstep : step env s .password = some { s with
      sh := s.sh.notifyWaitingLocked .password, password := .idle } := by
    simp [step, Shared.busy, hr.lock, hpc, passwordStep, Shared.notifyWaiting]
  have hsound := run_sound hr.sound (.tail .refl (G := Always) trivial hstep)
  obtain ⟨u, hu, hf, -⟩ := drain env hsound.locked hsound.room rfl
  have hidle : u.password = .idle := (releases_frame hu rfl).1
  have hquiet := (hu.mono (H := Frees) fun m a ha => by
    cases a <;> first | exact ha | cases ha).silent (fun m a ha => (frees_silent ha).1)
      (r ++ [.returned p])
  refine ⟨u, Run.trans (.tail .refl (a := .password) trivial ?_)
    (hquiet.mono fun x a ha => (frees_silent ha).2), hidle, by simp [Shared.busy, hf]⟩
  simp [recorded, hstep, passNote, hpc]

theorem setHandshake_yields (hr : s.Ready env) (hpc : s.password = .setHandshake p) :
    s.Yields env p :=
  yields_step { s.sh with status := .handshake } (.notify p) hr (by rw [hpc]; rfl) hr.lock
    (by simp [passNote, hpc]) fun hr => notify_yields hr rfl

theorem clearPassphrase_yields (hr : s.Ready env) (hpc : s.password = .clearPassphrase p) :
    s.Yields env p :=
  yields_step { s.sh with passphrase := [] } (.setHandshake p) hr (by rw [hpc]; rfl) hr.lock
    (by simp [passNote, hpc]) fun hr => setHandshake_yields hr rfl

theorem readPassphrase_yields (hr : s.Ready env) (hpc : s.password = .readPassphrase)
    (hp : s.sh.passphrase = p) : s.Yields env p :=
  yields_step s.sh (.clearPassphrase p) hr (by rw [hpc, ← hp]; rfl) hr.lock
    (by simp [passNote, hpc]) fun hr => clearPassphrase_yields hr rfl

theorem testPassphrase_yields (hr : s.Ready env) (hpc : s.password = .testPassphrase)
    (hp : s.sh.passphrase = p) (hne : p ≠ []) : s.Yields env p :=
  yields_step s.sh .readPassphrase hr
    (by simp [hpc, passwordStep, hp, List.length_pos_iff.mpr hne]) hr.lock
    (by simp [passNote, hpc]) fun hr => readPassphrase_yields hr rfl hp

theorem done2_yields (hr : s.Ready env) (hpc : s.password = .done2)
    (hst : s.sh.status ≠ .failed) (hp : s.sh.passphrase = p) (hne : p ≠ []) : s.Yields env p :=
  yields_step s.sh .testPassphrase hr (by simp [hpc, passwordStep, hst]) hr.lock
    (by simp [passNote, hpc, hst]) fun hr => testPassphrase_yields hr rfl hp hne

theorem done1_yields (hr : s.Ready env) (hpc : s.password = .done1)
    (hst : ¬IsDone s.sh.status) (hp : s.sh.passphrase = p) (hne : p ≠ []) : s.Yields env p := by
  have hsucc : s.sh.status ≠ .succeeded := fun h => hst (.inl h)
  exact yields_step s.sh .done2 hr (by simp [hpc, passwordStep, hsucc]) hr.lock
    (by simp [passNote, hpc, hsucc]) fun hr => done2_yields hr rfl (fun h => hst (.inr h)) hp hne

/-- With the mutex free a callback that has a passphrase to take returns it. -/
theorem ready_yields (hr : s.Ready env) (hord : s.Ordered) (halert : s.Alert)
    (hs : StageOk s (.holding p)) : s.Yields env p := by
  obtain ⟨hne, -, ⟨hp, hlook | hpc | hpc⟩ | ⟨-, hpc | hpc⟩⟩ := hs
  · obtain ⟨hdeaf, hpark⟩ := halert (by rwa [hp])
    cases hpc : s.password with
    | done1 => exact done1_yields hr hpc (hord.not_done (by simp [hpc])) hp hne
    | done2 =>
      exact done2_yields hr hpc (fun h => hord.not_done (by simp [hpc]) (.inr h)) hp hne
    | testPassphrase => exact testPassphrase_yields hr hpc hp hne
    | wait w =>
      cases w with
      | receive w =>
        obtain ⟨b, rest, hl⟩ := hpark w hpc
        cases hr.lock.symm.trans hl
      | _ =>
        rw [hpc] at hdeaf
        cases hdeaf
    | _ =>
      rw [hpc] at hlook
      cases hlook
  · exact readPassphrase_yields hr hpc hp
  · exact clearPassphrase_yields hr hpc
  · exact setHandshake_yields hr hpc
  · exact notify_yields hr hpc

end Yields

section Stranded

variable {env : Env} {s u : State} {a : Action}

theorem register_strands (env : Env) (hl : s.sh.lock = .free) (hne : s.sh.passphrase ≠ [])
    (hst : s.sh.status = .handshake) (hpc : s.password = .wait .register) :
    ∃ m, Reach (step env) s m ∧ m.Stranded := by
  refine ⟨{ s with
    sh := { s.sh with waiting := s.sh.waiting ++ [s.sh.nextChan], nextChan := s.sh.nextChan + 1 }
    password := .wait (.receive s.sh.nextChan) }, .tail .refl (a := .password) trivial ?_,
    hne, by simp [hst], s.sh.nextChan, rfl, fun b rest hr => ?_⟩
  · simp [step, Shared.busy, hl, hpc, passwordStep, waitStep, passwordAt]
  · cases hl.symm.trans hr

theorem done2_strands (env : Env) (hl : s.sh.lock = .free) (hne : s.sh.passphrase ≠ [])
    (hst : s.sh.status = .handshake) (hpc : s.password = .wait .done2) :
    ∃ m, Reach (step env) s m ∧ m.Stranded := by
  have hstep : step env s .password = some { s with password := .wait .register } := by
    simp [step, Shared.busy, hl, hpc, passwordStep, waitStep, passwordAt, hst]
  obtain ⟨m, hm, hend⟩ := register_strands (s := { s with password := .wait .register }) env hl
    hne hst rfl
  exact ⟨m, Run.trans (.tail .refl trivial hstep) hm, hend⟩

theorem done1_strands (env : Env) (hl : s.sh.lock = .free) (hne : s.sh.passphrase ≠ [])
    (hst : s.sh.status = .handshake) (hpc : s.password = .wait .done1) :
    ∃ m, Reach (step env) s m ∧ m.Stranded := by
  have hstep : step env s .password = some { s with password := .wait .done2 } := by
    simp [step, Shared.busy, hl, hpc, passwordStep, waitStep, passwordAt, hst]
  obtain ⟨m, hm, hend⟩ := done2_strands (s := { s with password := .wait .done2 }) env hl hne
    hst rfl
  exact ⟨m, Run.trans (.tail .refl trivial hstep) hm, hend⟩

theorem deaf_cases {pc : PasswordPc} (h : pc.deaf = true) :
    pc = .wait .done1 ∨ pc = .wait .done2 ∨ pc = .wait .register := by
  cases pc with
  | wait w =>
    cases w with
    | receive w => cases h
    | _ => simp
  | _ => cases h

/-- A passphrase that is accepted while the callback is deaf can strand. -/
theorem unheard_strands (hr : s.Sound env) (hgiven : s.Given) (h : step env s a = some u)
    (ha : ¬Heard s a) : ∃ m, Reach (step env) u m ∧ m.Stranded := by
  cases a with
  | thread t =>
    simp only [Heard, not_forall] at ha
    obtain ⟨r, inp, hpc, hst, hdeaf⟩ := ha
    have hdeaf : s.password.deaf = true := by simpa using hdeaf
    have hsound := run_sound hr (.tail .refl (G := Always) trivial h)
    obtain ⟨-, sh, pc, hc, rfl⟩ := step_thread h
    rw [hpc] at hc
    simp only [threadStep, hst, Option.ite_none_right_eq_some, if_true, Option.some.injEq] at hc
    cases hc.2
    obtain ⟨m, hm, hf, -⟩ := drain env hsound.locked hsound.room rfl
    have hch : s.password.channel = none := by
      rcases deaf_cases hdeaf with hp | hp | hp <;> rw [hp] <;> rfl
    obtain ⟨hp, hpass, hmst⟩ := releases_frame hm hch
    have hne : m.sh.passphrase ≠ [] := hpass ▸ hgiven t r inp hpc
    obtain ⟨n, hn, hend⟩ : ∃ n, Reach (step env) m n ∧ n.Stranded := by
      rcases deaf_cases hdeaf with hd | hd | hd
      · exact done1_strands env hf hne hmst (hp.trans hd)
      · exact done2_strands env hf hne hmst (hp.trans hd)
      · exact register_strands env hf hne hmst (hp.trans hd)
    exact ⟨n, Run.trans (hm.mono fun _ _ _ => trivial) hn, hend⟩
  | _ => exact (ha trivial).elim

end Stranded

/-- In every run in which no passphrase is accepted between the test of the
field and the registration of the callback: each callback has returned the one
passphrase that was accepted while it prompted, at most the last one is still
running, none is stranded, and an accepted passphrase that has not been returned
yet can be, with no help from any client. An acceptance in that window can
strand. -/
theorem accepted_passphrase_returned (env : Env) (interactive : Bool) :
    (∀ s h, Run (passStep env) (fun x => Heard x.1) (init env interactive, []) (s, h) →
      ¬s.Stranded ∧ ∃ returned last, h = history returned last ∧
        ∀ p, last = .holding p → s.Yields env p) ∧
    ∀ s a u, Reach (step env) (init env interactive) s → step env s a = some u → ¬Heard s a →
      ∃ m, Reach (step env) u m ∧ m.Stranded := by
  refine ⟨fun s h hrun => ?_, fun s a u hr hs ha => ?_⟩
  · have halert := run_alert hrun.forget
    refine ⟨halert.not_stranded (reach_room hrun.forget).2, ?_⟩
    obtain ⟨returned, last, hh, hst⟩ := run_staged hrun
    refine ⟨returned, last, hh, fun p hlast => ?_⟩
    subst hlast
    obtain ⟨m, hm, hfree⟩ := free_lock (reach_sound hrun.forget)
    -- the stage is read off the history, which the freeing steps do not extend
    have hquiet : ∀ r, Run (passStep env) (fun x => Heard x.1) (s, r) (m, r) := fun r =>
      (hm.silent (fun _ _ ha => (frees_silent ha).1) r).mono fun _ _ ha => (frees_silent ha).2
    have hall := hrun.trans (hquiet h)
    obtain ⟨returned', last', hh', hst'⟩ := run_staged hall
    obtain rfl := history_last (hh'.symm.trans hh)
    have hready : m.Ready env := ⟨reach_sound hall.forget, hfree⟩
    have hyields := ready_yields hready (run_ordered hall.forget) (run_alert hall.forget) hst'
    intro r
    obtain ⟨u, hu, hend⟩ := hyields r
    exact ⟨u, (hquiet r).trans hu, hend⟩
  · exact unheard_strands (reach_sound hr) (run_given hr) hs ha

section Example

/-- The callback has found no passphrase when the client's one is accepted; it
registers after the notification. -/
theorem accepted_passphrase_stranded :
    ¬∀ (env : Env) (interactive : Bool) (s : State),
      Reach (step env) (init env interactive) s → ¬s.Stranded := by
  intro hall
  obtain ⟨s, hr, hs⟩ := reach_of_check (step sampleEnv) (init sampleEnv false)
    (toHandshake ++ .passwordCall :: List.replicate 4 .password ++
      [.request 0 0 ⟨"pw".toList, none⟩, .thread 0, .unlock] ++ List.replicate 3 .password)
    (fun s => s.sh.passphrase = "pw".toList && s.sh.status = .handshake &&
      s.password = .wait (.receive 0) && s.sh.lock = .free) (by decide)
  simp only [Bool.and_eq_true, decide_eq_true_eq] at hs
  obtain ⟨⟨⟨hp, hst⟩, hpc⟩, hl⟩ := hs
  refine hall sampleEnv false s hr ⟨by simp [hp], by simp [hst], 0, hpc, fun a rest h => ?_⟩
  cases hl.symm.trans h

def heard (s : State) : Action → Bool
  | .thread t =>
    match s.threads t with
    | .setPassphrase _ _ => s.sh.status ≠ .needPassphrase || !s.password.deaf
    | _ => true
  | _ => true

theorem heard_sound {s : State} {a : Action} (h : heard s a = true) : Heard s a := by
  cases a with
  | thread t =>
    intro r inp hpc hst
    simpa [heard, hpc, hst] using h
  | _ => trivial

/-- A passphrase accepted while the callback is parked. -/
theorem accepted_passphrase_returned_to_parked :
    ∃ s, Run (passStep sampleEnv) (fun x => Heard x.1) (init sampleEnv false, [])
        (s, [.called, .accepted "pw".toList]) ∧
      s.sh.passphrase = "pw".toList ∧ ¬s.Stranded ∧ s.Yields sampleEnv "pw".toList := by
  obtain ⟨⟨s, h⟩, hs, hp⟩ := (Option.any_eq_true ..).mp
    (show (exec (guarded (fun x => heard x.1) (passStep sampleEnv)) (init sampleEnv false, [])
      (toHandshake ++ .passwordCall :: List.replicate 7 .password ++
        [.request 0 0 ⟨"pw".toList, none⟩, .thread 0])).any
        (fun x => x.1.sh.passphrase = "pw".toList &&
          x.2 = [.called, .accepted "pw".toList]) = true by decide)
  simp only [Bool.and_eq_true, decide_eq_true_eq] at hp
  obtain ⟨hpass, rfl⟩ := hp
  have hrun : Run (passStep sampleEnv) (fun x => Heard x.1) (init sampleEnv false, []) (s, _) :=
    run_of_exec (I := fun _ => True) (fun _ _ _ _ _ _ => trivial)
      (fun _ _ _ => heard_sound) trivial hs
  obtain ⟨hno, returned, last, hh, hyields⟩ :=
    (accepted_passphrase_returned sampleEnv false).1 s _ hrun
  have hlast : Stage.holding "pw".toList = last :=
    history_last (show history [] (.holding "pw".toList) = history returned last from hh)
  exact ⟨s, hrun, hpass, hno, hyields _ hlast.symm⟩

end Example

end SshTunnel.Connector
