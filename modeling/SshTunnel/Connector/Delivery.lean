import SshTunnel.Connector.Absorbing

/-!
# The messages of the responses (`server/server.go:130-151`, `dialer/sshdialer.go:237-251`)

`Server.Connect` appends messages to its response until it has counted all of
them, then reads the status and, after the loop, reads it again for the
response. What it has collected for one id is always a beginning of the log. A
message that is appended after the last count, followed by a status write that
the request then reports, is missing from the response.
-/

namespace SshTunnel.Connector

open Lib.Runs
open Lib.Net (Text)
open Control (ConnectStatus ConnectIn)

/-- The statuses on which a client exits or asks about a host key. -/
def IsReported (st : ConnectStatus) : Prop := IsDone st ∨ st = .unknownHostKey

/-- One of these statuses is written, with the number of messages in the log by
then (the text of the prompt included), or a response is determined: its status
is read, and at most the fingerprint is still added. -/
inductive DeliveryEvent where
  | set (st : ConnectStatus) (count : ℕ)
  | reply (sid : ℕ) (st : ConnectStatus) (messages : List Text)
  deriving DecidableEq

def deliveryNote (s : State) : Action → List DeliveryEvent
  | .connect =>
    match s.connect with
    | .setSucceeded => [.set .succeeded s.sh.messages.length]
    | .deferFail => [.set .failed s.sh.messages.length]
    | _ => []
  | .hostKey _ =>
    match s.hostKey with
    | .prompt _ => [.set .unknownHostKey (s.sh.messages.length + 1)]
    | _ => []
  | .thread t =>
    match s.threads t with
    | .outStatus r => [.reply r.sid s.sh.status r.messages]
    | _ => []
  | _ => []

abbrev deliveryStep (env : Env) := recorded (step env) deliveryNote

/-- The messages of the responses for one id, one after the other. -/
def delivered (sid : ℕ) (h : List DeliveryEvent) : List Text :=
  h.flatMap fun
    | .reply sid' _ messages => if sid' = sid then messages else []
    | .set .. => []

/-- The number of messages when the status was written for the last time. -/
def lastSet (st : ConnectStatus) (h : List DeliveryEvent) : Option ℕ :=
  h.foldl (fun last e =>
    match e with
    | .set st' n => if st' = st then some n else last
    | .reply .. => last) none

/-- The request whose response is not determined yet. -/
def ThreadPc.collects : ThreadPc → Option Request
  | .setPassphrase r _ | .acceptHostKey r _ | .sendDecision r _ | .messageCount r | .message r
  | .increment r | .readStatus r | .done1 (.request r _) | .done2 (.request r _)
  | .wait (.request r _) _ | .outStatus r => some r
  | _ => none

/-- The request has counted all messages and leaves its loop without counting
again, if the status is `st` from here on. -/
def ThreadPc.reports (st : ConnectStatus) : ThreadPc → Option Request
  | .readStatus r | .outStatus r => some r
  | .done1 (.request r st') => if st = .unknownHostKey ∧ ¬IsPrompt st' then none else some r
  | .done2 (.request r st') => if st ≠ .failed ∧ ¬IsPrompt st' then none else some r
  | _ => none

def CollectsFor (sid : ℕ) (pc : ThreadPc) : Prop := ∃ r, pc.collects = some r ∧ r.sid = sid

/-- The client of this id starts a request only when it has no other one. -/
def OneAtATime (sid : ℕ) (s : State) : Action → Prop
  | .request _ sid' _ => sid' = sid → ∀ t, ¬CollectsFor sid (s.threads t)
  | _ => True

/-- A status that a request of this id is about to report is written only when
that request has counted all messages. -/
def Counted (sid : ℕ) (s : State) : Action → Prop
  | .connect =>
    (s.connect = .setSucceeded → ∀ t r, (s.threads t).reports .succeeded = some r → r.sid = sid →
      s.sh.sessions sid = s.sh.messages.length) ∧
    (s.connect = .deferFail → ∀ t r, (s.threads t).reports .failed = some r → r.sid = sid →
      s.sh.sessions sid = s.sh.messages.length)
  | .hostKey _ => ∀ c, s.hostKey = .prompt c → ∀ t r,
    (s.threads t).reports .unknownHostKey = some r → r.sid ≠ sid
  | _ => True

/-- What a request has collected after the responses `d`, by its place. -/
def Collected (sh : Shared) (d : List Text) : ThreadPc → Prop
  | .setPassphrase r _ | .acceptHostKey r _ | .sendDecision r _ =>
    r.messages = [] ∧ d = sh.messages.take (sh.sessions r.sid)
  | .message r =>
    d ++ r.messages = sh.messages.take (sh.sessions r.sid) ∧ sh.sessions r.sid < sh.messages.length
  | .increment r =>
    d ++ r.messages = sh.messages.take (sh.sessions r.sid + 1) ∧
      sh.sessions r.sid < sh.messages.length
  | .messageCount r | .readStatus r | .done1 (.request r _) | .done2 (.request r _)
  | .wait (.request r _) _ | .outStatus r => d ++ r.messages = sh.messages.take (sh.sessions r.sid)
  | _ => True

section Threads

variable {t : ℕ} {sh sh' : Shared} {pc pc' : ThreadPc} {r : Request} {d : List Text}

theorem threadStep_messages (h : threadStep t sh pc = some (sh', pc')) :
    sh'.messages = sh.messages := by
  cases threadStep_move h <;> rfl

theorem threadStep_sessions (h : threadStep t sh pc = some (sh', pc')) :
    sh'.sessions = sh.sessions ∨ ∃ r, pc = .increment r ∧
      sh'.sessions = Function.update sh.sessions r.sid (sh.sessions r.sid + 1) := by
  cases pc with
  | increment r =>
    cases h
    exact .inr ⟨r, rfl, rfl⟩
  | wait l w =>
    obtain ⟨⟨_, w'⟩, hw, he⟩ := Option.map_eq_some_iff.mp h
    cases he
    cases waitStep_move hw <;> exact .inl rfl
  | sendDecision r b =>
    simp only [threadStep] at h
    split at h
    · cases h
      exact .inl rfl
    · simp only [Option.ite_none_right_eq_some, Option.some.injEq] at h
      cases h.2
      exact .inl rfl
  | message r =>
    simp only [threadStep, Option.ite_none_right_eq_some] at h
    obtain ⟨-, h⟩ := h
    split at h <;> cases h <;> exact .inl rfl
  | _ => grind [threadStep, Shared.notifyWaitingLocked]

theorem stay_collected (st : ConnectStatus)
    (hd : d ++ r.messages = sh.messages.take (sh.sessions r.sid)) :
    Collected sh d (Loop.request r st).stay ∧ (Loop.request r st).stay.collects = some r := by
  simp only [Loop.stay]
  split <;> exact ⟨hd, rfl⟩

theorem afterPassphrase_collected {inp : ConnectIn} (hm : r.messages = [])
    (hd : d = sh.messages.take (sh.sessions r.sid)) :
    Collected sh d (afterPassphrase r inp) ∧ (afterPassphrase r inp).collects = some r := by
  rcases afterPassphrase_cases r inp with ⟨b, hb⟩ | hb <;> rw [hb]
  · exact ⟨⟨hm, hd⟩, rfl⟩
  · exact ⟨by simp only [Collected, hm, List.append_nil]; exact hd, rfl⟩

/-- A request goes on collecting, or it ends: with its response, or before it
has collected anything. -/
theorem threadStep_collected (hc : pc.collects = some r)
    (hle : sh.sessions r.sid ≤ sh.messages.length) (hok : Collected sh d pc)
    (h : threadStep t sh pc = some (sh', pc')) :
    (∃ r', pc'.collects = some r' ∧ r'.sid = r.sid ∧ Collected sh' d pc' ∧
      sh'.sessions r.sid ≤ sh'.messages.length ∧ ∀ q, pc ≠ .outStatus q) ∨
    (pc'.collects = none ∧ sh'.sessions = sh.sessions ∧ (pc = .outStatus r ∨
        r.messages = [] ∧ ∀ q, pc ≠ .outStatus q) ∧
      d ++ r.messages = sh'.messages.take (sh'.sessions r.sid)) := by
  cases pc with
  | setPassphrase q inp =>
    cases hc
    obtain ⟨hm, hd⟩ := hok
    simp only [threadStep, Option.ite_none_right_eq_some] at h
    obtain ⟨-, h⟩ := h
    split at h <;> cases h <;>
      exact .inl ⟨r, (afterPassphrase_collected hm hd).2, rfl, (afterPassphrase_collected hm hd).1,
        hle, by simp⟩
  | acceptHostKey q b =>
    cases hc
    obtain ⟨hm, hd⟩ := hok
    simp only [threadStep, Option.ite_none_right_eq_some] at h
    obtain ⟨-, h⟩ := h
    split at h <;> cases h
    · exact .inl ⟨r, rfl, rfl, ⟨hm, hd⟩, hle, by simp⟩
    · exact .inr ⟨rfl, rfl, .inr ⟨hm, by simp⟩, by rw [hm, List.append_nil]; exact hd⟩
  | sendDecision q b =>
    cases hc
    obtain ⟨hm, hd⟩ := hok
    simp only [threadStep] at h
    split at h
    · cases h
      exact .inr ⟨rfl, rfl, .inr ⟨hm, by simp⟩, by rw [hm, List.append_nil]; exact hd⟩
    · simp only [Option.ite_none_right_eq_some, Option.some.injEq] at h
      cases h.2
      refine .inl ⟨r, rfl, rfl, ?_, hle, by simp⟩
      simp only [Collected, hm, List.append_nil]
      exact hd
  | messageCount q =>
    cases hc
    simp only [threadStep, Option.ite_none_right_eq_some, Option.some.injEq] at h
    cases h.2
    split
    · rename_i hlt
      exact .inl ⟨r, rfl, rfl, ⟨hok, hlt⟩, hle, by simp⟩
    · exact .inl ⟨r, rfl, rfl, hok, hle, by simp⟩
  | message q =>
    cases hc
    obtain ⟨hd, hlt⟩ := hok
    simp only [threadStep, Option.ite_none_right_eq_some] at h
    obtain ⟨-, h⟩ := h
    rw [List.getElem?_eq_getElem hlt] at h
    cases h
    refine .inl ⟨_, rfl, rfl, ⟨?_, hlt⟩, hle, by simp⟩
    rw [← List.append_assoc, hd, List.take_append_getElem hlt]
  | increment q =>
    cases hc
    obtain ⟨hd, hlt⟩ := hok
    cases h
    refine .inl ⟨r, rfl, rfl, ?_, ?_, by simp⟩
    · simp only [Collected, Function.update_self]
      exact hd
    · simp only [Function.update_self]
      exact hlt
  | readStatus q =>
    cases hc
    cases h
    exact .inl ⟨r, rfl, rfl, hok, hle, by simp⟩
  | done1 l =>
    cases l with
    | connect => cases hc
    | request q st =>
      cases hc
      cases h
      refine .inl ⟨r, ?_, rfl, ?_, hle, by simp⟩ <;> split <;> first | rfl | exact hok
  | done2 l =>
    cases l with
    | connect => cases hc
    | request q st =>
      cases hc
      cases h
      obtain ⟨hstay, hr⟩ := stay_collected st hok
      split
      · exact .inl ⟨r, rfl, rfl, hok, hle, by simp⟩
      · exact .inl ⟨r, hr, rfl, hstay, hle, by simp⟩
  | wait l w =>
    cases l with
    | connect => cases hc
    | request q st =>
      cases hc
      obtain ⟨⟨_, w'⟩, hw, he⟩ := Option.map_eq_some_iff.mp h
      cases he
      cases waitStep_move hw with
      | register => exact .inl ⟨r, rfl, rfl, hok, hle, by simp⟩
      | quiet => cases w' <;> exact .inl ⟨r, rfl, rfl, hok, hle, by simp⟩
  | outStatus q =>
    cases hc
    cases h
    refine .inr ⟨?_, rfl, .inl rfl, hok⟩
    split <;> rfl
  | _ => cases hc

theorem threadStep_collects {r' : Request} (h : threadStep t sh pc = some (sh', pc'))
    (hc : pc'.collects = some r') : ∃ r, pc.collects = some r ∧ r.sid = r'.sid := by
  cases pc with
  | setPassphrase q inp =>
    simp only [threadStep, Option.ite_none_right_eq_some] at h
    obtain ⟨-, h⟩ := h
    refine ⟨q, rfl, ?_⟩
    split at h <;> cases h <;>
      rcases afterPassphrase_cases q inp with ⟨b, hb⟩ | hb <;> rw [hb] at hc <;> cases hc <;> rfl
  | done1 l =>
    cases l with
    | connect =>
      cases h
      split at hc <;> cases hc
    | request q st =>
      cases h
      split at hc <;> cases hc <;> exact ⟨_, rfl, rfl⟩
  | done2 l =>
    cases l with
    | connect =>
      cases h
      split at hc <;> cases hc
    | request q st =>
      cases h
      simp only [Loop.stay] at hc
      split at hc
      · cases hc
        exact ⟨_, rfl, rfl⟩
      · split at hc <;> cases hc <;> exact ⟨_, rfl, rfl⟩
  | wait l w =>
    obtain ⟨⟨_, w'⟩, hw, he⟩ := Option.map_eq_some_iff.mp h
    cases he
    cases l with
    | connect => cases w' <;> cases hc
    | request q st => cases w' <;> cases hc <;> exact ⟨_, rfl, rfl⟩
  | _ => grind [threadStep, ThreadPc.collects]

theorem Collected.extend (hok : Collected sh d pc) (hc : pc.collects = some r)
    (hle : sh.sessions r.sid ≤ sh.messages.length) (hm : sh.messages <+: sh'.messages)
    (hs : sh'.sessions r.sid = sh.sessions r.sid) :
    Collected sh' d pc := by
  have htake : ∀ k, k ≤ sh.messages.length → sh'.messages.take k = sh.messages.take k := by
    intro k hk
    obtain ⟨extra, hx⟩ := hm
    rw [← hx, List.take_append_of_le_length hk]
  have hlen := hm.length_le
  cases pc with
  | setPassphrase q inp | acceptHostKey q b | sendDecision q b =>
    cases hc
    exact ⟨hok.1, by rw [hs, htake _ hle]; exact hok.2⟩
  | message q =>
    cases hc
    exact ⟨by rw [hs, htake _ hle]; exact hok.1, by rw [hs]; exact Nat.lt_of_lt_of_le hok.2 hlen⟩
  | increment q =>
    cases hc
    exact ⟨by rw [hs, htake _ hok.2]; exact hok.1, by rw [hs]; exact Nat.lt_of_lt_of_le hok.2 hlen⟩
  | messageCount q | readStatus q | outStatus q =>
    cases hc
    simp only [Collected, hs, htake _ hle]
    exact hok
  | done1 l | done2 l | wait l w =>
    cases l with
    | connect => cases hc
    | request q st =>
      cases hc
      simp only [Collected, hs, htake _ hle]
      exact hok
  | _ => cases hc

end Threads

/-- The responses `d` of an id, together with what its running request has
collected, are the messages that it has counted. -/
def Session (sid : ℕ) (s : State) (d : List Text) : Prop :=
  s.sh.sessions sid ≤ s.sh.messages.length ∧
  ((∀ t, ¬CollectsFor sid (s.threads t)) ∧ d = s.sh.messages.take (s.sh.sessions sid) ∨
    ∃ t r, (s.threads t).collects = some r ∧ r.sid = sid ∧
      (∀ t', t' ≠ t → ¬CollectsFor sid (s.threads t')) ∧ Collected s.sh d (s.threads t))

section Sessions

variable {env : Env} {s u : State} {a : Action} {sid : ℕ} {d : List Text}

theorem delivered_append (sid : ℕ) (h h' : List DeliveryEvent) :
    delivered sid (h ++ h') = delivered sid h ++ delivered sid h' :=
  List.flatMap_append

theorem print_messages {sh sh' : Shared} {b : Agent} {msg : Text} (h : sh.print b msg = some sh') :
    sh.messages <+: sh'.messages := by
  obtain ⟨-, rfl⟩ := print_eq h
  exact List.prefix_append ..

theorem connectStep_messages {calm : Bool} {sh sh' : Shared} {pc pc' : ConnectPc}
    (h : connectStep env calm sh pc = some (sh', pc')) : sh.messages <+: sh'.messages := by
  cases pc with
  | loop i user =>
    simp only [connectStep] at h
    split at h
    · cases h
      exact List.prefix_rfl
    · obtain ⟨_, hp, he⟩ := Option.map_eq_some_iff.mp h
      cases he
      exact print_messages hp
  | printDialFailed | printHandshakeFailed | printHandshakeSucceeded =>
    obtain ⟨_, hp, he⟩ := Option.map_eq_some_iff.mp h
    cases he
    exact print_messages hp
  | dialTimeout =>
    simp only [connectStep] at h
    split at h <;> cases h <;> exact List.prefix_rfl
  | newClientConn =>
    simp only [connectStep] at h
    split at h
    · split at h <;> cases h <;> exact List.prefix_rfl
    · cases h
  | deferNotify =>
    obtain ⟨_, hn, he⟩ := Option.map_eq_some_iff.mp h
    cases he
    obtain ⟨-, rfl⟩ := notifyWaiting_eq hn
    exact List.prefix_rfl
  | done => cases h
  | _ =>
    cases h
    exact List.prefix_rfl

theorem hostKeyStep_messages {written : Bool} {sh sh' : Shared} {pc pc' : HostKeyPc}
    (h : hostKeyStep env written sh pc = some (sh', pc')) : sh.messages <+: sh'.messages := by
  cases pc with
  | idle => cases h
  | printMismatch | printUnknown | printAdded =>
    obtain ⟨_, hp, he⟩ := Option.map_eq_some_iff.mp h
    cases he
    exact print_messages hp
  | prompt c =>
    simp only [hostKeyStep, Option.ite_none_right_eq_some, Option.some.injEq] at h
    cases h.2
    exact List.prefix_append ..
  | receive c ch =>
    obtain ⟨_, -, he⟩ := Option.map_eq_some_iff.mp h
    cases he
    exact List.prefix_rfl
  | clearPending c ch b =>
    simp only [hostKeyStep, Option.ite_none_right_eq_some, Option.some.injEq] at h
    cases h.2
    exact List.prefix_rfl
  | testInteractive | append | ret =>
    cases h
    exact List.prefix_rfl

/-- The log only grows, and only a request counts. -/
theorem step_messages (h : step env s a = some u) :
    s.sh.messages <+: u.sh.messages ∧
      ((∀ t, a ≠ .thread t) → u.sh.sessions = s.sh.sessions) := by
  cases a with
  | connect =>
    obtain ⟨-, sh, pc, hc, rfl⟩ := step_connect h
    refine ⟨connectStep_messages hc, fun _ => ?_⟩
    obtain ⟨_, _, _, _, _, rfl, -, -⟩ := connectStep_frame hc
    rfl
  | banner msg =>
    obtain ⟨-, -, rfl⟩ := step_banner h
    exact ⟨List.prefix_append .., fun _ => rfl⟩
  | hostKeyCall hostname key =>
    obtain ⟨-, -, rfl⟩ := step_hostKeyCall h
    rw [hostKeyCall_frame]
    exact ⟨List.prefix_rfl, fun _ => rfl⟩
  | hostKey written =>
    obtain ⟨-, sh, pc, hc, rfl⟩ := step_hostKey h
    exact ⟨hostKeyStep_messages hc, fun _ => by cases hostKeyStep_move hc <;> rfl⟩
  | passwordCall =>
    obtain ⟨-, -, rfl⟩ := step_passwordCall h
    exact ⟨List.prefix_rfl, fun _ => rfl⟩
  | password =>
    obtain ⟨-, sh, pc, hc, rfl⟩ := step_password h
    cases passwordStep_move hc <;> exact ⟨List.prefix_rfl, fun _ => rfl⟩
  | request t sid inp =>
    obtain ⟨-, rfl⟩ := step_request h
    exact ⟨List.prefix_rfl, fun _ => rfl⟩
  | connectLoop t =>
    obtain ⟨-, rfl⟩ := step_connectLoop h
    exact ⟨List.prefix_rfl, fun _ => rfl⟩
  | thread t =>
    obtain ⟨-, sh, pc, hc, rfl⟩ := step_thread h
    refine ⟨?_, fun hne => (hne t rfl).elim⟩
    exact (threadStep_messages hc).symm ▸ List.prefix_rfl
  | setInteractive =>
    obtain rfl := step_setInteractive h
    exact ⟨List.prefix_rfl, fun _ => rfl⟩
  | send w =>
    obtain ⟨b, ch, rest, -, -, rfl⟩ := step_send h
    rw [wake_sh]
    exact ⟨List.prefix_rfl, fun _ => rfl⟩
  | unlock =>
    obtain ⟨b, -, rfl⟩ := step_unlock h
    exact ⟨List.prefix_rfl, fun _ => rfl⟩

theorem Session.frame (hs : Session sid s d) (hm : s.sh.messages <+: u.sh.messages)
    (hses : u.sh.sessions sid = s.sh.sessions sid)
    (hc : ∀ t, CollectsFor sid (u.threads t) → CollectsFor sid (s.threads t))
    (hk : ∀ t r, (s.threads t).collects = some r → r.sid = sid →
      (u.threads t).collects = some r ∧
        ∀ sh d, Collected sh d (s.threads t) → Collected sh d (u.threads t)) :
    Session sid u d := by
  obtain ⟨hle, hs⟩ := hs
  refine ⟨hses ▸ Nat.le_trans hle hm.length_le, ?_⟩
  rcases hs with ⟨hnone, hd⟩ | ⟨t, r, hr, hsid, hone, hcol⟩
  · refine .inl ⟨fun t ht => hnone t (hc t ht), ?_⟩
    obtain ⟨extra, hx⟩ := hm
    rw [hses, ← hx, List.take_append_of_le_length hle]
    exact hd
  · obtain ⟨hr', hcol'⟩ := hk t r hr hsid
    refine .inr ⟨t, r, hr', hsid, fun t' hne hcf => hone t' hne (hc t' hcf), ?_⟩
    exact hcol' _ _ (hcol.extend hr (hsid ▸ hle) hm (hsid ▸ hses))

theorem Session.still (hs : Session sid s d) (h : step env s a = some u)
    (ha : a.mover = none) : Session sid u d := by
  have ht : u.threads = s.threads := funext fun t => step_threads h (by simp [ha])
  obtain ⟨hm, hses⟩ := step_messages h
  refine hs.frame hm (congrFun (hses fun t hat => ?_) sid) (fun t => by rw [ht]; exact id) ?_
  · rw [hat] at ha
    cases ha
  · rw [ht]
    exact fun t r hr _ => ⟨hr, fun _ _ => id⟩

theorem Session.setThread {t : ℕ} {pc : ThreadPc} {sh : Shared} (hs : Session sid s d)
    (hm : sh.messages = s.sh.messages) (hses : sh.sessions sid = s.sh.sessions sid)
    (ht : ¬CollectsFor sid (s.threads t)) (hpc : ¬CollectsFor sid pc) :
    Session sid ({ s with sh := sh }.setThread t pc) d := by
  refine hs.frame (hm ▸ List.prefix_rfl) hses (fun t' hc => ?_) fun t' r hr hsid => ?_
  · rw [setThread_threads] at hc
    split at hc
    · exact (hpc hc).elim
    · exact hc
  · have hne : t' ≠ t := by
      rintro rfl
      exact ht ⟨r, hr, hsid⟩
    rw [setThread_threads, if_neg hne]
    exact ⟨hr, fun _ _ => id⟩

theorem atRest_collects {pc : ThreadPc} (h : pc.atRest = true) : ¬CollectsFor sid pc := by
  rintro ⟨r, hr, -⟩
  cases pc with
  | idle | returned | failed | panicked | exited => cases hr
  | _ => cases h

theorem startRequest_collected (q : Request) (inp : ConnectIn) (sh : Shared)
    (hm : q.messages = []) (hd : d = sh.messages.take (sh.sessions q.sid)) :
    (startRequest q inp).collects = some q ∧ Collected sh d (startRequest q inp) := by
  unfold startRequest
  split
  · exact (afterPassphrase_collected hm hd).symm
  · exact ⟨rfl, hm, hd⟩

theorem request_session {t sid' : ℕ} {inp : ConnectIn} (hs : Session sid s d)
    (hg : OneAtATime sid s (.request t sid' inp)) (hrest : (s.threads t).atRest = true) :
    Session sid (s.setThread t (startRequest ⟨sid', (s.threads t).shown, []⟩ inp)) d := by
  by_cases hsid : sid' = sid
  · obtain ⟨hle, ⟨-, hd⟩ | ⟨t', r, hr, hrs, -, -⟩⟩ := hs
    · subst hsid
      obtain ⟨hq, hcol⟩ := startRequest_collected
        ⟨sid', (s.threads t).shown, []⟩ inp s.sh rfl hd
      refine ⟨hle, .inr ⟨t, ⟨sid', (s.threads t).shown, []⟩, ?_, rfl, fun t' hne => ?_, ?_⟩⟩
      · rw [setThread_threads, if_pos rfl]
        exact hq
      · rw [setThread_threads, if_neg hne]
        exact hg rfl t'
      · rw [setThread_threads, if_pos rfl]
        exact hcol
    · exact (hg hsid t' ⟨r, hr, hrs⟩).elim
  · refine hs.setThread rfl rfl (atRest_collects hrest) ?_
    rintro ⟨r, hr, hrs⟩
    obtain ⟨hq, -⟩ := startRequest_collected
      ⟨sid', (s.threads t).shown, []⟩ inp s.sh rfl rfl
    cases hq.symm.trans hr
    exact hsid hrs

theorem thread_session {t : ℕ} {sh : Shared} {pc : ThreadPc} (hs : Session sid s d)
    (h : threadStep t s.sh (s.threads t) = some (sh, pc)) :
    Session sid ({ s with sh := sh }.setThread t pc)
      (d ++ delivered sid (deliveryNote s (.thread t))) := by
  have hnote : (∀ q, s.threads t ≠ .outStatus q) → deliveryNote s (.thread t) = [] := by
    intro hno
    simp only [deliveryNote]
  have hm := threadStep_messages h
  by_cases hmine : CollectsFor sid (s.threads t)
  · obtain ⟨hle, ⟨hnone, -⟩ | ⟨t', r, hr, rfl, hone, hcol⟩⟩ := hs
    · exact (hnone t hmine).elim
    obtain rfl : t = t' := by
      by_contra hne
      exact hone t hne hmine
    have hothers : ∀ t', t' ≠ t →
        ¬CollectsFor r.sid (({ s with sh := sh }.setThread t pc).threads t') := by
      intro t' hne
      rw [setThread_threads, if_neg hne]
      exact hone t' hne
    rcases threadStep_collected hr hle hcol h with
      ⟨r', hr', hsid', hcol', hle', hno⟩ | ⟨hnone, hses, hend, hd⟩
    · rw [hnote hno, show delivered r.sid [] = [] from rfl, List.append_nil]
      refine ⟨hle', .inr ⟨t, r', ?_, hsid', hothers, ?_⟩⟩
      · rw [setThread_threads, if_pos rfl]
        exact hr'
      · rw [setThread_threads, if_pos rfl]
        exact hcol'
    · have hdel : delivered r.sid (deliveryNote s (.thread t)) = r.messages := by
        rcases hend with hpc | ⟨hempty, hno⟩
        · simp [deliveryNote, hpc, delivered]
        · rw [hnote hno, hempty]
          rfl
      have hle' : sh.sessions r.sid ≤ sh.messages.length := by
        rw [hses, hm]
        exact hle
      rw [hdel]
      refine ⟨hle', .inl ⟨fun t' hc => ?_, hd⟩⟩
      by_cases hne : t' = t
      · subst hne
        rw [setThread_threads, if_pos rfl] at hc
        obtain ⟨q, hq, -⟩ := hc
        cases hnone.symm.trans hq
      · exact hothers t' hne hc
  · have hdel : delivered sid (deliveryNote s (.thread t)) = [] := by
      by_cases hout : ∃ q, s.threads t = .outStatus q
      · obtain ⟨q, hq⟩ := hout
        have hne : q.sid ≠ sid := fun he => hmine ⟨q, by rw [hq]; rfl, he⟩
        simp [deliveryNote, hq, delivered, hne]
      · rw [hnote fun q hq => hout ⟨q, hq⟩]
        rfl
    rw [hdel, List.append_nil]
    refine hs.setThread hm ?_ hmine fun hc => ?_
    · rcases threadStep_sessions h with hses | ⟨q, hq, hses⟩
      · rw [hses]
      · have hne : sid ≠ q.sid := fun he => hmine ⟨q, by rw [hq]; rfl, he.symm⟩
        rw [hses, Function.update_of_ne hne]
    · obtain ⟨q, hq, hsid⟩ := hc
      obtain ⟨q', hq', hsid'⟩ := threadStep_collects h hq
      exact hmine ⟨q', hq', hsid'.trans hsid⟩

theorem step_session (hs : Session sid s d) (hg : OneAtATime sid s a)
    (h : step env s a = some u) : Session sid u (d ++ delivered sid (deliveryNote s a)) := by
  have hquiet : delivered sid (deliveryNote s a) = [] → Session sid u d →
      Session sid u (d ++ delivered sid (deliveryNote s a)) := by
    intro hn hd
    rwa [hn, List.append_nil]
  cases a with
  | thread t =>
    obtain ⟨-, sh, pc, hc, rfl⟩ := step_thread h
    exact thread_session hs hc
  | connect =>
    refine hquiet ?_ (hs.still h rfl)
    simp only [deliveryNote]
    split <;> rfl
  | hostKey written =>
    refine hquiet ?_ (hs.still h rfl)
    simp only [deliveryNote]
    split <;> rfl
  | request t sid' inp =>
    obtain ⟨hrest, rfl⟩ := step_request h
    exact hquiet rfl (request_session hs hg hrest)
  | connectLoop t =>
    obtain ⟨hrest, rfl⟩ := step_connectLoop h
    refine hquiet rfl (hs.setThread rfl rfl (atRest_collects hrest) ?_)
    rintro ⟨r, hr, -⟩
    cases hr
  | send w =>
    obtain ⟨b, ch, rest, -, -, rfl⟩ := step_send h
    refine hquiet rfl ?_
    cases w with
    | password => exact hs.frame List.prefix_rfl rfl (fun _ => id) fun _ _ hr _ => ⟨hr, fun _ _ => id⟩
    | thread t =>
      simp only [State.wake]
      split
      · rename_i l w hw
        refine hs.frame List.prefix_rfl rfl (fun t' hc => ?_) fun t' r hr hsid => ?_
        · rw [setThread_threads] at hc
          split at hc
          · rename_i he
            rw [he, hw]
            cases l <;> exact hc
          · exact hc
        · rw [setThread_threads]
          split
          · rename_i he
            rw [he, hw] at hr ⊢
            cases l <;> exact ⟨hr, fun _ _ => id⟩
          · exact ⟨hr, fun _ _ => id⟩
      · exact hs.frame List.prefix_rfl rfl (fun _ => id) fun _ _ hr _ => ⟨hr, fun _ _ => id⟩
  | banner | hostKeyCall | passwordCall | password | setInteractive | unlock =>
    exact hquiet rfl (hs.still h rfl)

end Sessions

/-- The request that is about to report the current status, if it is one of the
reported ones, has counted all messages there were when it was written. -/
def Marked (sid : ℕ) (s : State) (h : List DeliveryEvent) : Prop :=
  IsReported s.sh.status → ∃ n, lastSet s.sh.status h = some n ∧ n ≤ s.sh.messages.length ∧
    ∀ t r, (s.threads t).reports s.sh.status = some r → r.sid = sid → n ≤ s.sh.sessions sid

section Marks

variable {env : Env} {s u : State} {a : Action} {sid : ℕ} {h : List DeliveryEvent}

theorem lastSet_reply (st : ConnectStatus) (h : List DeliveryEvent) (sid : ℕ) (st' : ConnectStatus)
    (messages : List Text) : lastSet st (h ++ [.reply sid st' messages]) = lastSet st h := by
  simp [lastSet]

theorem lastSet_set (st : ConnectStatus) (h : List DeliveryEvent) (n : ℕ) :
    lastSet st (h ++ [.set st n]) = some n := by
  simp [lastSet]

/-- A request comes to report a status by counting all messages. -/
theorem threadStep_reports {t : ℕ} {sh sh' : Shared} {pc pc' : ThreadPc} {r : Request}
    (h : threadStep t sh pc = some (sh', pc')) (hr : pc'.reports sh.status = some r) :
    pc.reports sh.status = some r ∨
      pc = .messageCount r ∧ sh.messages.length ≤ sh.sessions r.sid := by
  cases pc with
  | messageCount q =>
    simp only [threadStep, Option.ite_none_right_eq_some, Option.some.injEq] at h
    cases h.2
    split at hr
    · cases hr
    · rename_i hlt
      cases hr
      exact .inr ⟨rfl, Nat.le_of_not_lt hlt⟩
  | readStatus q =>
    cases h
    simp only [ThreadPc.reports] at hr
    split at hr <;> cases hr
    exact .inl rfl
  | done1 l =>
    cases l with
    | connect =>
      cases h
      split at hr <;> cases hr
    | request q st =>
      cases h
      left
      split at hr
      · rename_i hs
        cases hr
        simp [ThreadPc.reports, hs]
      · simp only [ThreadPc.reports] at hr ⊢
        grind
  | done2 l =>
    cases l with
    | connect =>
      cases h
      split at hr <;> cases hr
    | request q st =>
      cases h
      left
      split at hr
      · rename_i hf
        cases hr
        simp [ThreadPc.reports, hf]
      · simp only [Loop.stay] at hr
        split at hr
        · rename_i hp
          cases hr
          simp [ThreadPc.reports, hp]
        · cases hr
  | wait l w =>
    obtain ⟨⟨_, w'⟩, hw, he⟩ := Option.map_eq_some_iff.mp h
    cases he
    cases l <;> cases w' <;> cases hr
  | setPassphrase q inp =>
    rcases afterPassphrase_cases q inp with ⟨b, hb⟩ | hb <;> grind [threadStep, ThreadPc.reports]
  | outStatus q =>
    cases h
    split at hr <;> cases hr
  | _ => grind [threadStep, ThreadPc.reports]

theorem Marked.frame (hs : Marked sid s h) {h' : List DeliveryEvent}
    (hst : u.sh.status = s.sh.status ∨ ¬IsReported u.sh.status)
    (hl : ∀ st, lastSet st h' = lastSet st h) (hm : s.sh.messages <+: u.sh.messages)
    (hses : s.sh.sessions sid ≤ u.sh.sessions sid)
    (ht : ∀ t r, (u.threads t).reports s.sh.status = some r → r.sid = sid →
      (s.threads t).reports s.sh.status = some r ∨ s.sh.messages.length ≤ s.sh.sessions sid) :
    Marked sid u h' := by
  intro hr
  have he := hst.resolve_right fun hn => hn hr
  obtain ⟨n, hn, hle, hall⟩ := hs (he ▸ hr)
  refine ⟨n, by rw [he, hl, hn], Nat.le_trans hle hm.length_le, fun t r hrep hsid => ?_⟩
  rw [he] at hrep
  rcases ht t r hrep hsid with hold | hcount
  · exact Nat.le_trans (hall t r hold hsid) hses
  · omega

/-- `connect` writes a reported status in two places. -/
theorem connectStep_status {calm : Bool} {sh sh' : Shared} {pc pc' : ConnectPc}
    (h : connectStep env calm sh pc = some (sh', pc')) :
    sh'.status = sh.status ∨ ¬IsReported sh'.status ∨ pc = .setSucceeded ∨ pc = .deferFail := by
  have hprint : ∀ {msg : Text} {sh₁ : Shared}, sh.print .connect msg = some sh₁ →
      sh₁.status = sh.status := by
    intro msg sh₁ hp
    obtain ⟨-, rfl⟩ := print_eq hp
    rfl
  cases pc with
  | loop i user =>
    simp only [connectStep] at h
    split at h
    · cases h
      exact .inl rfl
    · obtain ⟨_, hp, he⟩ := Option.map_eq_some_iff.mp h
      cases he
      exact .inl (hprint hp)
  | printDialFailed | printHandshakeFailed | printHandshakeSucceeded =>
    obtain ⟨_, hp, he⟩ := Option.map_eq_some_iff.mp h
    cases he
    exact .inl (hprint hp)
  | setConnecting | setHandshake =>
    cases h
    exact .inr (.inl (by simp [IsReported, IsDone]))
  | dialTimeout i user =>
    simp only [connectStep] at h
    split at h <;> cases h <;> exact .inl rfl
  | newClientConn i user =>
    simp only [connectStep, Option.ite_none_right_eq_some] at h
    obtain ⟨-, h⟩ := h
    split at h <;> cases h <;> exact .inl rfl
  | setClient | clearErr | deferTest | deferClear =>
    cases h
    exact .inl rfl
  | setSucceeded => exact .inr (.inr (.inl rfl))
  | deferFail => exact .inr (.inr (.inr rfl))
  | deferNotify =>
    obtain ⟨_, hn, he⟩ := Option.map_eq_some_iff.mp h
    cases he
    obtain ⟨-, rfl⟩ := notifyWaiting_eq hn
    exact .inl rfl
  | done => cases h

theorem connect_marked {sh : Shared} {pc : ConnectPc} (hs : Marked sid s h)
    (hg : Counted sid s .connect)
    (hc : connectStep env s.calm s.sh s.connect = some (sh, pc)) :
    Marked sid { s with sh := sh, connect := pc } (h ++ deliveryNote s .connect) := by
  have hm := connectStep_messages hc
  have hses : s.sh.sessions sid ≤ sh.sessions sid := by
    obtain ⟨_, _, _, _, _, rfl, -, -⟩ := connectStep_frame hc
    exact Nat.le_refl _
  have hplain : s.connect ≠ .setSucceeded → s.connect ≠ .deferFail →
      deliveryNote s .connect = [] → Marked sid { s with sh := sh, connect := pc }
        (h ++ deliveryNote s .connect) := by
    intro h1 h2 hn
    rw [hn, List.append_nil]
    refine hs.frame ?_ (fun _ => rfl) hm hses fun t r hr _ => .inl hr
    rcases connectStep_status hc with he | he | he | he
    · exact .inl he
    · exact .inr he
    · exact (h1 he).elim
    · exact (h2 he).elim
  cases hpc : s.connect with
  | setSucceeded =>
    rw [hpc] at hc
    cases hc
    intro _
    refine ⟨s.sh.messages.length, ?_, Nat.le_refl _, fun t r hr hsid => ?_⟩
    · simp only [deliveryNote, hpc]
      exact lastSet_set ..
    · exact Nat.le_of_eq (hg.1 hpc t r hr hsid).symm
  | deferFail =>
    rw [hpc] at hc
    cases hc
    intro _
    refine ⟨s.sh.messages.length, ?_, Nat.le_refl _, fun t r hr hsid => ?_⟩
    · simp only [deliveryNote, hpc]
      exact lastSet_set ..
    · exact Nat.le_of_eq (hg.2 hpc t r hr hsid).symm
  | _ => exact hplain (by simp [hpc]) (by simp [hpc]) (by simp only [deliveryNote, hpc])

theorem hostKey_marked {written : Bool} {sh : Shared} {pc : HostKeyPc} (hs : Marked sid s h)
    (hg : Counted sid s (.hostKey written))
    (hc : hostKeyStep env written s.sh s.hostKey = some (sh, pc)) :
    Marked sid { s with sh := sh, hostKey := pc } (h ++ deliveryNote s (.hostKey written)) := by
  have hm := hostKeyStep_messages hc
  have hplain : sh.status = s.sh.status → sh.sessions = s.sh.sessions →
      (∀ c, s.hostKey ≠ .prompt c) → Marked sid { s with sh := sh, hostKey := pc }
        (h ++ deliveryNote s (.hostKey written)) := by
    intro hst hses hno
    have hn : deliveryNote s (.hostKey written) = [] := by simp only [deliveryNote]
    rw [hn, List.append_nil]
    exact hs.frame (.inl hst) (fun _ => rfl) hm (Nat.le_of_eq (congrFun hses sid).symm)
      fun t r hr _ => .inl hr
  cases hostKeyStep_move hc with
  | prompt c hpc hl =>
    intro _
    refine ⟨s.sh.messages.length + 1, ?_, by simp, fun t r hr hsid => ?_⟩
    · simp only [deliveryNote, hpc]
      exact lastSet_set ..
    · exact (hg c hpc t r hr hsid).elim
  | receive c ch b hpc => exact hplain rfl rfl (by simp [hpc])
  | clear c ch b hpc => exact hplain rfl rfl (by simp [hpc])
  | quiet messages lock log pc' hl hask hask' =>
    refine hplain rfl rfl fun c hpc => ?_
    -- after its prompt the callback asks
    simp only [hpc, hostKeyStep, Option.ite_none_right_eq_some, Option.some.injEq,
      Prod.mk.injEq] at hc
    rw [← hc.2.2] at hask'
    cases hask'

theorem thread_marked {t : ℕ} {sh : Shared} {pc : ThreadPc} (hs : Marked sid s h)
    (hc : threadStep t s.sh (s.threads t) = some (sh, pc)) :
    Marked sid ({ s with sh := sh }.setThread t pc) (h ++ deliveryNote s (.thread t)) := by
  refine hs.frame ?_ (fun st => ?_) ((threadStep_messages hc).symm ▸ List.prefix_rfl) ?_ ?_
  · show sh.status = s.sh.status ∨ ¬IsReported sh.status
    cases threadStep_move hc with
    | accept => exact .inr (by simp [IsReported, IsDone])
    | passphrase => exact .inr (by simp [IsReported, IsDone])
    | _ => exact .inl rfl
  · simp only [deliveryNote]
    split
    · exact lastSet_reply ..
    · rw [List.append_nil]
  · show s.sh.sessions sid ≤ sh.sessions sid
    rcases threadStep_sessions hc with hses | ⟨q, -, hses⟩
    · rw [hses]
    · rw [hses, Function.update_apply]
      split
      · rename_i he
        rw [he]
        exact Nat.le_succ _
      · exact Nat.le_refl _
  · intro t' r hr hsid
    rw [setThread_threads] at hr
    split at hr
    · rename_i he
      subst he
      rcases threadStep_reports hc hr with hold | ⟨-, hcount⟩
      · exact .inl hold
      · exact .inr (hsid ▸ hcount)
    · exact .inl hr

theorem Marked.setThread {t : ℕ} {pc : ThreadPc} (hs : Marked sid s h)
    (hpc : pc.reports s.sh.status = none) : Marked sid (s.setThread t pc) h := by
  refine hs.frame (.inl rfl) (fun _ => rfl) List.prefix_rfl (Nat.le_refl _) fun t' r hr _ => ?_
  rw [setThread_threads] at hr
  split at hr
  · cases hpc.symm.trans hr
  · exact .inl hr

theorem Marked.still (hs : Marked sid s h) (hstep : step env s a = some u) (ha : a.mover = none)
    (hst : u.sh.status = s.sh.status ∨ ¬IsReported u.sh.status) : Marked sid u h := by
  have ht : u.threads = s.threads := funext fun t => step_threads hstep (by simp [ha])
  obtain ⟨hm, hses⟩ := step_messages hstep
  have hses' : u.sh.sessions = s.sh.sessions := hses fun t hat => by
    rw [hat] at ha
    cases ha
  refine hs.frame hst (fun _ => rfl) hm (Nat.le_of_eq (congrFun hses' sid).symm) ?_
  rw [ht]
  exact fun t r hr _ => .inl hr

theorem Marked.wake (hs : Marked sid s h) (w : Waiter) : Marked sid (s.wake w) h := by
  cases w with
  | password => exact hs
  | thread t =>
    simp only [State.wake]
    split
    · rename_i l w hw
      exact hs.setThread (by cases l <;> rfl)
    · exact hs

theorem step_marked (hs : Marked sid s h) (hg : Counted sid s a) (hstep : step env s a = some u) :
    Marked sid u (h ++ deliveryNote s a) := by
  cases a with
  | connect =>
    obtain ⟨-, sh, pc, hc, rfl⟩ := step_connect hstep
    exact connect_marked hs hg hc
  | hostKey written =>
    obtain ⟨-, sh, pc, hc, rfl⟩ := step_hostKey hstep
    exact hostKey_marked hs hg hc
  | thread t =>
    obtain ⟨-, sh, pc, hc, rfl⟩ := step_thread hstep
    exact thread_marked hs hc
  | request t sid' inp =>
    obtain ⟨-, rfl⟩ := step_request hstep
    simp only [deliveryNote, List.append_nil]
    apply hs.setThread
    rcases startRequest_cases ⟨sid', (s.threads t).shown, []⟩ inp with hq | ⟨b, hq⟩ | hq <;>
      rw [hq] <;> rfl
  | connectLoop t =>
    obtain ⟨-, rfl⟩ := step_connectLoop hstep
    simp only [deliveryNote, List.append_nil]
    exact hs.setThread rfl
  | password =>
    simp only [deliveryNote, List.append_nil]
    refine hs.still hstep rfl ?_
    obtain ⟨-, sh, pc, hc, rfl⟩ := step_password hstep
    cases passwordStep_move hc with
    | setStatus => exact .inr (by simp [IsReported, IsDone])
    | register => exact .inl rfl
    | quiet _ _ st _ _ hst => exact hst.imp id fun he => by simp [he, IsReported, IsDone]
  | send w =>
    obtain ⟨b, ch, rest, -, -, rfl⟩ := step_send hstep
    simp only [deliveryNote, List.append_nil]
    apply Marked.wake
    exact hs.frame (.inl rfl) (fun _ => rfl) List.prefix_rfl (Nat.le_refl _)
      fun t r hr _ => .inl hr
  | banner msg =>
    simp only [deliveryNote, List.append_nil]
    refine hs.still hstep rfl (.inl ?_)
    obtain ⟨-, -, rfl⟩ := step_banner hstep
    rfl
  | hostKeyCall hostname key =>
    simp only [deliveryNote, List.append_nil]
    refine hs.still hstep rfl (.inl ?_)
    obtain ⟨-, -, rfl⟩ := step_hostKeyCall hstep
    rw [hostKeyCall_frame]
  | passwordCall =>
    simp only [deliveryNote, List.append_nil]
    refine hs.still hstep rfl (.inl ?_)
    obtain ⟨-, -, rfl⟩ := step_passwordCall hstep
    rfl
  | setInteractive =>
    simp only [deliveryNote, List.append_nil]
    refine hs.still hstep rfl (.inl ?_)
    obtain rfl := step_setInteractive hstep
    rfl
  | unlock =>
    simp only [deliveryNote, List.append_nil]
    refine hs.still hstep rfl (.inl ?_)
    obtain ⟨b, -, rfl⟩ := step_unlock hstep
    rfl

end Marks

/-- Every response with a reported status comes with all messages that were in
the log when that status was written. -/
def Complete (sid : ℕ) (h : List DeliveryEvent) : Prop :=
  ∀ pre st messages post, h = pre ++ .reply sid st messages :: post → IsReported st →
    ∃ n, lastSet st pre = some n ∧ n ≤ (delivered sid (pre ++ [.reply sid st messages])).length

section Runs

variable {env : Env} {s u : State} {a : Action} {sid : ℕ} {h : List DeliveryEvent}

theorem Complete.append {e : DeliveryEvent} (hs : Complete sid h)
    (he : ∀ st messages, e = .reply sid st messages → IsReported st →
      ∃ n, lastSet st h = some n ∧ n ≤ (delivered sid (h ++ [e])).length) :
    Complete sid (h ++ [e]) := by
  intro pre st messages post heq hst
  rcases List.eq_nil_or_concat post with rfl | ⟨post', e', rfl⟩
  · obtain ⟨rfl, hlast⟩ := List.append_inj' heq rfl
    cases hlast
    exact he st messages rfl hst
  · rw [List.concat_eq_append, ← List.cons_append, ← List.append_assoc] at heq
    exact hs pre st messages post' (List.append_inj' heq rfl).1 hst

/-- The length of what an id has been given, when its request replies. -/
theorem Session.counted {t : ℕ} {r : Request} (hs : Session r.sid s (delivered r.sid h))
    (hpc : s.threads t = .outStatus r) :
    (delivered r.sid (h ++ [.reply r.sid s.sh.status r.messages])).length =
      s.sh.sessions r.sid := by
  obtain ⟨hle, ⟨hnone, -⟩ | ⟨t', q, hq, hsid, hone, hcol⟩⟩ := hs
  · exact (hnone t ⟨r, by rw [hpc]; rfl, rfl⟩).elim
  · obtain rfl : t = t' := by
      by_contra hne
      exact hone t hne ⟨r, by rw [hpc]; rfl, rfl⟩
    rw [hpc] at hcol
    have hdel : delivered r.sid [.reply r.sid s.sh.status r.messages] = r.messages := by
      simp [delivered]
    have hd : delivered r.sid h ++ r.messages = s.sh.messages.take (s.sh.sessions r.sid) := hcol
    rw [delivered_append, hdel, hd, List.length_take, Nat.min_eq_left hle]

theorem step_complete (hs : Complete sid h) (hses : Session sid s (delivered sid h))
    (hm : Marked sid s h) (a : Action) : Complete sid (h ++ deliveryNote s a) := by
  have hsilent : deliveryNote s a = [] → Complete sid (h ++ deliveryNote s a) := by
    intro hn
    rwa [hn, List.append_nil]
  have hset : ∀ st n, deliveryNote s a = [.set st n] →
      Complete sid (h ++ deliveryNote s a) := by
    intro st n hn
    rw [hn]
    exact hs.append fun _ _ he => by cases he
  cases a with
  | thread t =>
    by_cases hout : ∃ r, s.threads t = .outStatus r
    · obtain ⟨r, hpc⟩ := hout
      simp only [deliveryNote, hpc]
      refine hs.append fun st messages he hst => ?_
      obtain ⟨hsid, rfl, rfl⟩ := DeliveryEvent.reply.inj he
      subst hsid
      obtain ⟨n, hn, -, hall⟩ := hm hst
      refine ⟨n, hn, ?_⟩
      rw [hses.counted hpc]
      exact hall t r (by rw [hpc]; rfl) rfl
    · refine hsilent ?_
      have hno : ∀ r, s.threads t ≠ .outStatus r := fun r hr => hout ⟨r, hr⟩
      simp only [deliveryNote]
  | connect =>
    cases hpc : s.connect with
    | setSucceeded => exact hset .succeeded s.sh.messages.length (by simp only [deliveryNote, hpc])
    | deferFail => exact hset .failed s.sh.messages.length (by simp only [deliveryNote, hpc])
    | _ => exact hsilent (by simp only [deliveryNote, hpc])
  | hostKey written =>
    cases hpc : s.hostKey with
    | prompt c =>
      exact hset .unknownHostKey (s.sh.messages.length + 1) (by simp only [deliveryNote, hpc])
    | _ => exact hsilent (by simp only [deliveryNote, hpc])
  | _ => exact hsilent rfl

theorem run_session {interactive : Bool} {x : State × List DeliveryEvent}
    (h : Run (deliveryStep env) (fun x => OneAtATime sid x.1) (init env interactive, []) x) :
    Session sid x.1 (delivered sid x.2) := by
  refine h.invariant (P := fun x => Session sid x.1 (delivered sid x.2)) ?_ ?_
  · refine ⟨Nat.le_refl _, .inl ⟨fun t ht => ?_, rfl⟩⟩
    obtain ⟨r, hr, -⟩ := ht
    cases hr
  · intro y a z hs hg he
    obtain ⟨hstep, hrec⟩ := recorded_step he
    rw [hrec, delivered_append]
    exact step_session hs hg hstep

theorem Session.initial {d : List Text} (hs : Session sid s d) : d <+: s.sh.messages := by
  obtain ⟨-, ⟨-, rfl⟩ | ⟨t, r, hr, -, -, hcol⟩⟩ := hs
  · exact List.take_prefix ..
  · have hd : ∃ k, d ++ r.messages = s.sh.messages.take k := by
      cases hpc : s.threads t with
      | setPassphrase | acceptHostKey | sendDecision =>
        rw [hpc] at hr hcol
        cases hr
        exact ⟨_, by rw [hcol.1, List.append_nil]; exact hcol.2⟩
      | message | increment =>
        rw [hpc] at hr hcol
        cases hr
        exact ⟨_, hcol.1⟩
      | done1 l | done2 l | wait l =>
        cases l with
        | connect =>
          rw [hpc] at hr
          cases hr
        | request q st =>
          rw [hpc] at hr hcol
          cases hr
          exact ⟨_, hcol⟩
      | messageCount | readStatus | outStatus =>
        rw [hpc] at hr hcol
        cases hr
        exact ⟨_, hcol⟩
      | _ =>
        rw [hpc] at hr
        cases hr
    obtain ⟨k, hk⟩ := hd
    have hfirst : d <+: s.sh.messages.take k := ⟨r.messages, hk⟩
    exact hfirst.trans (List.take_prefix ..)

theorem run_complete {interactive : Bool} {x : State × List DeliveryEvent}
    (h : Run (deliveryStep env) (fun x a => OneAtATime sid x.1 a ∧ Counted sid x.1 a)
      (init env interactive, []) x) : Marked sid x.1 x.2 ∧ Complete sid x.2 := by
  refine h.invariant_under (P := fun x => Marked sid x.1 x.2 ∧ Complete sid x.2)
    (Q := fun x => Session sid x.1 (delivered sid x.2))
    (fun y hy => run_session (hy.mono fun _ _ hg => hg.1)) ?_ ?_
  · refine ⟨fun hr => ?_, fun pre st messages post heq => ?_⟩
    · simp [init, newShared, IsReported, IsDone] at hr
    · simp at heq
  · rintro y a z hses ⟨hm, hc⟩ ⟨-, hg⟩ he
    obtain ⟨hstep, hrec⟩ := recorded_step he
    rw [hrec]
    exact ⟨step_marked hm hg hstep, step_complete hc hses hm a⟩

end Runs

/-- The record has the response of a thread. -/
def Recorded (h : List DeliveryEvent) : ThreadPc → Prop
  | .fingerprint r _ => .reply r.sid .unknownHostKey r.messages ∈ h
  | .returned out _ => ∃ sid, .reply sid out.status out.messages ∈ h
  | _ => True

section Records

variable {env : Env} {s u : State} {a : Action} {h : List DeliveryEvent} {pc : ThreadPc}

theorem Recorded.append (hr : Recorded h pc) (h' : List DeliveryEvent) : Recorded (h ++ h') pc := by
  cases pc with
  | fingerprint r stamp => exact List.mem_append_left _ hr
  | returned out stamp =>
    obtain ⟨sid, hm⟩ := hr
    exact ⟨sid, List.mem_append_left _ hm⟩
  | _ => trivial

theorem thread_recorded {t : ℕ} {sh : Shared} {pc : ThreadPc} (hr : Recorded h (s.threads t))
    (hc : threadStep t s.sh (s.threads t) = some (sh, pc)) :
    Recorded (h ++ deliveryNote s (.thread t)) pc := by
  cases hpc : s.threads t with
  | outStatus r =>
    simp only [hpc, threadStep, Option.some.injEq, Prod.mk.injEq] at hc
    rw [← hc.2]
    simp only [deliveryNote, hpc]
    split
    · rename_i hst
      simp [Recorded, hst]
    · exact ⟨r.sid, by simp⟩
  | fingerprint r stamp =>
    rw [hpc] at hr
    simp only [hpc, threadStep, Option.ite_none_right_eq_some, Option.some.injEq] at hc
    cases hc.2
    exact ⟨r.sid, List.mem_append_left _ hr⟩
  | setPassphrase r inp =>
    rcases afterPassphrase_cases r inp with ⟨b, hb⟩ | hb <;> grind [threadStep, Recorded]
  | done1 l =>
    rcases leave_cases l with ⟨q, hq⟩ | hq <;> grind [threadStep, Recorded]
  | done2 l =>
    rcases leave_cases l with ⟨q, hq⟩ | hq <;> rcases stay_cases l with ⟨q', hq'⟩ | hq' <;>
      grind [threadStep, Recorded]
  | wait l w =>
    rw [hpc] at hc
    obtain ⟨⟨_, w'⟩, -, he⟩ := Option.map_eq_some_iff.mp hc
    cases he
    cases w' with
    | some w' => trivial
    | none => cases l <;> trivial
  | _ => grind [threadStep, Recorded]

theorem step_recorded (hs : ∀ t, Recorded h (s.threads t)) (hstep : step env s a = some u)
    (t : ℕ) : Recorded (h ++ deliveryNote s a) (u.threads t) := by
  by_cases hm : a.mover = some t
  · cases a with
    | request t' sid inp =>
      obtain ⟨-, rfl⟩ := step_request hstep
      obtain rfl : t' = t := Option.some.inj hm
      rw [setThread_threads, if_pos rfl]
      rcases startRequest_cases ⟨sid, (s.threads t').shown, []⟩ inp with hq | ⟨b, hq⟩ | hq <;>
        rw [hq] <;> trivial
    | connectLoop t' =>
      obtain ⟨-, rfl⟩ := step_connectLoop hstep
      obtain rfl : t' = t := Option.some.inj hm
      rw [setThread_threads, if_pos rfl]
      trivial
    | thread t' =>
      obtain rfl : t' = t := Option.some.inj hm
      obtain ⟨-, sh, pc, hc, rfl⟩ := step_thread hstep
      rw [setThread_threads, if_pos rfl]
      exact thread_recorded (hs t') hc
    | send w =>
      obtain ⟨b, ch, rest, -, -, rfl⟩ := step_send hstep
      cases w with
      | password => cases hm
      | thread t' =>
        obtain rfl : t' = t := Option.some.inj hm
        simp only [State.wake]
        split
        · rename_i l w hw
          rw [setThread_threads, if_pos rfl]
          cases l <;> trivial
        · exact (hs t').append _
    | _ => cases hm
  · rw [step_threads hstep hm]
    exact (hs t).append _

theorem run_recorded {G : State → Action → Prop} {interactive : Bool}
    {x : State × List DeliveryEvent}
    (h : Run (deliveryStep env) (fun x => G x.1) (init env interactive, []) x) (t : ℕ) :
    Recorded x.2 (x.1.threads t) := by
  have hall : ∀ t, Recorded x.2 (x.1.threads t) := by
    refine h.invariant (P := fun x => ∀ t, Recorded x.2 (x.1.threads t)) ?_ ?_
    · intro t
      trivial
    · intro y a z hs _ he
      obtain ⟨hstep, hrec⟩ := recorded_step he
      rw [hrec]
      exact step_recorded hs hstep
  exact hall t

end Records

/-- The messages of the responses for one id, whose client sends one request
after the other, are a beginning of the log; all of them are in the record. If
moreover no status is written while a request that is about to report it has
messages still to count, every response with one of the reported statuses
completes the messages that were in the log when this status was written. -/
theorem responses_complete (env : Env) (interactive : Bool) (sid : ℕ) :
    (∀ s h, Run (deliveryStep env) (fun x => OneAtATime sid x.1) (init env interactive, []) (s, h) →
      delivered sid h <+: s.sh.messages ∧
      ∀ t out stamp, s.threads t = .returned out stamp →
        ∃ sid', .reply sid' out.status out.messages ∈ h) ∧
    ∀ s h, Run (deliveryStep env) (fun x a => OneAtATime sid x.1 a ∧ Counted sid x.1 a)
        (init env interactive, []) (s, h) →
      ∀ pre st messages post, h = pre ++ .reply sid st messages :: post → IsReported st →
        ∃ n, lastSet st pre = some n ∧
          s.sh.messages.take n <+: delivered sid (pre ++ [.reply sid st messages]) := by
  refine ⟨fun s h hrun => ⟨(run_session hrun).initial, fun t out stamp ht => ?_⟩,
    fun s h hrun pre st messages post heq hst => ?_⟩
  · have hr := run_recorded hrun t
    rwa [show (s, h).1.threads t = _ from ht] at hr
  · obtain ⟨n, hn, hle⟩ := (run_complete hrun).2 pre st messages post heq hst
    refine ⟨n, hn, ?_⟩
    have hpre : delivered sid (pre ++ [.reply sid st messages]) <+: s.sh.messages := by
      have hall : delivered sid h <+: s.sh.messages :=
        (run_session (hrun.mono fun _ _ hg => hg.1)).initial
      rw [heq, List.append_cons, delivered_append] at hall
      exact (List.prefix_append ..).trans hall
    refine List.prefix_of_prefix_length_le (List.take_prefix ..) hpre ?_
    exact Nat.le_trans (List.length_take_le ..) hle

section Tests

def oneAtATime (n sid : ℕ) (s : State) : Action → Bool
  | .request _ sid' _ => sid' ≠ sid ||
    (List.range n).all fun t => (s.threads t).collects.all (·.sid ≠ sid)
  | _ => true

theorem oneAtATime_sound {n sid : ℕ} {s : State} {a : Action} (hs : s.IdleFrom n)
    (h : oneAtATime n sid s a = true) : OneAtATime sid s a := by
  cases a with
  | request t sid' inp =>
    rintro rfl t ⟨r, hr, hsid⟩
    simp only [oneAtATime, ne_eq, not_true_eq_false, decide_false, Bool.false_or] at h
    have ht := hs.forall (p := fun pc => pc.collects.all (·.sid ≠ sid')) rfl h t
    simp [hr, hsid] at ht
  | _ => trivial

/-- No thread below `n` is about to report; a test that implies `Counted`. -/
def counted (n : ℕ) (s : State) : Action → Bool
  | .connect | .hostKey _ => (List.range n).all fun t => (s.threads t).reports .failed = none
  | _ => true

theorem reports_failed {pc : ThreadPc} {st : ConnectStatus} {r : Request}
    (h : pc.reports st = some r) : pc.reports .failed = some r := by
  cases pc with
  | done1 l | done2 l =>
    cases l with
    | connect => cases h
    | request q st' =>
      simp only [ThreadPc.reports, Option.ite_none_left_eq_some] at h
      simp only [ThreadPc.reports, reduceCtorEq, ne_eq, not_true_eq_false, false_and, if_false]
      exact h.2
  | readStatus | outStatus => exact h
  | _ => cases h

theorem counted_sound {n sid : ℕ} {s : State} {a : Action} (hs : s.IdleFrom n)
    (h : counted n s a = true) : Counted sid s a := by
  have hnone : (a = .connect ∨ ∃ w, a = .hostKey w) → ∀ t st r,
      (s.threads t).reports st ≠ some r := by
    intro ha t st r hr
    have hall : (List.range n).all (fun t => (s.threads t).reports .failed = none) = true := by
      rcases ha with rfl | ⟨w, rfl⟩ <;> exact h
    have ht := hs.forall (p := fun pc => pc.reports .failed = none) rfl hall t
    simp [reports_failed hr] at ht
  cases a with
  | connect =>
    exact ⟨fun _ t r hr => (hnone (.inl rfl) t _ r hr).elim,
      fun _ t r hr => (hnone (.inl rfl) t _ r hr).elim⟩
  | hostKey w => exact fun c _ t r hr => (hnone (.inr ⟨w, rfl⟩) t _ r hr).elim
  | _ => trivial

theorem run_of_exec_recorded {env : Env} {G : State → Action → Prop} {g : State → Action → Bool}
    {n : ℕ} {interactive : Bool} {as : List Action} {x : State × List DeliveryEvent}
    (hg : ∀ s a, s.IdleFrom n → g s a = true → G s a)
    (h : exec (guarded (fun x a => a.below n && g x.1 a) (deliveryStep env))
      (init env interactive, []) as = some x) :
    Run (deliveryStep env) (fun x => G x.1) (init env interactive, []) x := by
  refine run_of_exec (I := fun x => x.1.IdleFrom n) ?_ ?_ (fun _ _ => rfl) h
  · intro y a z hy ha he
    exact step_idleFrom hy (Bool.and_eq_true _ _ ▸ ha).1 (recorded_step he).1
  · intro y a hy ha
    exact hg y.1 a hy (Bool.and_eq_true _ _ ▸ ha).2

end Tests

section Example

/-- A request that is between its count of the messages and its second look at
the status when the connection succeeds reports the success without the message
about it. -/
theorem response_misses_message :
    ¬∀ (env : Env) (interactive : Bool) (sid : ℕ) (s : State) (h : List DeliveryEvent),
      Run (deliveryStep env) (fun x => OneAtATime sid x.1) (init env interactive, []) (s, h) →
      ∀ pre st messages post, h = pre ++ .reply sid st messages :: post → IsReported st →
        ∃ n, lastSet st pre = some n ∧
          s.sh.messages.take n <+: delivered sid (pre ++ [.reply sid st messages]) := by
  intro hall
  obtain ⟨⟨s, h⟩, hs, hp⟩ := (Option.any_eq_true ..).mp
    (show (exec (guarded (fun x a => a.below 1 && oneAtATime 1 0 x.1 a) (deliveryStep sampleEnv))
      (init sampleEnv false, []) (toHandshake ++ .request 0 0 noInput ::
        List.replicate 4 (.thread 0) ++ [.connect, .connect, .unlock, .connect, .connect] ++
        List.replicate 3 (.thread 0))).any
        (fun x => x.1.sh.messages.length = 2 &&
          x.2 = [.set .succeeded 2, .reply 0 .succeeded (x.1.sh.messages.take 1)]) = true by decide)
  simp only [Bool.and_eq_true, decide_eq_true_eq] at hp
  obtain ⟨hlen, rfl⟩ := hp
  obtain ⟨n, hn, hpre⟩ := hall sampleEnv false 0 s _
    (run_of_exec_recorded (fun _ _ => oneAtATime_sound) hs) [.set .succeeded 2] .succeeded _ [] rfl
    (.inl (.inl rfl))
  cases hn
  have hle := hpre.length_le
  simp [delivered, hlen] at hle

/-- A request that is parked when the connection succeeds counts again. -/
theorem response_of_parked_request :
    ∃ s h messages, Run (deliveryStep sampleEnv)
        (fun x a => OneAtATime 0 x.1 a ∧ Counted 0 x.1 a) (init sampleEnv false, []) (s, h) ∧
      h = [.set .succeeded 2, .reply 0 .succeeded messages] ∧
      s.sh.messages.take 2 <+: messages := by
  obtain ⟨⟨s, h⟩, hs, hp⟩ := (Option.any_eq_true ..).mp
    (show (exec (guarded (fun x a => a.below 1 && (oneAtATime 1 0 x.1 a && counted 1 x.1 a))
        (deliveryStep sampleEnv)) (init sampleEnv false, [])
      (toHandshake ++ .request 0 0 noInput :: List.replicate 10 (.thread 0) ++
        [.connect, .connect, .send (.thread 0), .unlock] ++ List.replicate 10 (.thread 0) ++
        List.replicate 6 .connect ++ [.send (.thread 0), .unlock] ++
        List.replicate 4 (.thread 0))).any
        (fun x => x.2 = [.set .succeeded 2, .reply 0 .succeeded x.1.sh.messages]) = true by decide)
  simp only [decide_eq_true_eq] at hp
  subst hp
  have hrun : Run (deliveryStep sampleEnv) (fun x a => OneAtATime 0 x.1 a ∧ Counted 0 x.1 a)
      (init sampleEnv false, []) (s, _) :=
    run_of_exec_recorded (G := fun s a => OneAtATime 0 s a ∧ Counted 0 s a)
      (fun x a hi ha => by
        rw [Bool.and_eq_true] at ha
        exact ⟨oneAtATime_sound hi ha.1, counted_sound hi ha.2⟩) hs
  obtain ⟨n, hn, hpre⟩ := (responses_complete sampleEnv false 0).2 s _ hrun
    [.set .succeeded 2] .succeeded s.sh.messages [] rfl (.inl (.inl rfl))
  cases hn
  exact ⟨s, _, s.sh.messages, hrun, rfl, by simpa [delivered] using hpre⟩

end Example

end SshTunnel.Connector
