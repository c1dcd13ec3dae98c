import SshTunnel.Connector.State
import SshTunnel.Lib.Runs

/-!
# Steps of a connector (`dialer/sshdialer.go:303-500`, `server/server.go:96-151`)

One action is one critical section, one channel operation or one unlocked read
or write of a field. The program counter of each goroutine names the statement
it executes next, under the source's words for it.
-/

namespace SshTunnel.Connector

open Lib.Net (Text)
open Control (ConnectStatus ConnectIn ConnectOut)

/-- `SSHConnector.connect`: the failover loop over the addresses, then the
deferred function. `user` is `cfg.User`. -/
inductive ConnectPc where
  | loop (i : ℕ) (user : Text)
  | setConnecting (i : ℕ) (user : Text)
  | dialTimeout (i : ℕ) (user : Text)
  | printDialFailed (i : ℕ) (user err : Text)
  | setHandshake (i : ℕ) (user : Text)
  | newClientConn (i : ℕ) (user : Text)
  | printHandshakeFailed (i : ℕ) (user err : Text)
  | printHandshakeSucceeded (i : ℕ) (user : Text)
  | setClient (i : ℕ)
  | setSucceeded
  | clearErr
  | deferTest
  | deferFail
  | deferClear
  | deferNotify
  | done
  deriving DecidableEq

structure Call where
  id : ℕ
  hostname : Text
  key : PublicKey
  deriving DecidableEq

inductive HostKeyPc where
  | idle
  | printMismatch (c : Call) (want : PublicKey)
  | testInteractive (c : Call)
  | printUnknown (c : Call)
  | prompt (c : Call)
  | receive (c : Call) (decision : ℕ)
  | clearPending (c : Call) (decision : ℕ) (accepted : Bool)
  | append (c : Call)
  | printAdded (c : Call)
  | ret (c : Call) (ok : Bool)
  deriving DecidableEq

/-- `Wait`: `Done` reads the status twice, then the channel is registered. -/
inductive WaitPc where
  | done1
  | done2
  | register
  | receive (w : ℕ)
  deriving DecidableEq

inductive PasswordPc where
  | idle
  | setStatus
  | done1
  | done2
  | testPassphrase
  | readPassphrase
  | clearPassphrase (p : Text)
  | setHandshake (p : Text)
  | notify (p : Text)
  | wait (w : WaitPc)
  deriving DecidableEq

/-- What a client knows of the response it replies to: the fingerprint shown to
the user and the number of decisions taken when its status was read. -/
structure Shown where
  fingerprint : Text
  stamp : ℕ
  deriving DecidableEq

/-- A `Server.Connect` request: its `ServerConnector`, the response it replies
to and the messages collected so far. -/
structure Request where
  sid : ℕ
  answers : Option Shown
  messages : List Text
  deriving DecidableEq

/-- The two loops that call `Wait` outside the connector. A request carries its
local `status`. -/
inductive Loop where
  | request (r : Request) (status : ConnectStatus)
  | connect
  deriving DecidableEq

inductive ThreadPc where
  | idle
  | setPassphrase (r : Request) (inp : ConnectIn)
  | acceptHostKey (r : Request) (accept : Bool)
  | sendDecision (r : Request) (accept : Bool)
  | messageCount (r : Request)
  | message (r : Request)
  | increment (r : Request)
  | readStatus (r : Request)
  | done1 (l : Loop)
  | done2 (l : Loop)
  | wait (l : Loop) (w : WaitPc)
  | outStatus (r : Request)
  | fingerprint (r : Request) (stamp : ℕ)
  | returned (out : ConnectOut) (stamp : ℕ)
  | failed (err : Text)
  /-- A panic in a handler, recovered by the http server. -/
  | panicked
  /-- The loop of `SSHDialer.Connect` has ended. -/
  | exited
  deriving DecidableEq

structure State where
  sh : Shared
  connect : ConnectPc
  hostKey : HostKeyPc
  password : PasswordPc
  threads : ℕ → ThreadPc

def init (env : Env) (interactive : Bool) : State where
  sh := newShared interactive
  connect := .loop 0 env.user
  hostKey := .idle
  password := .idle
  threads := fun _ => .idle

section Agents

/-- One step of `connect`; `calm` says that no callback of the ssh library is
running, without which `NewClientConn` does not return. -/
def connectStep (env : Env) (calm : Bool) (sh : Shared) : ConnectPc → Option (Shared × ConnectPc)
  | .loop i user =>
    match env.addresses[i]? with
    | none => some (sh, .deferTest)
    | some addr =>
      let user := if addr.user = [] then user else addr.user
      (sh.print .connect (tryingText user addr.host)).map fun sh' => (sh', .setConnecting i user)
  | .setConnecting i user => some ({ sh with status := .connecting }, .dialTimeout i user)
  | .dialTimeout i user =>
    match env.dialTimeout i with
    | some err => some (sh, .printDialFailed i user err)
    | none => some (sh, .setHandshake i user)
  | .printDialFailed i user err =>
    (sh.print .connect (dialFailedText user (env.host i) err)).map
      fun sh' => (sh', .loop (i + 1) user)
  | .setHandshake i user => some ({ sh with status := .handshake }, .newClientConn i user)
  | .newClientConn i user =>
    if calm then
      match env.newClientConn i with
      | some err => some (sh, .printHandshakeFailed i user err)
      | none => some (sh, .printHandshakeSucceeded i user)
    else none
  | .printHandshakeFailed i user err =>
    (sh.print .connect (handshakeFailedText user (env.host i) err)).map
      fun sh' => (sh', .loop (i + 1) user)
  | .printHandshakeSucceeded i user =>
    (sh.print .connect (handshakeSucceededText user (env.host i))).map
      fun sh' => (sh', .setClient i)
  | .setClient i => some ({ sh with client := some i }, .setSucceeded)
  | .setSucceeded => some ({ sh with status := .succeeded }, .clearErr)
  | .clearErr => some ({ sh with err := none }, .deferTest)
  | .deferTest => some (sh, if sh.status = .succeeded then .deferClear else .deferFail)
  | .deferFail => some ({ sh with status := .failed }, .deferClear)
  | .deferClear => some (sh, .deferNotify)
  | .deferNotify => (sh.notifyWaiting .connect).map fun sh' => (sh', .done)
  | .done => none

/-- The start of the wrapped `HostKeyCallback`, up to the error of the base
callback. -/
def hostKeyCall (env : Env) (sh : Shared) (hostname : Text) (key : PublicKey) :
    Shared × HostKeyPc :=
  let c : Call := ⟨sh.calls, hostname, key⟩
  let sh' := { sh with calls := sh.calls + 1 }.record (.called c.id hostname key)
  match env.hostKeyCallback hostname key with
  | .ok => (sh', .ret c true)
  | .other _ => (sh', .ret c false)
  | .keyError (want :: _) => (sh', .printMismatch c want)
  | .keyError [] => (sh', .testInteractive c)

/-- One step of the wrapped `HostKeyCallback`; `written` says whether
`appendKnownHost` returned `nil`. -/
def hostKeyStep (env : Env) (written : Bool) (sh : Shared) :
    HostKeyPc → Option (Shared × HostKeyPc)
  | .idle => none
  | .printMismatch c want =>
    (sh.print .hostKey (mismatchText c.hostname (env.fingerprintSHA256 want)
      (env.fingerprintSHA256 c.key))).map fun sh' => (sh', .ret c false)
  | .testInteractive c =>
    some (sh.record (.tested c.id sh.interactive), if sh.interactive then .prompt c
      else .printUnknown c)
  | .printUnknown c =>
    (sh.print .hostKey (unknownText c.hostname (env.fingerprintSHA256 c.key))).map
      fun sh' => (sh', .ret c false)
  | .prompt c =>
    if sh.lock = .free then
      let fingerprint := env.fingerprintSHA256 c.key
      some (({ sh with
        pendingHostKey := some ⟨c.hostname, c.key, fingerprint, sh.nextChan⟩
        nextChan := sh.nextChan + 1
        status := .unknownHostKey
        messages := sh.messages ++ [authenticityText c.hostname fingerprint] }.record
          (.prompted c.id sh.nextChan)).notifyWaitingLocked .hostKey,
        .receive c sh.nextChan)
    else none
  | .receive c ch =>
    (sh.buffer ch).map fun accepted =>
      ({ sh with buffer := Function.update sh.buffer ch none }, .clearPending c ch accepted)
  | .clearPending c _ accepted =>
    if sh.lock = .free then
      some ({ sh with pendingHostKey := none }, if accepted then .append c else .ret c false)
    else none
  | .append c =>
    some (sh.record (.appended c.id c.hostname c.key), if written then .printAdded c
      else .ret c true)
  | .printAdded c =>
    (sh.print .hostKey (addedText c.hostname)).map fun sh' => (sh', .ret c true)
  | .ret c ok => some (sh.record (.returned c.id ok), .idle)

/-- One step of `Wait` up to its receive; `none` as the new place says that it
returned. -/
def waitStep (sh : Shared) : WaitPc → Option (Shared × Option WaitPc)
  | .done1 => some (sh, if sh.status = .succeeded then none else some .done2)
  | .done2 => some (sh, if sh.status = .failed then none else some .register)
  | .register =>
    if sh.lock = .free then
      some ({ sh with waiting := sh.waiting ++ [sh.nextChan], nextChan := sh.nextChan + 1 },
        some (.receive sh.nextChan))
    else none
  | .receive _ => none

/-- Where the password callback continues after `Wait`. -/
def passwordAt : Option WaitPc → PasswordPc
  | some w => .wait w
  | none => .done1

def passwordStep (sh : Shared) : PasswordPc → Option (Shared × PasswordPc)
  | .idle => none
  | .setStatus => some ({ sh with status := .needPassphrase }, .done1)
  | .done1 => some (sh, if sh.status = .succeeded then .idle else .done2)
  | .done2 => some (sh, if sh.status = .failed then .idle else .testPassphrase)
  | .testPassphrase =>
    some (sh, if 0 < sh.passphrase.length then .readPassphrase else .wait .done1)
  | .readPassphrase => some (sh, .clearPassphrase sh.passphrase)
  | .clearPassphrase p => some ({ sh with passphrase := [] }, .setHandshake p)
  | .setHandshake p => some ({ sh with status := .handshake }, .notify p)
  | .notify _ => (sh.notifyWaiting .password).map fun sh' => (sh', .idle)
  | .wait w => (waitStep sh w).map fun (sh', w') => (sh', passwordAt w')

/-- The statuses on which the loop of `Server.Connect` stops, besides `Done`. -/
def IsPrompt (st : ConnectStatus) : Prop := st = .needPassphrase ∨ st = .unknownHostKey

instance (st : ConnectStatus) : Decidable (IsPrompt st) := by
  unfold IsPrompt
  infer_instance

/-- `Done` returned true. -/
def Loop.leave : Loop → ThreadPc
  | .request r _ => .outStatus r
  | .connect => .exited

/-- `Done` returned false. -/
def Loop.stay : Loop → ThreadPc
  | .request r st => if IsPrompt st then .outStatus r else .wait (.request r st) .done1
  | .connect => .wait .connect .done1

/-- `Wait` returned. -/
def Loop.again : Loop → ThreadPc
  | .request r _ => .messageCount r
  | .connect => .done1 .connect

def threadAt (l : Loop) : Option WaitPc → ThreadPc
  | some w => .wait l w
  | none => l.again

/-- `Server.Connect` after `SetPassphrase`. -/
def afterPassphrase (r : Request) (inp : ConnectIn) : ThreadPc :=
  match inp.acceptHostKey with
  | some accept => .acceptHostKey r accept
  | none => .messageCount r

def threadStep (t : ℕ) (sh : Shared) : ThreadPc → Option (Shared × ThreadPc)
  | .setPassphrase r inp =>
    if sh.lock = .free then
      if sh.status = .needPassphrase then
        some ({ sh with passphrase := inp.passphrase, status := .handshake }.notifyWaitingLocked
          (.thread t), afterPassphrase r inp)
      else some (sh, afterPassphrase r inp)
    else none
  | .acceptHostKey r accept =>
    if sh.lock = .free then
      if sh.status = .unknownHostKey then
        some ({ sh with
          status := .handshake
          lock := .held (.thread t)
          decisions := sh.decisions + 1 }, .sendDecision r accept)
      else some (sh, .failed (wrongStatusText .unknownHostKey sh.status))
    else none
  | .sendDecision r accept =>
    match sh.pendingHostKey with
    | none => some ({ sh with lock := .free }, .panicked)
    | some p =>
      if sh.buffer p.decision = none then
        some (({ sh with buffer := Function.update sh.buffer p.decision (some accept) }.record
            (.decided t p accept (r.answers.map Shown.fingerprint))).notifyWaitingLocked (.thread t),
          .messageCount r)
      else none
  | .messageCount r =>
    if sh.lock = .free then
      some (sh, if sh.sessions r.sid < sh.messages.length then .message r else .readStatus r)
    else none
  | .message r =>
    if sh.lock = .free then
      match sh.messages[sh.sessions r.sid]? with
      | some msg => some (sh, .increment { r with messages := r.messages ++ [msg] })
      | none => some (sh, .panicked)
    else none
  | .increment r =>
    some ({ sh with sessions := Function.update sh.sessions r.sid (sh.sessions r.sid + 1) },
      .messageCount r)
  | .readStatus r => some (sh, .done1 (.request r sh.status))
  | .done1 l => some (sh, if sh.status = .succeeded then l.leave else .done2 l)
  | .done2 l => some (sh, if sh.status = .failed then l.leave else l.stay)
  | .wait l w => (waitStep sh w).map fun (sh', w') => (sh', threadAt l w')
  | .outStatus r =>
    some (sh, if sh.status = .unknownHostKey then .fingerprint r sh.decisions
      else .returned ⟨sh.status, r.messages, []⟩ sh.decisions)
  | .fingerprint r stamp =>
    if sh.lock = .free then
      some (sh, .returned ⟨.unknownHostKey, r.messages,
        (sh.pendingHostKey.map PendingHostKeyInfo.fingerprint).getD []⟩ stamp)
    else none
  | .idle | .returned .. | .failed _ | .panicked | .exited => none

end Agents

def ThreadPc.atRest : ThreadPc → Bool
  | .idle | .returned .. | .failed _ | .panicked | .exited => true
  | _ => false

/-- What a new request of the thread replies to. -/
def ThreadPc.shown : ThreadPc → Option Shown
  | .returned out stamp =>
    if out.status = .unknownHostKey then some ⟨out.hostKeyFingerprint, stamp⟩ else none
  | _ => none

/-- The first statement of `Server.Connect` on the connector. -/
def startRequest (r : Request) (inp : ConnectIn) : ThreadPc :=
  if inp.passphrase = [] then afterPassphrase r inp else .setPassphrase r inp

/-- The goroutines that can be parked in `Wait`. -/
inductive Waiter where
  | password
  | thread (t : ℕ)
  deriving DecidableEq

inductive Action where
  | connect
  | banner (msg : Text)
  | hostKeyCall (hostname : Text) (key : PublicKey)
  | hostKey (written : Bool)
  | passwordCall
  | password
  | request (t sid : ℕ) (inp : ConnectIn)
  | connectLoop (t : ℕ)
  | thread (t : ℕ)
  | setInteractive
  /-- The notifier sends to the first channel of its list, on which `w` receives. -/
  | send (w : Waiter)
  /-- The notifier has served its list. -/
  | unlock

def State.handshaking (s : State) : Bool :=
  match s.connect with
  | .newClientConn .. => true
  | _ => false

def State.calm (s : State) : Bool :=
  s.hostKey = .idle && !s.sh.busy .hostKey && s.password = .idle && !s.sh.busy .password

def WaitPc.channel : WaitPc → Option ℕ
  | .receive w => some w
  | _ => none

def PasswordPc.channel : PasswordPc → Option ℕ
  | .wait w => w.channel
  | _ => none

def ThreadPc.channel : ThreadPc → Option ℕ
  | .wait _ w => w.channel
  | _ => none

/-- The channel on which a goroutine is parked in `Wait`. -/
def State.parked (s : State) : Waiter → Option ℕ
  | .password => s.password.channel
  | .thread t => (s.threads t).channel

def State.setThread (s : State) (t : ℕ) (pc : ThreadPc) : State :=
  { s with threads := Function.update s.threads t pc }

/-- The receive of a parked goroutine completes. -/
def State.wake (s : State) : Waiter → State
  | .password => { s with password := passwordAt none }
  | .thread t =>
    match s.threads t with
    | .wait l _ => s.setThread t (threadAt l none)
    | _ => s

/-- The ssh library calls the host key callback during the handshake and, for a
new key exchange, on the established connection; it runs one call at a time.
The password callback runs in the goroutine of `connect`. -/
def step (env : Env) (s : State) : Action → Option State
  | .connect =>
    if s.sh.busy .connect then none
    else (connectStep env s.calm s.sh s.connect).map fun (sh, pc) =>
      { s with sh := sh, connect := pc }
  | .banner msg =>
    if s.handshaking && !s.sh.busy .connect && s.password = .idle && !s.sh.busy .password then
      (s.sh.print .connect msg).map fun sh => { s with sh := sh }
    else none
  | .hostKeyCall hostname key =>
    if s.hostKey = .idle && !s.sh.busy .hostKey && (s.handshaking || s.sh.client.isSome) then
      let (sh, pc) := hostKeyCall env s.sh hostname key
      some { s with sh := sh, hostKey := pc }
    else none
  | .hostKey written =>
    if s.sh.busy .hostKey then none
    else (hostKeyStep env written s.sh s.hostKey).map fun (sh, pc) =>
      { s with sh := sh, hostKey := pc }
  | .passwordCall =>
    if s.handshaking && !s.sh.busy .connect && s.password = .idle && !s.sh.busy .password then
      some { s with password := .setStatus }
    else none
  | .password =>
    if s.sh.busy .password then none
    else (passwordStep s.sh s.password).map fun (sh, pc) => { s with sh := sh, password := pc }
  | .request t sid inp =>
    if (s.threads t).atRest then
      some (s.setThread t (startRequest ⟨sid, (s.threads t).shown, []⟩ inp))
    else none
  | .connectLoop t =>
    if (s.threads t).atRest then some (s.setThread t (.done1 .connect)) else none
  | .thread t =>
    if s.sh.busy (.thread t) then none
    else (threadStep t s.sh (s.threads t)).map fun (sh, pc) =>
      { s with sh := sh }.setThread t pc
  | .setInteractive => some { s with sh := { s.sh with interactive := true } }
  | .send w =>
    match s.sh.lock with
    | .notifying a (ch :: rest) =>
      if s.parked w = some ch then
        some ({ s with sh := { s.sh with lock := .notifying a rest } }.wake w)
      else none
    | _ => none
  | .unlock =>
    match s.sh.lock with
    | .notifying _ [] => some { s with sh := { s.sh with lock := .free, waiting := [] } }
    | _ => none

section Inversion

variable {env : Env} {s u : State}

theorem step_connect (h : step env s .connect = some u) :
    s.sh.busy .connect = false ∧ ∃ sh pc, connectStep env s.calm s.sh s.connect = some (sh, pc) ∧
      u = { s with sh := sh, connect := pc } := by
  simp only [step, Option.ite_none_left_eq_some, Option.map_eq_some_iff, Prod.exists] at h
  obtain ⟨hb, sh, pc, hc, rfl⟩ := h
  exact ⟨by simpa using hb, sh, pc, hc, rfl⟩

theorem step_banner {msg : Text} (h : step env s (.banner msg) = some u) :
    s.handshaking = true ∧ s.sh.lock = .free ∧
      u = { s with
        sh := { s.sh with messages := s.sh.messages ++ [msg] }.notifyWaitingLocked .connect } := by
  simp only [step, Shared.print, Option.ite_none_right_eq_some, Option.map_eq_some_iff,
    Option.some.injEq, Bool.and_eq_true] at h
  obtain ⟨⟨⟨⟨hh, -⟩, -⟩, -⟩, sh, ⟨hf, rfl⟩, rfl⟩ := h
  exact ⟨hh, hf, rfl⟩

theorem step_hostKeyCall {hostname : Text} {key : PublicKey}
    (h : step env s (.hostKeyCall hostname key) = some u) :
    s.hostKey = .idle ∧ (s.handshaking = true ∨ s.sh.client.isSome = true) ∧
      u = { s with
        sh := (hostKeyCall env s.sh hostname key).1
        hostKey := (hostKeyCall env s.sh hostname key).2 } := by
  simp only [step, Option.ite_none_right_eq_some, Option.some.injEq, Bool.and_eq_true,
    Bool.or_eq_true, decide_eq_true_eq] at h
  obtain ⟨⟨⟨hi, -⟩, hh⟩, rfl⟩ := h
  exact ⟨hi, hh, rfl⟩

theorem step_hostKey {written : Bool} (h : step env s (.hostKey written) = some u) :
    s.sh.busy .hostKey = false ∧ ∃ sh pc, hostKeyStep env written s.sh s.hostKey = some (sh, pc) ∧
      u = { s with sh := sh, hostKey := pc } := by
  simp only [step, Option.ite_none_left_eq_some, Option.map_eq_some_iff, Prod.exists] at h
  obtain ⟨hb, sh, pc, hc, rfl⟩ := h
  exact ⟨by simpa using hb, sh, pc, hc, rfl⟩

theorem step_passwordCall (h : step env s .passwordCall = some u) :
    s.handshaking = true ∧ s.password = .idle ∧ u = { s with password := .setStatus } := by
  simp only [step, Option.ite_none_right_eq_some, Option.some.injEq, Bool.and_eq_true,
    decide_eq_true_eq] at h
  obtain ⟨⟨⟨⟨hh, -⟩, hp⟩, -⟩, rfl⟩ := h
  exact ⟨hh, hp, rfl⟩

theorem step_password (h : step env s .password = some u) :
    s.sh.busy .password = false ∧ ∃ sh pc, passwordStep s.sh s.password = some (sh, pc) ∧
      u = { s with sh := sh, password := pc } := by
  simp only [step, Option.ite_none_left_eq_some, Option.map_eq_some_iff, Prod.exists] at h
  obtain ⟨hb, sh, pc, hc, rfl⟩ := h
  exact ⟨by simpa using hb, sh, pc, hc, rfl⟩

theorem step_request {t sid : ℕ} {inp : ConnectIn} (h : step env s (.request t sid inp) = some u) :
    (s.threads t).atRest = true ∧
      u = s.setThread t (startRequest ⟨sid, (s.threads t).shown, []⟩ inp) := by
  simp only [step, Option.ite_none_right_eq_some, Option.some.injEq] at h
  exact ⟨h.1, h.2.symm⟩

theorem step_connectLoop {t : ℕ} (h : step env s (.connectLoop t) = some u) :
    (s.threads t).atRest = true ∧ u = s.setThread t (.done1 .connect) := by
  simp only [step, Option.ite_none_right_eq_some, Option.some.injEq] at h
  exact ⟨h.1, h.2.symm⟩

theorem step_thread {t : ℕ} (h : step env s (.thread t) = some u) :
    s.sh.busy (.thread t) = false ∧ ∃ sh pc, threadStep t s.sh (s.threads t) = some (sh, pc) ∧
      u = { s with sh := sh }.setThread t pc := by
  simp only [step, Option.ite_none_left_eq_some, Option.map_eq_some_iff, Prod.exists] at h
  obtain ⟨hb, sh, pc, hc, rfl⟩ := h
  exact ⟨by simpa using hb, sh, pc, hc, rfl⟩

theorem step_setInteractive (h : step env s .setInteractive = some u) :
    u = { s with sh := { s.sh with interactive := true } } := by
  simp only [step, Option.some.injEq] at h
  exact h.symm

theorem step_send {w : Waiter} (h : step env s (.send w) = some u) :
    ∃ a ch rest, s.sh.lock = .notifying a (ch :: rest) ∧ s.parked w = some ch ∧
      u = { s with sh := { s.sh with lock := .notifying a rest } }.wake w := by
  simp only [step] at h
  split at h
  · rename_i a ch rest hl
    simp only [Option.ite_none_right_eq_some, Option.some.injEq] at h
    exact ⟨a, ch, rest, hl, h.1, h.2.symm⟩
  · cases h

theorem step_unlock (h : step env s .unlock = some u) :
    ∃ a, s.sh.lock = .notifying a [] ∧
      u = { s with sh := { s.sh with lock := .free, waiting := [] } } := by
  simp only [step] at h
  split at h
  · rename_i a hl
    exact ⟨a, hl, (Option.some.inj h).symm⟩
  · cases h

end Inversion

section Sample

/-- One address that answers and whose key `[1]` is known; for concrete runs. -/
def sampleEnv : Env where
  addresses := [⟨"u".toList, "h:22".toList⟩]
  user := []
  dialTimeout := fun _ => none
  newClientConn := fun _ => none
  hostKeyCallback := fun _ key => if key = [1] then .ok else .keyError []
  fingerprintSHA256 := fun key => if key = [1] then "SHA256:a".toList else "SHA256:b".toList

/-- `connect` up to its handshake, in which the known key is verified. -/
def toHandshake : List Action :=
  [.connect, .unlock, .connect, .connect, .connect, .hostKeyCall "h:22".toList [1], .hostKey true]

def noInput : ConnectIn := ⟨[], none⟩

end Sample

end SshTunnel.Connector
