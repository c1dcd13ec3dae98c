import SshTunnel.Connector.Step

/-!
# The ssh dialer of the daemon (`dialer/sshdialer.go:161-235`)

`SSHDialer.Dial`, `Connect` and `GetConnector` in any number of threads,
together with the connectors that they create. One action is one acquisition or
release of `SSHDialer.lock`, one access to a field, or one step of a connector.
The steps of a connector that reach outside it are the assignments of the client
and of the connector pointer, and the line appended to `known_hosts`.
-/

namespace SshTunnel.Daemon

open Lib.Net (Text)
open Control (ConnectIn)
open Connector (PublicKey SSHAddress Verdict)

/-- A line of `known_hosts`: a host pattern and a key. -/
structure Line where
  host : Text
  key : PublicKey
  deriving DecidableEq

/-- What the daemon finds outside: the addresses, the outcome of every dial and
handshake of every connector, and the content of `known_hosts` at its start.
`covers` says that a host pattern matches an address, and `normalize` is the
host text that `knownhosts.Line` writes. -/
structure Env where
  addresses : ℕ → List SSHAddress
  user : ℕ → Text
  dialTimeout : ℕ → ℕ → Option Text
  newClientConn : ℕ → ℕ → Option Text
  fingerprintSHA256 : PublicKey → Text
  knownHosts : List Line
  covers : Text → Text → Bool
  normalize : Text → Text

/-- The keys listed for a host. -/
def Env.keysOf (env : Env) (lines : List Line) (hostname : Text) : List PublicKey :=
  (lines.filter fun line => env.covers line.host hostname).map Line.key

/-- The callback of `knownhosts.New` for a file with these lines. -/
def Env.newKnownHosts (env : Env) (lines : List Line) (hostname : Text) (key : PublicKey) :
    Verdict :=
  if key ∈ env.keysOf lines hostname then .ok else .keyError (env.keysOf lines hostname)

/-- The environment of the connector with number `c`. Its base callback is the
one that `NewSSHDialer` made at the start. -/
def Env.connector (env : Env) (c : ℕ) : Connector.Env where
  addresses := env.addresses c
  user := env.user c
  dialTimeout := env.dialTimeout c
  newClientConn := env.newClientConn c
  hostKeyCallback := env.newKnownHosts env.knownHosts
  fingerprintSHA256 := env.fingerprintSHA256

/-- An `*ssh.Client`: the connector that made it and the index of its address. -/
structure SSHClient where
  conn : ℕ
  addr : ℕ
  deriving DecidableEq

inductive DialOutcome where
  | ok
  | openChannelError (err : Text)
  | failed (err : Text)
  deriving DecidableEq

/-- Who called `SSHDialer.Connect`. -/
inductive Caller where
  | dial
  | api
  deriving DecidableEq

/-- Who called `SSHDialer.GetConnector`; `Connect` passes `false`. -/
inductive GetCaller where
  | connect (k : Caller)
  | api (interactive : Bool)
  deriving DecidableEq

def GetCaller.interactive : GetCaller → Bool
  | .connect _ => false
  | .api b => b

inductive Result where
  | dialed (o : DialOutcome)
  | dialFailed (err : Text)
  | connected (client : Option SSHClient) (err : Option Text)
  | connector (c : Option ℕ)
  deriving DecidableEq

inductive Pc where
  | idle
  | dialRLock
  | dialRead
  | dialRUnlock (client : Option SSHClient)
  | dialFirst (client : SSHClient)
  | dialLock (client : SSHClient)
  | dialClear (client : SSHClient)
  | dialUnlock
  | connectRLock (k : Caller)
  | connectTest (k : Caller)
  | connectHeld (k : Caller)
  | connectRUnlock (k : Caller)
  | getRLock (g : GetCaller)
  | getTest (g : GetCaller)
  | getInteractive (g : GetCaller)
  | getHeld (g : GetCaller)
  | getRUnlock (g : GetCaller)
  | getLock (g : GetCaller)
  | getNew (g : GetCaller)
  | getGo (g : GetCaller)
  | getReturn (g : GetCaller)
  | getUnlock (g : GetCaller) (c : Option ℕ)
  | loop (k : Caller) (c : ℕ)
  | clientTest (k : Caller) (c : ℕ)
  | clientRead (k : Caller)
  | errRead (k : Caller) (c : ℕ)
  | dialSecond (client : Option SSHClient)
  | serving (c : ℕ)
  | returned (r : Result)
  /-- A nil pointer was dereferenced. -/
  | panicked
  deriving DecidableEq

/-- A host key callback, with the lines this process had written when it was
called. -/
structure Asked where
  conn : ℕ
  call : Connector.Call
  written : List Line
  deriving DecidableEq

/-- The fields of `SSHDialer`, the connectors with the flag whether their
goroutine has been started, the lines appended to `known_hosts` and, for the
statements only, the host key callbacks so far. `lock` is a list of read holds,
each with the thread that took it, and a writer. -/
structure Core where
  client : Option SSHClient
  readers : List ℕ
  writer : Option ℕ
  sshConnector : Option ℕ
  created : ℕ
  started : ℕ → Bool
  connectors : ℕ → Connector.State
  written : List Line
  asked : List Asked

structure State where
  core : Core
  threads : ℕ → Pc

def init (env : Env) : State where
  core := {
    client := none
    readers := []
    writer := none
    sshConnector := none
    created := 0
    started := fun _ => false
    connectors := fun c => Connector.init (env.connector c) false
    written := []
    asked := [] }
  threads := fun _ => .idle

section Lock

variable (t : ℕ) (d : Core)

def Core.rLock : Option Core :=
  if d.writer = none then some { d with readers := t :: d.readers } else none

def Core.rUnlock : Core := { d with readers := d.readers.erase t }

def Core.lock : Option Core :=
  if d.writer = none ∧ d.readers = [] then some { d with writer := some t } else none

def Core.unlock : Core := { d with writer := none }

end Lock

section Threads

variable (env : Env) (t : ℕ)

/-- A step of the connector `c` as seen by the dialer. -/
def Core.stepConnector (d : Core) (c : ℕ) (a : Connector.Action) : Option Core :=
  (Connector.step (env.connector c) (d.connectors c) a).map fun k =>
    { d with connectors := Function.update d.connectors c k }

def afterConnect (client : Option SSHClient) (err : Option Text) : Caller → Pc
  | .api => .returned (.connected client err)
  | .dial =>
    match err with
    | some e => .returned (.dialFailed e)
    | none => .dialSecond client

/-- `SSHDialer.GetConnector` returns; `Connect` then enters its loop. -/
def afterGet (d : Core) (c : Option ℕ) : GetCaller → Option (Core × Pc)
  | .api _ => some (d, .returned (.connector c))
  | .connect k =>
    match c with
    | none => some (d, .panicked)
    | some c => (d.stepConnector env c (.connectLoop t)).map fun d' => (d', .loop k c)

/-- One step of a thread in the dialer; `o` is the outcome of `client.Dial`. -/
def threadStep (o : DialOutcome) (d : Core) : Pc → Option (Core × Pc)
  | .dialRLock => (d.rLock t).map fun d' => (d', .dialRead)
  | .dialRead => some (d, .dialRUnlock d.client)
  | .dialRUnlock client =>
    some (d.rUnlock t,
      match client with
      | some client => .dialFirst client
      | none => .connectRLock .dial)
  | .dialFirst client =>
    match o with
    | .failed _ => some (d, .dialLock client)
    | o => some (d, .returned (.dialed o))
  | .dialLock client => (d.lock t).map fun d' => (d', .dialClear client)
  | .dialClear _ => some ({ d with client := none }, .dialUnlock)
  | .dialUnlock => some (d.unlock, .connectRLock .dial)
  | .connectRLock k => (d.rLock t).map fun d' => (d', .connectTest k)
  | .connectTest k =>
    some (d, if d.client.isSome then .connectHeld k else .connectRUnlock k)
  | .connectHeld k => some (d, afterConnect d.client none k)
  | .connectRUnlock k => some (d.rUnlock t, .getRLock (.connect k))
  | .getRLock g => (d.rLock t).map fun d' => (d', .getTest g)
  | .getTest g =>
    some (d,
      if d.sshConnector.isSome then if g.interactive then .getInteractive g else .getHeld g
      else .getRUnlock g)
  | .getInteractive g =>
    match d.sshConnector with
    | none => some (d, .panicked)
    | some c => (d.stepConnector env c .setInteractive).map fun d' => (d', .getHeld g)
  | .getHeld g => afterGet env t d d.sshConnector g
  | .getRUnlock g => some (d.rUnlock t, .getLock g)
  | .getLock g => (d.lock t).map fun d' => (d', .getNew g)
  | .getNew g =>
    some ({ d with
      sshConnector := some d.created
      connectors := Function.update d.connectors d.created
        (Connector.init (env.connector d.created) g.interactive)
      created := d.created + 1 }, .getGo g)
  | .getGo g =>
    match d.sshConnector with
    | none => some (d, .panicked)
    | some c => some ({ d with started := Function.update d.started c true }, .getReturn g)
  | .getReturn g => some (d, .getUnlock g d.sshConnector)
  | .getUnlock g c => afterGet env t d.unlock c g
  | .loop k c =>
    if (d.connectors c).threads t = .exited then some (d, .clientTest k c) else none
  | .clientTest k c => some (d, if d.client.isSome then .clientRead k else .errRead k c)
  | .clientRead k => some (d, afterConnect d.client none k)
  | .errRead k c => some (d, afterConnect none (d.connectors c).sh.err k)
  | .dialSecond client =>
    match client with
    | some _ => some (d, .returned (.dialed o))
    | none => some (d, .panicked)
  | .serving c => if ((d.connectors c).threads t).atRest then some (d, .idle) else none
  | .idle | .returned _ | .panicked => none

end Threads

def Pc.atRest : Pc → Bool
  | .idle | .returned _ => true
  | _ => false

/-- The three methods that other goroutines call. -/
inductive Entry where
  | dial
  | connect
  | getConnector (interactive : Bool)
  deriving DecidableEq

def Entry.pc : Entry → Pc
  | .dial => .dialRLock
  | .connect => .connectRLock .api
  | .getConnector interactive => .getRLock (.api interactive)

inductive Action where
  | call (t : ℕ) (e : Entry)
  | thread (t : ℕ) (o : DialOutcome)
  /-- A `Server.Connect` request on a connector. -/
  | serve (t c sid : ℕ) (inp : ConnectIn)
  | connector (c : ℕ) (a : Connector.Action)

/-- The actions of a connector that are not started by a thread of the dialer. -/
def internal : Connector.Action → Bool
  | .request .. | .connectLoop _ | .setInteractive => false
  | _ => true

/-- What a step of the connector `c` changes outside it: `connect` assigns the
client and clears the connector pointer, the host key callback appends a line. -/
def Core.outside (env : Env) (d : Core) (c : ℕ) : Connector.Action → Core
  | .connect =>
    match (d.connectors c).connect with
    | .setClient i => { d with client := some ⟨c, i⟩ }
    | .deferClear => { d with sshConnector := none }
    | _ => d
  | .hostKey true =>
    match (d.connectors c).hostKey with
    | .append call => { d with written := d.written ++ [⟨env.normalize call.hostname, call.key⟩] }
    | _ => d
  | .hostKeyCall hostname key =>
    { d with
      asked := ⟨c, ⟨(d.connectors c).sh.calls, hostname, key⟩, d.written⟩ :: d.asked }
  | _ => d

def State.setThread (s : State) (t : ℕ) (pc : Pc) : State :=
  { s with threads := Function.update s.threads t pc }

def step (env : Env) (s : State) : Action → Option State
  | .call t e => if (s.threads t).atRest then some (s.setThread t e.pc) else none
  | .thread t o =>
    (threadStep env t o s.core (s.threads t)).map fun (d, pc) => { s with core := d }.setThread t pc
  | .serve t c sid inp =>
    if (s.threads t).atRest && s.core.started c then
      (s.core.stepConnector env c (.request t sid inp)).map fun d =>
        { s with core := d }.setThread t (.serving c)
    else none
  | .connector c a =>
    if s.core.started c && internal a then
      (Connector.step (env.connector c) (s.core.connectors c) a).map fun k =>
        let d := s.core.outside env c a
        { s with core := { d with connectors := Function.update d.connectors c k } }
    else none

section Inversion

variable {env : Env} {s u : State} {t : ℕ}

theorem setThread_threads (s : State) (t : ℕ) (pc : Pc) (t' : ℕ) :
    (s.setThread t pc).threads t' = if t' = t then pc else s.threads t' := by
  simp only [State.setThread, Function.update_apply]

theorem stepConnector_eq {d d' : Core} {c : ℕ} {a : Connector.Action}
    (h : d.stepConnector env c a = some d') :
    ∃ k, Connector.step (env.connector c) (d.connectors c) a = some k ∧
      d' = { d with connectors := Function.update d.connectors c k } := by
  obtain ⟨k, hk, rfl⟩ := Option.map_eq_some_iff.mp h
  exact ⟨k, hk, rfl⟩

theorem afterConnect_cases (client : Option SSHClient) (err : Option Text) (k : Caller) :
    (∃ r, afterConnect client err k = .returned r) ∨
      ∃ c, afterConnect client err k = .dialSecond c := by
  cases k with
  | api => exact .inl ⟨_, rfl⟩
  | dial =>
    cases err with
    | some e => exact .inl ⟨_, rfl⟩
    | none => exact .inr ⟨_, rfl⟩

theorem afterGet_cases {d d' : Core} {c : Option ℕ} {g : GetCaller} {pc : Pc}
    (h : afterGet env t d c g = some (d', pc)) :
    (d' = d ∧ (pc = .panicked ∨ pc = .returned (.connector c))) ∨
      ∃ k c' conn, c = some c' ∧ g = .connect k ∧ pc = .loop k c' ∧
        Connector.step (env.connector c') (d.connectors c') (.connectLoop t) = some conn ∧
        d' = { d with connectors := Function.update d.connectors c' conn } := by
  cases g with
  | api b =>
    cases h
    exact .inl ⟨rfl, .inr rfl⟩
  | connect k =>
    cases c with
    | none =>
      cases h
      exact .inl ⟨rfl, .inl rfl⟩
    | some c =>
      obtain ⟨_, hs, he⟩ := Option.map_eq_some_iff.mp h
      cases he
      obtain ⟨conn, hk, rfl⟩ := stepConnector_eq hs
      exact .inr ⟨k, c, conn, rfl, rfl, rfl, hk, rfl⟩

theorem step_call {e : Entry} (h : step env s (.call t e) = some u) :
    (s.threads t).atRest = true ∧ u = s.setThread t e.pc := by
  simp only [step, Option.ite_none_right_eq_some, Option.some.injEq] at h
  exact ⟨h.1, h.2.symm⟩

theorem step_thread {o : DialOutcome} (h : step env s (.thread t o) = some u) :
    ∃ d pc, threadStep env t o s.core (s.threads t) = some (d, pc) ∧
      u = { s with core := d }.setThread t pc := by
  simp only [step, Option.map_eq_some_iff, Prod.exists] at h
  obtain ⟨d, pc, hc, rfl⟩ := h
  exact ⟨d, pc, hc, rfl⟩

theorem step_serve {c sid : ℕ} {inp : ConnectIn} (h : step env s (.serve t c sid inp) = some u) :
    (s.threads t).atRest = true ∧ s.core.started c = true ∧
      ∃ k, Connector.step (env.connector c) (s.core.connectors c) (.request t sid inp) = some k ∧
        u = { s with core :=
          { s.core with connectors := Function.update s.core.connectors c k } }.setThread t
            (.serving c) := by
  simp only [step, Option.ite_none_right_eq_some, Option.map_eq_some_iff, Bool.and_eq_true] at h
  obtain ⟨⟨hrest, hst⟩, d, hd, rfl⟩ := h
  obtain ⟨k, hk, rfl⟩ := stepConnector_eq hd
  exact ⟨hrest, hst, k, hk, rfl⟩

theorem step_connector {c : ℕ} {a : Connector.Action} (h : step env s (.connector c a) = some u) :
    s.core.started c = true ∧ internal a = true ∧
      ∃ k, Connector.step (env.connector c) (s.core.connectors c) a = some k ∧
        u = { s with core :=
          { s.core.outside env c a with
            connectors := Function.update (s.core.outside env c a).connectors c k } } := by
  simp only [step, Option.ite_none_right_eq_some, Option.map_eq_some_iff, Bool.and_eq_true] at h
  obtain ⟨⟨hst, hi⟩, k, hk, rfl⟩ := h
  exact ⟨hst, hi, k, hk, rfl⟩

end Inversion

section Sample

/-- One address whose key `[1]` is known; for concrete runs. -/
def sampleEnv : Env where
  addresses := fun _ => [⟨"u".toList, "h:22".toList⟩]
  user := fun _ => []
  dialTimeout := fun _ _ => none
  newClientConn := fun _ _ => none
  fingerprintSHA256 := fun key => if key = [1] then "SHA256:a".toList else "SHA256:b".toList
  knownHosts := [⟨"h".toList, [1]⟩]
  covers := fun host hostname => host ++ ":22".toList = hostname
  normalize := fun hostname => hostname.take (hostname.length - 3)

def steps (t n : ℕ) : List Action := List.replicate n (.thread t .ok)

end Sample

end SshTunnel.Daemon
