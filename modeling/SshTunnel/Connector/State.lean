import SshTunnel.Control

/-!
# The connector (`dialer/sshdialer.go:45-66`)

The fields of an `SSHConnector` and the critical sections of its methods. The
goroutines that use one connector are the `connect` goroutine, the host key and
password callbacks that the ssh library runs during a handshake, and any number
of threads in `Server.Connect` or in the loop of `SSHDialer.Connect`.

A mutex is modelled with its holder. A section that ends in
`notifyWaitingLocked` keeps the mutex in `notifying` until every registered
channel has been served, one rendezvous at a time.
-/

namespace SshTunnel.Connector

open Lib.Net (Byte Text)
open Control (ConnectStatus ConnectIn ConnectOut)

abbrev PublicKey := List Byte

structure SSHAddress where
  user : Text
  host : Text
  deriving DecidableEq

/-- Result of a `knownhosts` callback: `nil`, a `*KeyError` with its `Want`, or
another error (a revoked key, an unusable address). -/
inductive Verdict where
  | ok
  | keyError (want : List PublicKey)
  | other (err : Text)
  deriving DecidableEq

/-- What one connection attempt finds outside the connector. `dialTimeout` and
`newClientConn` give the error for the address with the given index. -/
structure Env where
  addresses : List SSHAddress
  user : Text
  dialTimeout : ℕ → Option Text
  newClientConn : ℕ → Option Text
  hostKeyCallback : Text → PublicKey → Verdict
  fingerprintSHA256 : PublicKey → Text

/-- The `host` of the address with index `i`. -/
def Env.host (env : Env) (i : ℕ) : Text := (env.addresses[i]?.map (·.host)).getD []

/-- `pendingHostKeyInfo` without the remote address, which nothing reads. The
channel `decision` is named by a number. -/
structure PendingHostKeyInfo where
  hostname : Text
  key : PublicKey
  fingerprint : Text
  decision : ℕ
  deriving DecidableEq

inductive Agent where
  | connect
  | hostKey
  | password
  | thread (t : ℕ)
  deriving DecidableEq

inductive Lock where
  | free
  | held (a : Agent)
  | notifying (a : Agent) (rest : List ℕ)
  deriving DecidableEq

/-- The events of a run that the statements about host keys speak of. -/
inductive Event where
  /-- The `id`-th call of the wrapped `HostKeyCallback`. -/
  | called (id : ℕ) (hostname : Text) (key : PublicKey)
  | tested (id : ℕ) (interactive : Bool)
  | prompted (id : ℕ) (decision : ℕ)
  /-- `AcceptHostKey(accept)` has sent its decision for `p`, which leaves it only
  the return of `nil`; `shown` is the fingerprint of the response it replies to. -/
  | decided (t : ℕ) (p : PendingHostKeyInfo) (accept : Bool) (shown : Option Text)
  /-- `appendKnownHost` was called. -/
  | appended (id : ℕ) (hostname : Text) (key : PublicKey)
  | returned (id : ℕ) (ok : Bool)
  deriving DecidableEq

/-- The fields of `SSHConnector`, the channels made so far (`buffer` is the
content of the decision channels, of capacity one), the `messageCount` of the
`ServerConnector`s that share the connector (`sessions`), the established client
(`client`, the index of its address) and, for the statements only, the number of
decisions taken and the log. -/
structure Shared where
  messages : List Text
  passphrase : Text
  lock : Lock
  interactive : Bool
  status : ConnectStatus
  err : Option Text
  waiting : List ℕ
  pendingHostKey : Option PendingHostKeyInfo
  nextChan : ℕ
  buffer : ℕ → Option Bool
  sessions : ℕ → ℕ
  client : Option ℕ
  calls : ℕ
  decisions : ℕ
  log : List Event

/-- The connector that `GetConnector` allocates. -/
def newShared (interactive : Bool) : Shared where
  messages := []
  passphrase := []
  lock := .free
  interactive := interactive
  status := .unset
  err := none
  waiting := []
  pendingHostKey := none
  nextChan := 0
  buffer := fun _ => none
  sessions := fun _ => 0
  client := none
  calls := 0
  decisions := 0
  log := []

/-- `notifyWaitingLocked`: the registered channels are served from here on. -/
def Shared.notifyWaitingLocked (sh : Shared) (a : Agent) : Shared :=
  { sh with lock := .notifying a sh.waiting }

def Shared.notifyWaiting (sh : Shared) (a : Agent) : Option Shared :=
  if sh.lock = .free then some (sh.notifyWaitingLocked a) else none

def Shared.print (sh : Shared) (a : Agent) (msg : Text) : Option Shared :=
  if sh.lock = .free then
    some ({ sh with messages := sh.messages ++ [msg] }.notifyWaitingLocked a)
  else none

def Shared.record (sh : Shared) (e : Event) : Shared := { sh with log := e :: sh.log }

/-- The agent is inside `notifyWaitingLocked`. -/
def Shared.busy (sh : Shared) (a : Agent) : Bool :=
  match sh.lock with
  | .notifying b _ => a = b
  | _ => false

section Texts

def tryingText (user host : Text) : Text :=
  "Trying to connect to ".toList ++ user ++ "@".toList ++ host ++ "\n".toList

def dialFailedText (user host err : Text) : Text :=
  "Connect to ".toList ++ user ++ "@".toList ++ host ++ " failed. Reason: ".toList ++ err ++
    "\n".toList

def handshakeFailedText (user host err : Text) : Text :=
  "Handshake with ".toList ++ user ++ "@".toList ++ host ++ " failed. Reason: ".toList ++ err ++
    "\n".toList

def handshakeSucceededText (user host : Text) : Text :=
  "Handshake with ".toList ++ user ++ "@".toList ++ host ++ " succeeded\n".toList

def mismatchText (hostname want got : Text) : Text :=
  "WARNING: REMOTE HOST IDENTIFICATION HAS CHANGED for ".toList ++ hostname ++ "!\n".toList ++
    "Someone could be eavesdropping on you right now (man-in-the-middle attack)!\n".toList ++
    "Expected fingerprint: ".toList ++ want ++ "\n".toList ++
    "Got fingerprint:      ".toList ++ got ++ "\n".toList

def unknownText (hostname fingerprint : Text) : Text :=
  "Host ".toList ++ hostname ++ " is not in known_hosts (fingerprint: ".toList ++ fingerprint ++
    ").\n".toList ++ "Add it manually or use an interactive session to confirm.\n".toList

def authenticityText (hostname fingerprint : Text) : Text :=
  "The authenticity of host ".toList ++ hostname ++ " can't be established.\n".toList ++
    "Host key fingerprint (SHA256): ".toList ++ fingerprint

def addedText (hostname : Text) : Text :=
  "Permanently added ".toList ++ hostname ++ " to known_hosts.\n".toList

def wrongStatusText (expected have_ : ConnectStatus) : Text :=
  "wrong status. Expected ".toList ++ expected.text ++ ", Have ".toList ++ have_.text

end Texts

end SshTunnel.Connector
