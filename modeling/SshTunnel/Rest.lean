import SshTunnel.Connector.Step
import SshTunnel.Proxies.Serve

/-!
# The control API over REST (`control/client.go`, `control/server.go`, `server/server.go`)

An operation of `control.API` on its way through the client stub, the route
table, the handler and back, next to the same operation called directly. A
transport value that is encoded is decoded to the same value; a nil target, an
empty body and a body that is not JSON are errors of `json.Unmarshal`.
-/

namespace SshTunnel.Rest

open Lib.Net (Text)
open Control (SSHKey Status ConnectIn ConnectOut)

/-- The operations that read or change the state of the daemon. -/
inductive Operation where
  | addSSHKey (encodedKey passPhrase : Text)
  | listKeys
  | startProxy (proxyType proxyParameter : Text)
  | listProxies
  | addDialer (uri : Text)
  | listDialers
  | connect (id : Text) (inp : ConnectIn)
  | listRules
  | addRule (rule : Control.Rule)
  | status

/-- What an operation returns besides its error. -/
abbrev Operation.Value : Operation → Type
  | .addSSHKey .. | .addDialer _ | .addRule _ => Unit
  | .listKeys => List SSHKey
  | .startProxy .. => Control.Proxy
  | .listProxies => List Control.Proxy
  | .listDialers => List Control.Dialer
  | .connect .. => Text × ConnectOut
  | .listRules => List Control.Rule
  | .status => Status

def Operation.zero : (op : Operation) → op.Value
  | .addSSHKey .. | .addDialer _ | .addRule _ => ()
  | .listKeys => []
  | .startProxy .. => ⟨[], 0, []⟩
  | .listProxies => []
  | .listDialers => []
  | .connect .. => ([], ⟨.unset, [], []⟩)
  | .listRules => []
  | .status => ⟨false, []⟩

inductive Result (α : Type) where
  | returned (value : α) (err : Option Text)
  | panicked

abbrev API (σ : Type) := (op : Operation) → σ → σ × Result op.Value

/-! ### The server -/

inductive Method where
  | get
  | post
  | put
  deriving DecidableEq

inductive Handler where
  | health
  | status
  | getProxies
  | postProxies
  | getKeys
  | postKeys
  | connect
  | postDialers
  | getDialers
  | getState
  | putState
  | postTargets
  | getRules
  | postRules
  deriving DecidableEq

structure Route where
  method : Method
  path : Text
  handler : Handler

def createGinEngine : List Route :=
  [⟨.get, "/api/health".toList, .health⟩, ⟨.get, "/api/status".toList, .status⟩,
    ⟨.get, "/api/proxies".toList, .getProxies⟩, ⟨.post, "/api/proxies".toList, .postProxies⟩,
    ⟨.get, "/api/ssh/keys".toList, .getKeys⟩, ⟨.post, "/api/ssh/keys".toList, .postKeys⟩,
    ⟨.post, "/api/ssh/connect".toList, .connect⟩, ⟨.post, "/api/dialers".toList, .postDialers⟩,
    ⟨.get, "/api/dialers".toList, .getDialers⟩, ⟨.get, "/api/state".toList, .getState⟩,
    ⟨.put, "/api/state".toList, .putState⟩, ⟨.post, "/api/targets".toList, .postTargets⟩,
    ⟨.get, "/api/rules".toList, .getRules⟩, ⟨.post, "/api/rules".toList, .postRules⟩]

inductive Payload where
  | empty
  | sshKey (key : SSHKey)
  | proxy (p : Control.Proxy)
  | sshTarget (uri : Text)
  | connectIn (id : Text) (inp : ConnectIn)
  | rule (rule : Control.Rule)

/-- The operation that a handler calls, if it calls one of those above and its
`BindJSON` succeeds. -/
def Handler.operation : Handler → Payload → Option Operation
  | .status, _ => some .status
  | .getProxies, _ => some .listProxies
  | .postProxies, .proxy p => some (.startProxy p.proxyType p.proxyParameters)
  | .getKeys, _ => some .listKeys
  | .postKeys, .sshKey key => some (.addSSHKey key.privateKey key.passphrase)
  | .connect, .connectIn id inp => some (.connect id inp)
  | .postDialers, .sshTarget uri => some (.addDialer uri)
  | .getDialers, _ => some .listDialers
  | .getRules, _ => some .listRules
  | .postRules, .rule rule => some (.addRule rule)
  | _, _ => none

inductive Json where
  | status (v : Status)
  | keys (v : List SSHKey)
  | proxies (v : List Control.Proxy)
  | proxy (v : Control.Proxy)
  | dialers (v : List Control.Dialer)
  | rules (v : List Control.Rule)
  | connectOut (id : Text) (out : ConnectOut)

inductive Body where
  | empty
  | text (t : Text)
  | json (j : Json)

structure Response where
  code : ℕ
  body : Body

/-- The answer of a handler that returns without writing when there is an error. -/
def silent (err : Option Text) (j : Json) : Response :=
  if err.isSome then ⟨200, .empty⟩ else ⟨200, .json j⟩

/-- What the handler of an operation writes; `Status` writes its value with an
error too, and the handlers of the operations without a value write nothing. -/
def answer : (op : Operation) → op.Value → Option Text → Response
  | .addSSHKey .., _, _ | .addDialer _, _, _ | .addRule _, _, _ => ⟨200, .empty⟩
  | .listKeys, v, err => silent err (.keys v)
  | .startProxy .., v, err => silent err (.proxy v)
  | .listProxies, v, err => silent err (.proxies v)
  | .listDialers, v, err => silent err (.dialers v)
  | .connect .., v, err => silent err (.connectOut v.1 v.2)
  | .listRules, v, err => silent err (.rules v)
  | .status, v, err => ⟨if err.isSome then 500 else 200, .json (.status v)⟩

variable {σ : Type}

/-- One request; the recovery of the engine answers a panic with 500. -/
def serveRequest (impl : API σ) (s : σ) (method : Method) (path : Text) (payload : Payload) :
    σ × Response :=
  match createGinEngine.find? fun r => r.method = method && r.path = path with
  | none => (s, ⟨404, .text "404 page not found".toList⟩)
  | some r =>
    match r.handler.operation payload with
    | none => (s, ⟨400, .empty⟩)
    | some op =>
      match impl op s with
      | (s', .returned v err) => (s', answer op v err)
      | (s', .panicked) => (s', ⟨500, .empty⟩)

/-! ### The client -/

structure Stub where
  method : Method
  path : Text
  payload : Payload

/-- The request that `clientAPI` sends for an operation. -/
def Operation.stub : Operation → Stub
  | .addSSHKey key pass => ⟨.post, "/api/ssh/keys".toList, .sshKey ⟨[], [], key, pass⟩⟩
  | .listKeys => ⟨.get, "/api/keys".toList, .empty⟩
  | .startProxy type params => ⟨.post, "/api/proxies".toList, .proxy ⟨type, 0, params⟩⟩
  | .listProxies => ⟨.get, "/api/proxies".toList, .empty⟩
  | .addDialer uri => ⟨.post, "/api/dialers".toList, .sshTarget uri⟩
  | .listDialers => ⟨.get, "/api/dialers".toList, .empty⟩
  | .connect id inp => ⟨.post, "/api/ssh/connect".toList, .connectIn id inp⟩
  | .listRules => ⟨.get, "/api/rules".toList, .empty⟩
  | .addRule rule => ⟨.post, "/api/rules".toList, .rule rule⟩
  | .status => ⟨.get, "/api/status".toList, .empty⟩

/-- The stubs of the operations without a value pass no target to `json.Unmarshal`. -/
def Operation.nilTarget : Operation → Bool
  | .addSSHKey .. | .addDialer _ | .addRule _ => true
  | _ => false

def Operation.decode : (op : Operation) → Json → Option op.Value
  | .listKeys, .keys v => some v
  | .startProxy .., .proxy v => some v
  | .listProxies, .proxies v => some v
  | .listDialers, .dialers v => some v
  | .connect .., .connectOut id out => some (id, out)
  | .listRules, .rules v => some v
  | .status, .status v => some v
  | _, _ => none

/-- `json.Unmarshal`, which looks at the target first. -/
def unmarshal (op : Operation) (body : Body) : Except Text op.Value :=
  if op.nilTarget then .error "json: Unmarshal(nil)".toList
  else
    match body with
    | .empty => .error "unexpected end of JSON input".toList
    | .text _ => .error "invalid character 'p' after top-level value".toList
    | .json j =>
      match op.decode j with
      | some v => .ok v
      -- no handler answers with the value of another operation
      | none => .error "json: cannot unmarshal".toList

def clientCall (impl : API σ) (op : Operation) (s : σ) : σ × op.Value × Option Text :=
  match serveRequest impl s op.stub.method op.stub.path op.stub.payload with
  | (s', response) =>
    match unmarshal op response.body with
    | .ok v => (s', v, none)
    | .error err => (s', op.zero, some err)

/-- The call through the client has the state, the value and the error of the
direct call. -/
def Equivalent (impl : API σ) (op : Operation) (s : σ) : Prop :=
  ∃ v err, (impl op s).2 = .returned v err ∧ (clientCall impl op s).1 = (impl op s).1 ∧
    (clientCall impl op s).2.1 = v ∧ ((clientCall impl op s).2.2 ≠ none ↔ err ≠ none)

/-! ### The operations through the tables -/

section Tables

variable (impl : API σ) (s : σ)

/-- The handler that the request of an operation reaches. -/
def Operation.handler : Operation → Handler
  | .addSSHKey .. => .postKeys
  | .listKeys => .getKeys
  | .startProxy .. => .postProxies
  | .listProxies => .getProxies
  | .addDialer _ => .postDialers
  | .listDialers => .getDialers
  | .connect .. => .connect
  | .listRules => .getRules
  | .addRule _ => .postRules
  | .status => .status

/-- The path of the keys is registered under another name. -/
theorem route_listKeys : createGinEngine.find? (fun r =>
    r.method = Operation.listKeys.stub.method && r.path = Operation.listKeys.stub.path) = none := by
  decide

theorem route_stub {op : Operation} (h : op ≠ .listKeys) :
    createGinEngine.find? (fun r => r.method = op.stub.method && r.path = op.stub.path) =
      some ⟨op.stub.method, op.stub.path, op.handler⟩ := by
  cases op with
  | listKeys => exact absurd rfl h
  | _ => rfl

theorem operation_stub {op : Operation} (h : op ≠ .listKeys) :
    op.handler.operation op.stub.payload = some op := by
  cases op with
  | listKeys => exact absurd rfl h
  | _ => rfl

theorem serveRequest_stub {op : Operation} (h : op ≠ .listKeys) :
    serveRequest impl s op.stub.method op.stub.path op.stub.payload =
      match impl op s with
      | (s', .returned v err) => (s', answer op v err)
      | (s', .panicked) => (s', ⟨500, .empty⟩) := by
  rw [serveRequest, route_stub h]
  simp only [operation_stub h]

def Preserved (op : Operation) (v : op.Value) (err : Option Text) : Prop :=
  match unmarshal op (answer op v err).body with
  | .ok w => w = v ∧ err = none
  | .error _ => op.zero = v ∧ err ≠ none

theorem equivalent_of_route {op : Operation} (h : op ≠ .listKeys) :
    Equivalent impl op s ↔ ∃ v err, (impl op s).2 = .returned v err ∧ Preserved op v err := by
  simp only [Equivalent, clientCall, serveRequest_stub impl s h, Preserved]
  refine exists_congr fun v => exists_congr fun err => and_congr_right fun hr => ?_
  rcases hi : impl op s with ⟨s', r⟩
  rw [hi] at hr
  cases hr
  cases unmarshal op (answer op v err).body with
  | ok w => simp
  | error e => simp

theorem nilTarget_of_decode {op : Operation} {j : Json} {v : op.Value}
    (h : op.decode j = some v) : op.nilTarget = false := by
  cases op with
  | addSSHKey | addDialer | addRule => cases h
  | _ => rfl

theorem preserved_silent {op : Operation} {v : op.Value} {err : Option Text} {j : Json}
    (ha : answer op v err = silent err j) (hd : op.decode j = some v) :
    Preserved op v err ↔ err = none ∨ v = op.zero := by
  have htarget := nilTarget_of_decode hd
  cases err with
  | none => simp [Preserved, ha, silent, unmarshal, htarget, hd]
  | some e => simp [Preserved, ha, silent, unmarshal, htarget, eq_comm]

/-- The operations without a value report an error whatever has happened. -/
theorem preserved_nil {op : Operation} {v : op.Value} {err : Option Text}
    (htarget : op.nilTarget = true) : Preserved op v err ↔ op.zero = v ∧ err ≠ none := by
  simp [Preserved, unmarshal, htarget]

theorem preserved_status {v : Status} {err : Option Text} :
    Preserved .status v err ↔ err = none := by
  simp [Preserved, answer, unmarshal, Operation.nilTarget, Operation.decode]

/-- Nobody is asked for the keys, and the answer is an error. -/
theorem equivalent_listKeys :
    Equivalent impl .listKeys s ↔ ∃ err, impl .listKeys s = (s, .returned [] (some err)) := by
  have hcall : clientCall impl .listKeys s =
      (s, [], some "invalid character 'p' after top-level value".toList) := by
    simp only [clientCall, serveRequest, route_listKeys, unmarshal, Operation.nilTarget,
      Bool.false_eq_true, if_false, Operation.zero]
  simp only [Equivalent, hcall, ne_eq, reduceCtorEq, not_false_eq_true, true_iff]
  rcases impl .listKeys s with ⟨s', r⟩
  constructor
  · rintro ⟨v, err, rfl, hs, rfl, herr⟩
    obtain ⟨e, rfl⟩ := Option.ne_none_iff_exists'.mp herr
    exact ⟨e, by rw [hs]⟩
  · rintro ⟨err, he⟩
    cases he
    exact ⟨[], some err, rfl, rfl, rfl, by simp⟩

end Tables

/-! ### The daemon -/

/-- `ServerConnector`; the connectors are numbered. -/
structure ServerConnector where
  sshConnector : ℕ
  messageCount : ℕ

/-- The state behind `Server`: `connectors` are those of the server by their id,
`sshConnector` the one of the `SSHDialer` and `sshConnectors` the `created` ones. -/
structure ServerState where
  dialers : Dialers.State
  globals : Proxies.Globals
  proxies : List Control.Proxy
  connectors : Text → Option ServerConnector
  sshConnector : Option ℕ
  created : ℕ
  sshConnectors : ℕ → Connector.State

/-- What the server finds outside: `loads` says whether the known hosts can be
loaded, `names` in which order the map of dialers is read, `keyType` and
`encodeKey` the texts of a public key. `attend` is what becomes of a connector
until a request has its answer (the steps of `SshTunnel.Connector.step`): the
error of `AcceptHostKey`, or the response and the new message count. -/
structure ServerEnv (Conn : Type) where
  dialers : Dialers.Env Conn
  proxies : Proxies.Env
  loads : Bool
  names : Dialers.State → List Text
  keyType : Connector.PublicKey → Text
  encodeKey : Connector.PublicKey → Text
  connector : Connector.Env
  randomHex : Except Text Text
  attend : Connector.State → ℕ → ConnectIn → Connector.State × Except Text (ConnectOut × ℕ)

def resultOf : Dialers.Outcome → Result Unit
  | .ok => .returned () none
  | .error err => .returned () (some err)
  | .panicked => .panicked

section Server

variable {Conn : Type} (env : ServerEnv Conn)

/-- A request that only concerns the tables of dialers and rules. -/
def ServerState.handle (s : ServerState) (request : Dialers.Request) :
    ServerState × Result Unit :=
  let (dialers, outcome) := s.dialers.handle env.dialers ⟨request, env.loads⟩
  ({ s with dialers := dialers }, resultOf outcome)

/-- `dialer.GetSSHKeys`, which reads the signers of a pointer that may be nil. -/
def ServerState.listKeys (s : ServerState) : ServerState × Result (List SSHKey) :=
  let dialers := s.dialers.makeSSHDialer env.loads
  ({ s with dialers := dialers },
    match dialers.sshDialer with
    | some d => .returned (d.signers.map fun key => ⟨env.keyType key, env.encodeKey key, [], []⟩)
        none
    | none => .panicked)

def ServerState.startProxy (s : ServerState) (proxyType proxyParameter : Text) :
    ServerState × Result Control.Proxy :=
  match Proxies.newProxy env.proxies s.globals proxyType proxyParameter with
  | .ok (globals, _, port) =>
    let proxyInfo : Control.Proxy := ⟨proxyType, port, proxyParameter⟩
    ({ s with globals := globals, proxies := s.proxies ++ [proxyInfo] }, .returned proxyInfo none)
  | .error err => (s, .returned ⟨[], 0, []⟩ (some err))

def noConnectorText (id : Text) : Text :=
  "there is no connector with id '".toList ++ id ++ "'".toList

/-- `SSHDialer.GetConnector(true)`. -/
def ServerState.getConnector (s : ServerState) : ServerState × ℕ :=
  match s.sshConnector with
  | some n =>
    let k := s.sshConnectors n
    ({ s with sshConnectors :=
        Function.update s.sshConnectors n { k with sh := { k.sh with interactive := true } } }, n)
  | none =>
    ({ s with
        sshConnector := some s.created
        created := s.created + 1
        sshConnectors :=
          Function.update s.sshConnectors s.created (Connector.init env.connector true) },
      s.created)

/-- The request at the connector of `c`, which has the id `id`. -/
def ServerState.attend (s : ServerState) (id : Text) (c : ServerConnector) (inp : ConnectIn) :
    ServerState × Result (Text × ConnectOut) :=
  match env.attend (s.sshConnectors c.sshConnector) c.messageCount inp with
  | (k, .error err) =>
    ({ s with sshConnectors := Function.update s.sshConnectors c.sshConnector k },
      .returned ([], ⟨.unset, [], []⟩) (some err))
  | (k, .ok (out, n)) =>
    ({ s with
        sshConnectors := Function.update s.sshConnectors c.sshConnector k
        connectors := Function.update s.connectors id (some ⟨c.sshConnector, n⟩) },
      .returned (id, out) none)

/-- `Server.Connect`; without an id it takes the connector of the `SSHDialer`,
through a pointer that may be nil. -/
def ServerState.connect (s : ServerState) (id : Text) (inp : ConnectIn) :
    ServerState × Result (Text × ConnectOut) :=
  if id ≠ [] then
    match s.connectors id with
    | none => (s, .returned ([], ⟨.unset, [], []⟩) (some (noConnectorText id)))
    | some c => s.attend env id c inp
  else
    let s' := { s with dialers := s.dialers.makeSSHDialer env.loads }
    if s'.dialers.sshDialer.isSome then
      let (s', n) := s'.getConnector env
      match env.randomHex with
      | .error err => (s', .returned ([], ⟨.unset, [], []⟩) (some err))
      | .ok newId =>
        { s' with connectors := Function.update s'.connectors newId (some ⟨n, 0⟩) }.attend env
          newId ⟨n, 0⟩ inp
    else (s', .panicked)

def ServerState.listDialers (s : ServerState) : List Control.Dialer :=
  (env.names s.dialers).filterMap fun name =>
    (s.dialers.dialers name).map fun info => ⟨info.name, info.type, info.destination⟩

def server : API ServerState
  | .addSSHKey key pass, s => s.handle env (.addSSHKey key pass)
  | .listKeys, s => s.listKeys env
  | .startProxy type params, s => s.startProxy env type params
  | .listProxies, s => (s, .returned s.proxies none)
  | .addDialer uri, s => s.handle env (.addDialer uri)
  | .listDialers, s => (s, .returned (s.listDialers env) none)
  | .connect id inp, s => s.connect env id inp
  | .listRules, s => (s, .returned (Rules.serverListRules s.dialers.rules) none)
  | .addRule rule, s => s.handle env (.addRule rule)
  | .status, s => (s, .returned ⟨true, s.proxies⟩ none)

/-- The calls that the REST layer carries: those with a value, as long as
`Connect` finds an `SSHDialer`, and of those without one the rejected ones. -/
def Carried (s : ServerState) : Operation → Prop
  | .addSSHKey key pass => ∃ err, env.dialers.parseEncryptedPrivateKey key pass = .error err
  | .addDialer uri => "socks5://".toList <+: uri ∧
      ∃ err, env.dialers.newSocks5Dialer (uri.drop 9) = .error err
  | .addRule rule => ∃ err, Rules.unMarshall rule = .error err
  | .listKeys => False
  | .connect id _ => id = [] → s.dialers.sshDialer.isSome = true ∨ env.loads = true
  | _ => True

/-! ### Which requests are rejected -/

theorem resultOf_rejected {outcome : Dialers.Outcome} :
    (∃ v err, resultOf outcome = .returned v err ∧ () = v ∧ err ≠ none) ↔
      ∃ err, outcome = .error err := by
  constructor
  · rintro ⟨v, err, hr, -, he⟩
    cases outcome with
    | ok =>
      cases hr
      exact absurd rfl he
    | error e => exact ⟨e, rfl⟩
    | panicked => cases hr
  · rintro ⟨err, rfl⟩
    exact ⟨(), some err, rfl, rfl, by simp⟩

theorem addSSHKey_rejected {s : Dialers.State} {key pass : Text} :
    (∃ err, (s.handle env.dialers ⟨.addSSHKey key pass, env.loads⟩).2 = .error err) ↔
      ∃ err, env.dialers.parseEncryptedPrivateKey key pass = .error err := by
  simp only [Dialers.State.handle, Dialers.addSSHKey]
  cases env.dialers.parseEncryptedPrivateKey key pass with
  | error err => simp
  | ok signer => cases (s.makeSSHDialer env.loads).sshDialer <;> simp

theorem addDialer_rejected {s : Dialers.State} {uri : Text} :
    (∃ err, (s.handle env.dialers ⟨.addDialer uri, env.loads⟩).2 = .error err) ↔
      "socks5://".toList <+: uri ∧
        ∃ err, env.dialers.newSocks5Dialer (uri.drop 9) = .error err := by
  simp only [Dialers.State.handle, Dialers.addDialer]
  split
  · rename_i hp
    cases env.dialers.newSocks5Dialer (uri.drop 9) with
    | error err => exact iff_of_true ⟨err, rfl⟩ ⟨hp, err, rfl⟩
    | ok u => simp
  · rename_i hp
    refine iff_of_false ?_ fun h => hp h.1
    split <;> simp

theorem addRule_rejected {s : Dialers.State} {rule : Control.Rule} :
    (∃ err, (s.handle env.dialers ⟨.addRule rule, env.loads⟩).2 = .error err) ↔
      ∃ err, Rules.unMarshall rule = .error err := by
  simp only [Dialers.State.handle, Rules.serverAddRule]
  cases Rules.unMarshall rule <;> simp

theorem equivalent_nil {op : Operation} {s : ServerState} (htarget : op.nilTarget = true) :
    Equivalent (server env) op s ↔
      ∃ v err, (server env op s).2 = .returned v err ∧ op.zero = v ∧ err ≠ none := by
  have hop : op ≠ .listKeys := by
    rintro rfl
    cases htarget
  rw [equivalent_of_route (server env) s hop]
  exact exists_congr fun v => exists_congr fun err =>
    and_congr_right fun _ => preserved_nil htarget

theorem equivalent_silent {op : Operation} {s : ServerState} (j : op.Value → Json)
    (hop : op ≠ .listKeys) (ha : ∀ v err, answer op v err = silent err (j v))
    (hd : ∀ v, op.decode (j v) = some v) :
    Equivalent (server env) op s ↔
      ∃ v err, (server env op s).2 = .returned v err ∧ (err = none ∨ v = op.zero) := by
  rw [equivalent_of_route (server env) s hop]
  exact exists_congr fun v => exists_congr fun err =>
    and_congr_right fun _ => preserved_silent (ha v err) (hd v)

theorem startProxy_returns (s : ServerState) (proxyType proxyParameter : Text) :
    ∃ v err, (s.startProxy env proxyType proxyParameter).2 = .returned v err ∧
      (err = none ∨ v = ⟨[], 0, []⟩) := by
  unfold ServerState.startProxy
  split
  · exact ⟨_, none, rfl, .inl rfl⟩
  · exact ⟨_, some _, rfl, .inr rfl⟩

theorem attend_returns (s : ServerState) (id : Text) (c : ServerConnector) (inp : ConnectIn) :
    ∃ v err, (s.attend env id c inp).2 = .returned v err ∧
      (err = none ∨ v = ([], ⟨.unset, [], []⟩)) := by
  unfold ServerState.attend
  split
  · exact ⟨_, some _, rfl, .inr rfl⟩
  · exact ⟨_, none, rfl, .inl rfl⟩

theorem makeSSHDialer_isSome (d : Dialers.State) (loads : Bool) :
    (d.makeSSHDialer loads).sshDialer.isSome = true ↔
      d.sshDialer.isSome = true ∨ loads = true := by
  unfold Dialers.State.makeSSHDialer
  split
  · rename_i hd
    simp [hd]
  · rename_i hd
    cases loads <;> dsimp only <;> split <;> simp [Dialers.State.register, hd]

/-- `Connect` returns unless it dereferences a nil `SSHDialer`; its errors come with
the zero value. -/
theorem connect_returns (s : ServerState) (id : Text) (inp : ConnectIn) :
    (∃ v err, (s.connect env id inp).2 = .returned v err ∧
      (err = none ∨ v = ([], ⟨.unset, [], []⟩))) ↔
      (id = [] → s.dialers.sshDialer.isSome = true ∨ env.loads = true) := by
  unfold ServerState.connect
  by_cases hid : id = []
  · rw [if_neg (not_not.mpr hid), ← makeSSHDialer_isSome]
    dsimp only
    split
    · rename_i hd
      refine iff_of_true ?_ fun _ => hd
      split
      · exact ⟨_, some _, rfl, .inr rfl⟩
      · exact attend_returns env _ _ _ inp
    · rename_i hd
      refine iff_of_false ?_ fun h => hd (h hid)
      rintro ⟨v, err, he, -⟩
      cases he
  · rw [if_pos hid]
    refine iff_of_true ?_ fun h => absurd h hid
    split
    · exact ⟨_, some _, rfl, .inr rfl⟩
    · exact attend_returns env s id _ inp

end Server

/-- A call through the client and the REST server is equivalent to the direct
call on the server exactly for the operations with a value, `ListKeys` excepted,
and for the rejected ones of the operations without a value. -/
theorem rest_equivalent_iff {Conn : Type} (env : ServerEnv Conn) (op : Operation)
    (s : ServerState) : Equivalent (server env) op s ↔ Carried env s op := by
  cases op with
  | addSSHKey key pass =>
    rw [equivalent_nil env rfl]
    exact resultOf_rejected.trans (addSSHKey_rejected env)
  | addDialer uri =>
    rw [equivalent_nil env rfl]
    exact resultOf_rejected.trans (addDialer_rejected env)
  | addRule rule =>
    rw [equivalent_nil env rfl]
    exact resultOf_rejected.trans (addRule_rejected env)
  | listKeys =>
    rw [equivalent_listKeys]
    refine iff_of_false ?_ id
    rintro ⟨err, he⟩
    simp only [server, ServerState.listKeys, Prod.mk.injEq] at he
    obtain ⟨-, he⟩ := he
    split at he
    · simp at he
    · cases he
  | startProxy type params =>
    rw [equivalent_silent env .proxy (by simp) (fun _ _ => rfl) fun _ => rfl]
    exact iff_of_true (startProxy_returns env s type params) trivial
  | listProxies =>
    rw [equivalent_silent env .proxies (by simp) (fun _ _ => rfl) fun _ => rfl]
    exact iff_of_true ⟨_, none, rfl, .inl rfl⟩ trivial
  | listDialers =>
    rw [equivalent_silent env .dialers (by simp) (fun _ _ => rfl) fun _ => rfl]
    exact iff_of_true ⟨_, none, rfl, .inl rfl⟩ trivial
  | connect id inp =>
    have hsilent : Equivalent (server env) (.connect id inp) s ↔ _ :=
      equivalent_silent env (fun v => .connectOut v.1 v.2) (by simp) (fun _ _ => rfl)
        fun _ => rfl
    exact hsilent.trans (connect_returns env s id inp)
  | listRules =>
    rw [equivalent_silent env .rules (by simp) (fun _ _ => rfl) fun _ => rfl]
    exact iff_of_true ⟨_, none, rfl, .inl rfl⟩ trivial
  | status =>
    rw [equivalent_of_route (server env) s (by simp)]
    exact iff_of_true ⟨_, none, rfl, preserved_status.mpr rfl⟩ trivial

section Example

/-- A daemon whose connectors answer nothing. -/
def sampleEnv : ServerEnv Unit where
  dialers := Dialers.sampleEnv
  proxies := Proxies.sampleEnv
  loads := true
  names := fun _ => [Dialers.default, Dialers.ssh]
  keyType := fun _ => "ssh-ed25519".toList
  encodeKey := fun _ => []
  connector := Connector.sampleEnv
  randomHex := .ok "00".toList
  attend := fun k n _ => (k, .ok (⟨k.sh.status, [], []⟩, n))

def sampleState : ServerState where
  dialers := Dialers.init
  globals := ⟨[], none⟩
  proxies := []
  connectors := fun _ => none
  sshConnector := none
  created := 0
  sshConnectors := fun _ => Connector.init Connector.sampleEnv false

/-- The client reports an error for a rule that the server has accepted. -/
theorem addRule_reports_error :
    ¬∀ (env : ServerEnv Unit) (op : Operation) (s : ServerState),
      Equivalent (server env) op s := by
  intro hall
  have h := hall sampleEnv (.addRule ⟨"10.0.0.0/8".toList, []⟩) sampleState
  rw [equivalent_nil sampleEnv rfl] at h
  obtain ⟨v, err, hr, -, herr⟩ := h
  have hok : (server sampleEnv (.addRule ⟨"10.0.0.0/8".toList, []⟩) sampleState).2 =
      .returned () none := rfl
  rw [hok] at hr
  cases hr
  exact herr rfl

end Example

end SshTunnel.Rest
