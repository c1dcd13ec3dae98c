import SshTunnel.Lib.Json
import SshTunnel.Rest

/-!
# The texts of the control API (`control/api.go`, `control/client.go`, `control/server.go`)

The JSON texts that travel between the client and the daemon, with the names of the
fields and what is omitted when it is empty. A slice that was never appended to is
nil and is written as `null`. The strings are valid UTF-8: of others `encoding/json`
writes U+FFFD for every byte that begins no character.
-/

namespace SshTunnel.Wire

open Lib.Net (Text decText)
open Lib.Json
open Control (SSHKey Status ConnectIn ConnectOut ConnectStatus)
open Rest

/-! ### Writing -/

def number (n : ℕ) : Value := .num ⟨decText n, validNumber_decText n⟩

/-- A field with `omitempty`. -/
def omitEmpty (name t : Text) : List (Text × Value) := if t = [] then [] else [(name, .str t)]

/-- A slice that is made by `append`. -/
def appended (xs : List Value) : Value := if xs = [] then .null else .arr xs

def encodeRule (r : Control.Rule) : Value :=
  .obj [("cidr".toList, .str r.cidr), ("dialer".toList, .str r.dialer)]

def encodeProxy (p : Control.Proxy) : Value :=
  .obj [("type".toList, .str p.proxyType), ("port".toList, number p.proxyPort),
    ("params".toList, .str p.proxyParameters)]

def encodeStatus (s : Status) : Value :=
  .obj [("healthy".toList, .bool s.healthy),
    ("proxies".toList, appended (s.proxies.map encodeProxy))]

def encodeSSHKey (k : SSHKey) : Value :=
  .obj ([("type".toList, .str k.type), ("public_key".toList, .str k.publicKey)] ++
    omitEmpty "private_key".toList k.privateKey ++ omitEmpty "passphrase".toList k.passphrase)

def encodeSSHTarget (uri : Text) : Value := .obj [("uri".toList, .str uri)]

def encodeDialer (d : Control.Dialer) : Value :=
  .obj [("name".toList, .str d.name), ("type".toList, .str d.type),
    ("destination".toList, .str d.destination)]

/-- A pointer with `omitempty` is omitted if it is nil, not if it points to false. -/
def encodeConnectIn (id : Text) (inp : ConnectIn) : Value :=
  .obj ([("id".toList, .str id), ("passphrase".toList, .str inp.passphrase)] ++
    (inp.acceptHostKey.map fun b => ("accept_host_key".toList, Value.bool b)).toList)

def encodeConnectOut (id : Text) (out : ConnectOut) : Value :=
  .obj ([("id".toList, .str id), ("status".toList, .str out.status.text),
    ("messages".toList, appended (out.messages.map Value.str))] ++
    omitEmpty "host_key_fingerprint".toList out.hostKeyFingerprint)

def encodePayload : Payload → Text
  | .empty => []
  | .sshKey key => render (encodeSSHKey key)
  | .proxy p => render (encodeProxy p)
  | .sshTarget uri => render (encodeSSHTarget uri)
  | .connectIn id inp => render (encodeConnectIn id inp)
  | .rule rule => render (encodeRule rule)

def encodeJson : Json → Value
  | .status v => encodeStatus v
  | .keys v => appended (v.map encodeSSHKey)
  | .proxies v => appended (v.map encodeProxy)
  | .proxy v => encodeProxy v
  | .dialers v => .arr (v.map encodeDialer)
  | .rules v => .arr (v.map encodeRule)
  | .connectOut id out => encodeConnectOut id out

def bodyText : Body → Text
  | .empty => []
  | .text t => t
  | .json j => render (encodeJson j)

/-! ### Reading -/

/-- The names of fields are compared without case; the Kelvin sign and the long s
are folded too. -/
def foldChar (c : Char) : Char :=
  if c.toNat = 0x212a then 'k' else if c.toNat = 0x17f then 's' else c.toLower

def foldName (t : Text) : Text := t.map foldChar

/-- A field of a structure, from the zero value on; a key may come more than once. -/
def field {α : Type} (step : α → Value → Option α) (zero : α) (name : Text)
    (fields : List (Text × Value)) : Option α :=
  (fields.filter fun f => foldName f.1 = foldName name).foldlM (fun a f => step a f.2) zero

def textStep (t : Text) : Value → Option Text
  | .null => some t
  | .str u => some u
  | _ => none

def boolStep (b : Bool) : Value → Option Bool
  | .null => some b
  | .bool c => some c
  | _ => none

/-- A pointer: `null` is nil. -/
def pointerStep (_ : Option Bool) : Value → Option (Option Bool)
  | .null => some none
  | .bool c => some (some c)
  | _ => none

/-- A whole number of 64 bits. -/
def natStep (n : ℕ) : Value → Option ℕ
  | .null => some n
  | .num m =>
    if m.text.all Char.isDigit ∧ Nat.ofDigitChars 10 m.text 0 < 2 ^ 63 then
      some (Nat.ofDigitChars 10 m.text 0)
    else none
  | _ => none

def listStep {α : Type} (decode : Value → Option α) (_ : List α) : Value → Option (List α)
  | .null => some []
  | .arr xs => xs.mapM decode
  | _ => none

def statuses : List ConnectStatus :=
  [.unset, .connecting, .handshake, .needPassphrase, .unknownHostKey, .succeeded, .failed]

def statusStep (s : ConnectStatus) : Value → Option ConnectStatus
  | .null => some s
  | .str t => statuses.find? fun s => s.text = t
  | _ => none

/-- The fields of an object; `null` changes nothing. -/
def object {α : Type} (zero : α) (decode : List (Text × Value) → Option α) : Value → Option α
  | .obj fields => decode fields
  | .null => some zero
  | _ => none

def decodeRule : Value → Option Control.Rule :=
  object ⟨[], []⟩ fun fs => do
    let cidr ← field textStep [] "cidr".toList fs
    let dialer ← field textStep [] "dialer".toList fs
    some ⟨cidr, dialer⟩

def decodeProxy : Value → Option Control.Proxy :=
  object ⟨[], 0, []⟩ fun fs => do
    let type ← field textStep [] "type".toList fs
    let port ← field natStep 0 "port".toList fs
    let params ← field textStep [] "params".toList fs
    some ⟨type, port, params⟩

def decodeStatus : Value → Option Status :=
  object ⟨false, []⟩ fun fs => do
    let healthy ← field boolStep false "healthy".toList fs
    let proxies ← field (listStep decodeProxy) [] "proxies".toList fs
    some ⟨healthy, proxies⟩

def decodeSSHKey : Value → Option SSHKey :=
  object ⟨[], [], [], []⟩ fun fs => do
    let type ← field textStep [] "type".toList fs
    let publicKey ← field textStep [] "public_key".toList fs
    let privateKey ← field textStep [] "private_key".toList fs
    let passphrase ← field textStep [] "passphrase".toList fs
    some ⟨type, publicKey, privateKey, passphrase⟩

def decodeSSHTarget : Value → Option Text := object [] (field textStep [] "uri".toList)

def decodeDialer : Value → Option Control.Dialer :=
  object ⟨[], [], []⟩ fun fs => do
    let name ← field textStep [] "name".toList fs
    let type ← field textStep [] "type".toList fs
    let destination ← field textStep [] "destination".toList fs
    some ⟨name, type, destination⟩

def decodeConnectIn : Value → Option (Text × ConnectIn) :=
  object ([], ⟨[], none⟩) fun fs => do
    let id ← field textStep [] "id".toList fs
    let passphrase ← field textStep [] "passphrase".toList fs
    let acceptHostKey ← field pointerStep none "accept_host_key".toList fs
    some (id, ⟨passphrase, acceptHostKey⟩)

def decodeConnectOut : Value → Option (Text × ConnectOut) :=
  object ([], ⟨.unset, [], []⟩) fun fs => do
    let id ← field textStep [] "id".toList fs
    let status ← field statusStep .unset "status".toList fs
    let messages ← field (listStep (textStep [])) [] "messages".toList fs
    let fingerprint ← field textStep [] "host_key_fingerprint".toList fs
    some (id, ⟨status, messages, fingerprint⟩)

/-- `json.Unmarshal` into the target of the stub. -/
def decodeValue : (op : Operation) → Value → Option op.Value
  | .addSSHKey .., _ | .addDialer _, _ | .addRule _, _ => none
  | .listKeys, v => listStep decodeSSHKey [] v
  | .startProxy .., v => decodeProxy v
  | .listProxies, v => listStep decodeProxy [] v
  | .listDialers, v => listStep decodeDialer [] v
  | .connect .., v => decodeConnectOut v
  | .listRules, v => listStep decodeRule [] v
  | .status, v => decodeStatus v

/-- `BindJSON` of the handlers that read a body. -/
def bindJSON (handler : Handler) (body : Text) : Option Payload :=
  match handler with
  | .postProxies => ((parse body).bind decodeProxy).map .proxy
  | .postKeys => ((parse body).bind decodeSSHKey).map .sshKey
  | .connect => ((parse body).bind decodeConnectIn).map fun c => .connectIn c.1 c.2
  | .postDialers => ((parse body).bind decodeSSHTarget).map .sshTarget
  | .postRules => ((parse body).bind decodeRule).map .rule
  | _ => some .empty

/-! ### A call -/

section Call

variable {σ : Type}

def serveText (impl : API σ) (s : σ) (method : Method) (path body : Text) : σ × Text :=
  match createGinEngine.find? fun r => r.method = method && r.path = path with
  | none => (s, "404 page not found".toList)
  | some r =>
    match (bindJSON r.handler body).bind r.handler.operation with
    | none => (s, [])
    | some op =>
      match impl op s with
      | (s', .returned v err) => (s', bodyText (answer op v err).body)
      | (s', .panicked) => (s', [])

/-- A call through the client; the last component says whether there is an error. -/
def callText (impl : API σ) (op : Operation) (s : σ) : σ × op.Value × Bool :=
  match serveText impl s op.stub.method op.stub.path (encodePayload op.stub.payload) with
  | (s', body) =>
    match (parse body).bind (decodeValue op) with
    | some v => (s', v, false)
    | none => (s', op.zero, true)

end Call

/-! ### What is written is read back -/

section RoundTrip

variable {α : Type} {decode : Value → Option α} {e : α → Value} {xs : List α}

theorem natStep_number {n : ℕ} (h : n < 2 ^ 63) (m : ℕ) : natStep m (number n) = some n := by
  have hdigits : (decText n).all Char.isDigit = true :=
    List.all_eq_true.mpr fun c hc => Lib.Net.decText_isDigit hc
  have hval : Nat.ofDigitChars 10 (decText n) 0 = n := Nat.ofDigitChars_ten_toDigits
  simp only [natStep, number, hdigits, hval]
  exact if_pos ⟨trivial, h⟩

theorem mapM_encode (h : ∀ x ∈ xs, decode (e x) = some x) :
    (xs.map e).mapM decode = some xs := by
  induction xs with
  | nil => rfl
  | cons x xs ih =>
    have hx := h x List.mem_cons_self
    have hxs := ih fun y hy => h y (List.mem_cons_of_mem x hy)
    rw [List.map_cons, List.mapM_cons, hx, hxs]
    rfl

theorem listStep_arr (h : ∀ x ∈ xs, decode (e x) = some x) (ys : List α) :
    listStep decode ys (.arr (xs.map e)) = some xs := mapM_encode h

theorem listStep_appended (h : ∀ x ∈ xs, decode (e x) = some x) (ys : List α) :
    listStep decode ys (appended (xs.map e)) = some xs := by
  unfold appended
  split
  · rename_i hnil
    rw [List.map_eq_nil_iff.mp hnil]
    rfl
  · exact mapM_encode h

theorem decodeRule_encode (r : Control.Rule) : decodeRule (encodeRule r) = some r := rfl

theorem decodeDialer_encode (d : Control.Dialer) : decodeDialer (encodeDialer d) = some d := rfl

theorem decodeSSHTarget_encode (uri : Text) : decodeSSHTarget (encodeSSHTarget uri) = some uri :=
  rfl

theorem decodeProxy_encode (p : Control.Proxy) (h : p.proxyPort < 2 ^ 63) :
    decodeProxy (encodeProxy p) = some p := by
  have hport : field natStep 0 "port".toList [("type".toList, .str p.proxyType),
      ("port".toList, number p.proxyPort), ("params".toList, .str p.proxyParameters)] =
        some p.proxyPort := by
    change (natStep 0 (number p.proxyPort)).bind _ = _
    rw [natStep_number h]
    rfl
  change (field natStep 0 "port".toList _).bind _ = _
  rw [hport]
  rfl

theorem decodeStatus_encode (s : Status) (h : ∀ p ∈ s.proxies, p.proxyPort < 2 ^ 63) :
    decodeStatus (encodeStatus s) = some s := by
  have hlist := listStep_appended (fun p hp => decodeProxy_encode p (h p hp)) []
  have hproxies : field (listStep decodeProxy) [] "proxies".toList
      [("healthy".toList, .bool s.healthy),
        ("proxies".toList, appended (s.proxies.map encodeProxy))] = some s.proxies := by
    change (listStep decodeProxy [] (appended (s.proxies.map encodeProxy))).bind _ = _
    rw [hlist]
    rfl
  change (field (listStep decodeProxy) [] "proxies".toList _).bind _ = _
  rw [hproxies]
  rfl

theorem decodeSSHKey_encode (k : SSHKey) : decodeSSHKey (encodeSSHKey k) = some k := by
  obtain ⟨type, publicKey, privateKey, passphrase⟩ := k
  cases privateKey with
  | nil => cases passphrase <;> rfl
  | cons c cs => cases passphrase <;> rfl

theorem decodeConnectIn_encode (id : Text) (inp : ConnectIn) :
    decodeConnectIn (encodeConnectIn id inp) = some (id, inp) := by
  obtain ⟨passphrase, acceptHostKey⟩ := inp
  cases acceptHostKey <;> rfl

theorem statusStep_text (s s' : ConnectStatus) : statusStep s (.str s'.text) = some s' := by
  cases s' <;> rfl

theorem mem_omitEmpty {name t : Text} {f : Text × Value} (h : f ∈ omitEmpty name t) :
    f.1 = name := by
  unfold omitEmpty at h
  split at h
  · cases h
  · rw [List.mem_singleton.mp h]

theorem decodeConnectOut_encode (id : Text) (out : ConnectOut) :
    decodeConnectOut (encodeConnectOut id out) = some (id, out) := by
  obtain ⟨status, messages, fingerprint⟩ := out
  have hlist : listStep (textStep []) [] (appended (messages.map Value.str)) = some messages :=
    listStep_appended (e := Value.str) (fun _ _ => rfl) []
  have hfields : ∀ rest, (∀ f ∈ rest, f.1 = "host_key_fingerprint".toList) →
      ∃ fs, fs = [("id".toList, .str id), ("status".toList, .str status.text),
        ("messages".toList, appended (messages.map Value.str))] ++ rest ∧
      field textStep [] "id".toList fs = some id ∧
      field statusStep .unset "status".toList fs = some status ∧
      field (listStep (textStep [])) [] "messages".toList fs = some messages := by
    intro rest hrest
    have hskip : ∀ name : Text, foldName "host_key_fingerprint".toList ≠ foldName name →
        (rest.filter fun f => foldName f.1 = foldName name) = [] := by
      intro name hname
      apply List.filter_eq_nil_iff.mpr
      intro f hf
      rw [hrest f hf]
      exact fun h => hname (of_decide_eq_true h)
    refine ⟨_, rfl, ?_, ?_, ?_⟩
    · rw [field, List.filter_append, hskip _ (by decide), List.append_nil]
      rfl
    · rw [field, List.filter_append, hskip _ (by decide), List.append_nil]
      change (statusStep .unset (.str status.text)).bind _ = _
      rw [statusStep_text]
      rfl
    · rw [field, List.filter_append, hskip _ (by decide), List.append_nil]
      change (listStep (textStep []) [] (appended (messages.map Value.str))).bind _ = _
      rw [hlist]
      rfl
  obtain ⟨fs, hfs, hid, hstatus, hmessages⟩ := hfields
    (omitEmpty "host_key_fingerprint".toList fingerprint) fun _ => mem_omitEmpty
  have hfingerprint : field textStep [] "host_key_fingerprint".toList fs = some fingerprint := by
    rw [hfs]
    cases fingerprint <;> rfl
  rw [encodeConnectOut, ← hfs]
  change (field textStep [] "id".toList fs).bind _ = _
  rw [hid]
  change (field statusStep .unset "status".toList fs).bind _ = _
  rw [hstatus]
  change (field (listStep (textStep [])) [] "messages".toList fs).bind _ = _
  rw [hmessages]
  change (field textStep [] "host_key_fingerprint".toList fs).bind _ = _
  rw [hfingerprint]
  rfl

end RoundTrip

/-! ### The texts carry the values -/

section Refinement

variable {σ : Type} {op : Operation}

/-- The ports in the value are an `int`. -/
def Ints : (op : Operation) → op.Value → Prop
  | .startProxy .., p => p.proxyPort < 2 ^ 63
  | .listProxies, ps => ∀ p ∈ ps, p.proxyPort < 2 ^ 63
  | .status, s => ∀ p ∈ s.proxies, p.proxyPort < 2 ^ 63
  | _, _ => True

theorem bindJSON_payload (h : op ≠ .listKeys) :
    bindJSON op.handler (encodePayload op.stub.payload) = some op.stub.payload := by
  cases op with
  | listKeys => exact absurd rfl h
  | addSSHKey key pass =>
    simp only [Operation.handler, Operation.stub, bindJSON, encodePayload, parse_render,
      Option.bind_some, decodeSSHKey_encode, Option.map_some]
  | startProxy type params =>
    have hport : (⟨type, 0, params⟩ : Control.Proxy).proxyPort < 2 ^ 63 := Nat.two_pow_pos 63
    simp only [Operation.handler, Operation.stub, bindJSON, encodePayload, parse_render,
      Option.bind_some, decodeProxy_encode _ hport, Option.map_some]
  | addDialer uri =>
    simp only [Operation.handler, Operation.stub, bindJSON, encodePayload, parse_render,
      Option.bind_some, decodeSSHTarget_encode, Option.map_some]
  | connect id inp =>
    simp only [Operation.handler, Operation.stub, bindJSON, encodePayload, parse_render,
      Option.bind_some, decodeConnectIn_encode, Option.map_some]
  | addRule rule =>
    simp only [Operation.handler, Operation.stub, bindJSON, encodePayload, parse_render,
      Option.bind_some, decodeRule_encode, Option.map_some]
  | _ => rfl

theorem decodeValue_json {v : op.Value} {j : Json} (hj : op.decode j = some v) (hv : Ints op v) :
    decodeValue op (encodeJson j) = some v := by
  cases op with
  | addSSHKey key pass => cases j <;> cases hj
  | addDialer uri => cases j <;> cases hj
  | addRule rule => cases j <;> cases hj
  | listKeys =>
    cases j <;> cases hj
    exact listStep_appended (fun k _ => decodeSSHKey_encode k) []
  | startProxy type params =>
    cases j <;> cases hj
    exact decodeProxy_encode v hv
  | listProxies =>
    cases j <;> cases hj
    exact listStep_appended (fun p hp => decodeProxy_encode p (hv p hp)) []
  | listDialers =>
    cases j <;> cases hj
    exact listStep_arr (fun d _ => decodeDialer_encode d) []
  | connect id inp =>
    cases j <;> cases hj
    exact decodeConnectOut_encode _ _
  | listRules =>
    cases j <;> cases hj
    exact listStep_arr (fun r _ => decodeRule_encode r) []
  | status =>
    cases j <;> cases hj
    exact decodeStatus_encode v hv

theorem unmarshal_empty (op : Operation) : ∃ err, unmarshal op .empty = .error err := by
  unfold unmarshal
  split
  · exact ⟨_, rfl⟩
  · exact ⟨_, rfl⟩

/-- An empty body and a json body are read as `json.Unmarshal` reads them. -/
theorem decode_body (op : Operation) {body : Body} {w : Option op.Value}
    (h : body = .empty ∧ w = none ∨ ∃ j v, body = .json j ∧ op.decode j = some v ∧ Ints op v ∧
      w = some v) :
    (parse (bodyText body)).bind (decodeValue op) = w ∧ (unmarshal op body).toOption = w := by
  rcases h with ⟨rfl, rfl⟩ | ⟨j, v, rfl, hj, hv, rfl⟩
  · obtain ⟨err, herr⟩ := unmarshal_empty op
    rw [herr]
    exact ⟨rfl, rfl⟩
  · rw [bodyText, parse_render, Option.bind_some, decodeValue_json hj hv]
    simp only [unmarshal, nilTarget_of_decode hj, Bool.false_eq_true, if_false, hj]
    exact ⟨trivial, rfl⟩

theorem decode_answer (v : op.Value) (err : Option Text) (hv : Ints op v) :
    (parse (bodyText (answer op v err).body)).bind (decodeValue op) =
      (unmarshal op (answer op v err).body).toOption := by
  have hshape : (answer op v err).body = .empty ∨
      ∃ j, (answer op v err).body = .json j ∧ op.decode j = some v := by
    cases op <;> cases err <;>
      first
        | exact .inl rfl
        | exact .inr ⟨_, rfl, rfl⟩
  rcases hshape with hempty | ⟨j, hjson, hj⟩
  · obtain ⟨hl, hr⟩ := decode_body op (.inl ⟨hempty, rfl⟩)
    rw [hl, hr]
  · obtain ⟨hl, hr⟩ := decode_body op (.inr ⟨j, v, hjson, hj, hv, rfl⟩)
    rw [hl, hr]

end Refinement

/-! ### Calls over the texts -/

section Calls

variable {σ : Type} (impl : API σ) (s : σ)

/-- The texts of a request reach the operation of the stub. -/
theorem serveText_stub {op : Operation} (hop : op ≠ .listKeys) :
    serveText impl s op.stub.method op.stub.path (encodePayload op.stub.payload) =
      match impl op s with
      | (s', .returned v err) => (s', bodyText (answer op v err).body)
      | (s', .panicked) => (s', []) := by
  rw [serveText, route_stub hop]
  simp only [bindJSON_payload hop, Option.bind_some, operation_stub hop]

theorem callText_listKeys : callText impl .listKeys s = (s, [], true) := by
  have hserve : serveText impl s Operation.listKeys.stub.method Operation.listKeys.stub.path
      (encodePayload Operation.listKeys.stub.payload) = (s, "404 page not found".toList) := by
    rw [serveText, route_listKeys]
  have hparse : parse "404 page not found".toList = none := by rfl
  rw [callText, hserve]
  dsimp only
  rw [hparse]
  rfl

theorem clientCall_listKeys : clientCall impl .listKeys s =
    (s, [], some "invalid character 'p' after top-level value".toList) := by
  simp only [clientCall, serveRequest, route_listKeys, unmarshal, Operation.nilTarget,
    Bool.false_eq_true, if_false, Operation.zero]

end Calls

/-- A call over the texts has the state and the value of the call over the values, and an
error with it. -/
theorem callText_refines {σ : Type} (impl : API σ) (op : Operation) (s : σ)
    (h : ∀ s' v err, impl op s = (s', .returned v err) → Ints op v) :
    callText impl op s = ((clientCall impl op s).1, (clientCall impl op s).2.1,
      (clientCall impl op s).2.2.isSome) := by
  by_cases hop : op = .listKeys
  · subst hop
    rw [callText_listKeys, clientCall_listKeys]
    rfl
  · rw [callText, serveText_stub impl s hop, clientCall, serveRequest_stub impl s hop]
    rcases himpl : impl op s with ⟨s', result⟩
    cases result with
    | panicked =>
      have hparse : parse [] = none := by rfl
      obtain ⟨err, herr⟩ := unmarshal_empty op
      simp only [hparse, Option.bind_none, herr, Option.isSome_some]
    | returned v err =>
      have hread := decode_answer v err (h s' v err himpl)
      dsimp only
      rw [hread]
      cases unmarshal op (answer op v err).body with
      | ok w => rfl
      | error e => rfl

/-! ### A session with the daemon -/

section Session

variable {Conn : Type}

/-- What the client gets from a call. -/
structure Reply where
  op : Operation
  value : op.Value
  failed : Bool

/-- The calls of a session, one after the other; each finds its own surroundings. -/
def session
    (call : ServerEnv Conn → (op : Operation) → ServerState → ServerState × op.Value × Bool) :
    List (ServerEnv Conn × Operation) → ServerState → ServerState × List Reply
  | [], s => (s, [])
  | (env, op) :: calls, s =>
    let (s', v, failed) := call env op s
    let (t, replies) := session call calls s'
    (t, ⟨op, v, failed⟩ :: replies)

def textCall (env : ServerEnv Conn) (op : Operation) (s : ServerState) :
    ServerState × op.Value × Bool :=
  callText (server env) op s

def valueCall (env : ServerEnv Conn) (op : Operation) (s : ServerState) :
    ServerState × op.Value × Bool :=
  ((clientCall (server env) op s).1, (clientCall (server env) op s).2.1,
    (clientCall (server env) op s).2.2.isSome)

/-- A port of a listener has 16 bits. -/
def PortsFit (env : Proxies.Env) : Prop :=
  (∀ parameters port, env.listen parameters = .ok port → port < 2 ^ 16) ∧
    ∀ port, env.getFreeUDPPort = .ok port → port < 2 ^ 16

/-- The ports of the proxies that the daemon lists. -/
def Listed (s : ServerState) : Prop := ∀ p ∈ s.proxies, p.proxyPort < 2 ^ 16

theorem newProxy_port {env : Proxies.Env} (henv : PortsFit env) {g g' : Proxies.Globals}
    {proxyType parameters : Text} {p : Proxies.Proxy} {port : ℕ}
    (h : Proxies.newProxy env g proxyType parameters = .ok (g', p, port)) : port < 2 ^ 16 := by
  have hlisten : ∀ make : ℕ → Proxies.Globals × Proxies.Proxy × ℕ, (∀ n, (make n).2.2 = n) →
      (env.listen parameters).map make = .ok (g', p, port) → port < 2 ^ 16 := by
    intro make hmake hmap
    cases hl : env.listen parameters with
    | error err =>
      rw [hl] at hmap
      cases hmap
    | ok n =>
      rw [hl] at hmap
      have hn : make n = (g', p, port) := by simpa [Except.map] using hmap
      have hport := hmake n
      rw [hn] at hport
      rw [show port = n from hport]
      exact henv.1 parameters n hl
  unfold Proxies.newProxy at h
  split at h
  · exact hlisten _ (fun _ => rfl) h
  split at h
  · exact hlisten _ (fun _ => rfl) h
  split at h
  · exact hlisten _ (fun _ => rfl) h
  split at h
  · cases hfree : env.getFreeUDPPort with
    | error err =>
      rw [hfree] at h
      cases h
    | ok n =>
      cases htarget : Proxies.makeTargetAddr env parameters with
      | error err =>
        rw [hfree, htarget] at h
        cases h
      | ok target =>
        rw [hfree, htarget] at h
        cases h
        exact henv.2 _ hfree
  · cases h

theorem attend_proxies (env : ServerEnv Conn) (s : ServerState) (id : Text) (c : ServerConnector)
    (inp : ConnectIn) : (s.attend env id c inp).1.proxies = s.proxies := by
  unfold ServerState.attend
  split <;> rfl

theorem getConnector_proxies (env : ServerEnv Conn) (s : ServerState) :
    (s.getConnector env).1.proxies = s.proxies := by
  unfold ServerState.getConnector
  split <;> rfl

theorem connect_proxies (env : ServerEnv Conn) (s : ServerState) (id : Text) (inp : ConnectIn) :
    (s.connect env id inp).1.proxies = s.proxies := by
  unfold ServerState.connect
  split
  · split
    · rfl
    · exact attend_proxies env s id _ inp
  · dsimp only
    split
    · have hget := getConnector_proxies env
        { s with dialers := s.dialers.makeSSHDialer env.loads }
      split
      · exact hget
      · rw [attend_proxies]
        exact hget
    · rfl

/-- Only `StartProxy` changes the list, by a proxy with the port of a listener. -/
theorem server_listed {env : ServerEnv Conn} (henv : PortsFit env.proxies) {s : ServerState}
    (hs : Listed s) (op : Operation) : Listed (server env op s).1 := by
  cases op with
  | startProxy type params =>
    change Listed (s.startProxy env type params).1
    unfold ServerState.startProxy
    split
    · rename_i globals p port hnew
      intro q hq
      rcases List.mem_append.mp hq with hq | hq
      · exact hs q hq
      · rw [List.mem_singleton.mp hq]
        exact newProxy_port henv hnew
    · exact hs
  | connect id inp =>
    intro p hp
    apply hs p
    rw [← connect_proxies env s id inp]
    exact hp
  | _ => exact hs

theorem server_ints {env : ServerEnv Conn} (henv : PortsFit env.proxies) {s s' : ServerState}
    (hs : Listed s) {op : Operation} {v : op.Value} {err : Option Text}
    (h : server env op s = (s', .returned v err)) : Ints op v := by
  have hfit : ∀ {n : ℕ}, n < 2 ^ 16 → n < 2 ^ 63 := by
    intro n hn
    omega
  cases op with
  | startProxy type params =>
    change s.startProxy env type params = _ at h
    unfold ServerState.startProxy at h
    split at h
    · rename_i globals p port hnew
      cases h
      exact hfit (newProxy_port henv hnew)
    · cases h
      exact Nat.two_pow_pos 63
  | listProxies =>
    cases h
    exact fun p hp => hfit (hs p hp)
  | status =>
    cases h
    exact fun p hp => hfit (hs p hp)
  | _ => trivial

theorem textCall_eq {env : ServerEnv Conn} (henv : PortsFit env.proxies) {s : ServerState}
    (hs : Listed s) (op : Operation) : textCall env op s = valueCall env op s :=
  callText_refines (server env) op s fun _ _ _ h => server_ints henv hs h

/-- The state after a call is that of the operation, or the one before. -/
theorem valueCall_listed {env : ServerEnv Conn} (henv : PortsFit env.proxies) {s : ServerState}
    (hs : Listed s) (op : Operation) : Listed (valueCall env op s).1 := by
  by_cases hop : op = .listKeys
  · subst hop
    change Listed (clientCall (server env) .listKeys s).1
    rw [clientCall_listKeys]
    exact hs
  · have hserver := server_listed henv hs op
    change Listed (clientCall (server env) op s).1
    rw [clientCall, serveRequest_stub (server env) s hop]
    rcases hr : server env op s with ⟨s', result⟩
    rw [hr] at hserver
    cases result with
    | panicked =>
      obtain ⟨err, herr⟩ := unmarshal_empty op
      simp only [herr]
      exact hserver
    | returned v err =>
      dsimp only
      cases unmarshal op (answer op v err).body with
      | ok w => exact hserver
      | error e => exact hserver

/-- In every session the texts carry what the calls over the values do: the state, the
values and which calls fail. -/
theorem session_texts {calls : List (ServerEnv Conn × Operation)}
    (henv : ∀ c ∈ calls, PortsFit c.1.proxies) {s : ServerState} (hs : Listed s) :
    session textCall calls s = session valueCall calls s := by
  induction calls generalizing s with
  | nil => rfl
  | cons c calls ih =>
    obtain ⟨env, op⟩ := c
    have hfit := henv (env, op) List.mem_cons_self
    have hcall := textCall_eq hfit hs op
    have hnext := ih (fun c hc => henv c (List.mem_cons_of_mem _ hc)) (valueCall_listed hfit hs op)
    simp only [session, hcall, hnext]

theorem sampleEnv_portsFit : PortsFit sampleEnv.proxies := by
  constructor
  · intro parameters port h
    cases h
    decide
  · intro port h
    cases h
    decide

theorem session_texts_sample :
    session textCall [(sampleEnv, .startProxy "http".toList []), (sampleEnv, .status)]
        sampleState =
      session valueCall [(sampleEnv, .startProxy "http".toList []), (sampleEnv, .status)]
        sampleState := by
  apply session_texts
  · intro c hc
    rcases List.mem_cons.mp hc with rfl | hc
    · exact sampleEnv_portsFit
    · rw [List.mem_singleton.mp hc]
      exact sampleEnv_portsFit
  · intro p hp
    cases hp

end Session

end SshTunnel.Wire
