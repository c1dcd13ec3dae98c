import SshTunnel.Dialers

/-!
# The connections of the proxies (`proxy/*.go`)

What the daemon opens while a proxy serves one request, in order. The libraries
enter by what they call: the socks5 library by its calls of the resolver and of
`config.Dial`, the resolver by how often it dials for a name, and
`http.DefaultTransport` and `dns.Client` by the addresses that they dial
themselves.
-/

namespace SshTunnel.Proxies

open Lib.Net (Text IP ipText)

/-- The values of `dialer.Dialer` that a proxy can have. -/
inductive Dialer where
  | ruleSet
  | other (n : ℕ)
  deriving DecidableEq

inductive Opener where
  /-- A call of this value's `Dial`. -/
  | dialer (d : Dialer)
  /-- A connection that a library dials without a `Dialer`. -/
  | direct
  deriving DecidableEq

structure Opening where
  opener : Opener
  network : Text
  addr : Text
  deriving DecidableEq

/-- The package variables `dnsTarget` and `dnsDialer`. -/
structure Globals where
  dnsTarget : Text
  dnsDialer : Option Dialer

inductive Proxy where
  | transparent (dialer : Dialer)
  /-- `resolver` says whether the proxy is the resolver of its socks5 server. -/
  | socks5 (dialer : Dialer) (resolver : Bool)
  | http (dialer : Dialer)
  /-- `target` is that of the handler that serves its requests. -/
  | dns (dialer : Option Dialer) (target : Text)
  deriving DecidableEq

def Proxy.dialer : Proxy → Option Dialer
  | .transparent d | .socks5 d _ | .http d => some d
  | .dns d _ => d

structure HttpRequest where
  method : Text
  host : Text
  /-- `req.URL.Hostname()` and `req.URL.Port()`. -/
  hostname : Text
  port : Text
  deriving DecidableEq

/-- A call that the socks5 library makes for a request. -/
inductive SocksCall where
  | resolve (name : Text)
  | dial (network addr : Text)

inductive Request where
  /-- A redirected connection and its original destination, if that is known. -/
  | redirected (originalDst : Option Text)
  | socks5 (calls : List SocksCall)
  | http (req : HttpRequest)
  | dns (opcode : ℕ)

/-- `lookupIP` gives the number of times the resolver dials for a name and the
first address; `roundTrip` the addresses that the transport dials; `listen` the
port of a TCP listener for the parameters of a proxy. -/
structure Env where
  lookupIP : Text → ℕ × Option IP
  roundTrip : HttpRequest → List Text
  listen : Text → Except Text ℕ
  getFreeUDPPort : Except Text ℕ
  splitHostPort : Text → Except Text (Text × Text)

def tcp : Text := "tcp".toList
def opcodeQuery : ℕ := 0

section Serve

variable (env : Env)

def resolveDNS (g : Globals) (name : Text) : Globals × List Opening × Option IP :=
  let dialer := g.dnsDialer.getD .ruleSet
  let (dials, ip) := env.lookupIP name
  ({ g with dnsDialer := some dialer },
    List.replicate dials ⟨.dialer dialer, tcp, g.dnsTarget⟩, ip)

def handleTunneling (dialer : Dialer) (g : Globals) (req : HttpRequest) :
    Globals × List Opening :=
  match resolveDNS env g req.hostname with
  | (g', opened, some ip) =>
    (g', opened ++ [⟨.dialer dialer, tcp, ipText ip ++ ":".toList ++ req.port⟩])
  | (g', opened, none) => (g', opened)

def handleResolve (g : Globals) (req : HttpRequest) : Globals × List Opening :=
  let (g', opened, _) := resolveDNS env g req.host
  (g', opened)

def handleHTTP (req : HttpRequest) : List Opening :=
  (env.roundTrip req).map fun addr => ⟨.direct, tcp, addr⟩

def httpServe (dialer : Dialer) (g : Globals) (req : HttpRequest) : Globals × List Opening :=
  if req.method = "RESOLVE".toList then handleResolve env g req
  else if req.method = "CONNECT".toList then handleTunneling env dialer g req
  else (g, handleHTTP env req)

def handleConnection (dialer : Dialer) (originalDst : Option Text) : List Opening :=
  originalDst.toList.map fun remoteAddr => ⟨.dialer dialer, tcp, remoteAddr⟩

/-- Without a resolver of its own the socks5 server asks the system's. -/
def socks5Serve (dialer : Dialer) (resolver : Bool) :
    Globals → List SocksCall → Globals × List Opening
  | g, [] => (g, [])
  | g, .dial network addr :: calls =>
    let (g', opened) := socks5Serve dialer resolver g calls
    (g', ⟨.dialer dialer, network, addr⟩ :: opened)
  | g, .resolve name :: calls =>
    if resolver then
      let (g₁, opened, _) := resolveDNS env g name
      let (g₂, opened') := socks5Serve dialer resolver g₁ calls
      (g₂, opened ++ opened')
    else socks5Serve dialer resolver g calls

/-- The handler of `forwardDNS`. -/
def forwardDNS (targetAddr : Text) (opcode : ℕ) : List Opening :=
  if opcode = opcodeQuery then [⟨.direct, tcp, targetAddr⟩] else []

/-- A proxy reads requests of its own protocol only. -/
def serve (g : Globals) : Proxy → Request → Globals × List Opening
  | .transparent dialer, .redirected dst => (g, handleConnection dialer dst)
  | .socks5 dialer resolver, .socks5 calls => socks5Serve env dialer resolver g calls
  | .http dialer, .http req => httpServe env dialer g req
  | .dns _ target, .dns opcode => (g, forwardDNS target opcode)
  | _, _ => (g, [])

def makeTargetAddr (parameters : Text) : Except Text Text :=
  match env.splitHostPort parameters with
  | .ok (host, port) =>
    .ok ((if host = [] then "127.0.0.53".toList else host) ++ ":".toList ++
      if port = [] then "53".toList else port)
  | .error err => if parameters = [] then .ok "127.0.0.53:53".toList else .error err

def unknownProxyText (proxyType proxyParameters : Text) : Text :=
  "failed to create proxy with type '".toList ++ proxyType ++ "' and parameters '".toList ++
    proxyParameters ++ "'".toList

/-- `NewProxy` with the factories; the proxy comes with its port. -/
def newProxy (g : Globals) (proxyType parameters : Text) : Except Text (Globals × Proxy × ℕ) :=
  if proxyType = "transparent".toList then
    (env.listen parameters).map fun port => (g, .transparent .ruleSet, port)
  else if proxyType = "http".toList then
    (env.listen parameters).map fun port => (g, .http .ruleSet, port)
  else if proxyType = "socks5".toList then
    (env.listen parameters).map fun port => (g, .socks5 .ruleSet (g.dnsTarget ≠ []), port)
  else if proxyType = "dns".toList then
    env.getFreeUDPPort.bind fun port => (makeTargetAddr env parameters).map fun target =>
      ({ g with dnsTarget := target, dnsDialer := none }, .dns none target, port)
  else .error (unknownProxyText proxyType parameters)

end Serve

/-- The connection is opened by the Dialer of the proxy, or to the DNS target by
the one that resolves names. -/
def Opening.ByDialer (g : Globals) (p : Proxy) (o : Opening) : Prop :=
  (∃ d, p.dialer = some d ∧ o.opener = .dialer d) ∨
    o.opener = .dialer (g.dnsDialer.getD .ruleSet) ∧ o.addr = g.dnsTarget

/-- Who opens the connection in the end, if not a Dialer of another kind. -/
def Opening.via {Conn : Type} (env : Dialers.Env Conn) (s : Dialers.State) (o : Opening) :
    Option Dialers.Via :=
  match o.opener with
  | .direct => some .netDial
  | .dialer .ruleSet => some (s.via env o.network o.addr)
  | .dialer (.other _) => none

/-- An address that a rule covers is dialled past the rules. -/
def Opening.Bypasses {Conn : Type} (env : Dialers.Env Conn) (s : Dialers.State) (o : Opening) :
    Prop :=
  o.via env s = some .netDial ∧ s.matching env o.network o.addr ≠ none

/-- Every connection of the request is opened by a Dialer, and none bypasses the rules. -/
def Tunnelled {Conn : Type} (env : Env) (denv : Dialers.Env Conn) (g : Globals) (p : Proxy)
    (r : Request) : Prop :=
  ∀ o ∈ (serve env g p r).2, o.ByDialer g p ∧ ∀ s, ¬o.Bypasses denv s

/-- A plain http request that the transport dials for, or a DNS query. -/
def Leaks (env : Env) : Proxy → Request → Prop
  | .http _, .http req => req.method ≠ "RESOLVE".toList ∧ req.method ≠ "CONNECT".toList ∧
      env.roundTrip req ≠ []
  | .dns _ _, .dns opcode => opcode = opcodeQuery
  | _, _ => False

section Openings

variable {Conn : Type} {env : Env} {denv : Dialers.Env Conn} {g : Globals} {p : Proxy}
  {o : Opening}

theorem not_bypasses_of_dialer {d : Dialer} (h : o.opener = .dialer d) (s : Dialers.State) :
    ¬o.Bypasses denv s := by
  rintro ⟨hvia, hrule⟩
  cases d with
  | other n => simp [Opening.via, h] at hvia
  | ruleSet =>
    obtain ⟨r, hr⟩ := Option.ne_none_iff_exists'.mp hrule
    simp only [Opening.via, h, Option.some.injEq, Dialers.via_matching, hr] at hvia
    split at hvia <;> cases hvia

theorem Opening.ByDialer.not_bypasses (h : o.ByDialer g p) (s : Dialers.State) :
    ¬o.Bypasses denv s := by
  rcases h with ⟨d, -, hd⟩ | ⟨hd, -⟩ <;> exact not_bypasses_of_dialer hd s

theorem resolveDNS_byDialer (name : Text) (ho : o ∈ (resolveDNS env g name).2.1) :
    o.ByDialer g p := by
  obtain ⟨-, rfl⟩ := List.mem_replicate.mp ho
  exact .inr ⟨rfl, rfl⟩

theorem resolveDNS_globals (env : Env) (g : Globals) (name : Text) :
    (resolveDNS env g name).1.dnsDialer.getD .ruleSet = g.dnsDialer.getD .ruleSet ∧
      (resolveDNS env g name).1.dnsTarget = g.dnsTarget := ⟨rfl, rfl⟩

theorem socks5Serve_byDialer {d : Dialer} {resolver : Bool} {calls : List SocksCall}
    (ho : o ∈ (socks5Serve env d resolver g calls).2) : o.ByDialer g (.socks5 d resolver) := by
  induction calls generalizing g with
  | nil => cases ho
  | cons call calls ih =>
    cases call with
    | dial network addr =>
      rcases List.mem_cons.mp ho with rfl | ho
      · exact .inl ⟨d, rfl, rfl⟩
      · exact ih ho
    | resolve name =>
      simp only [socks5Serve] at ho
      split at ho
      · rcases List.mem_append.mp ho with ho | ho
        · exact resolveDNS_byDialer name ho
        · obtain ⟨hd, ht⟩ := resolveDNS_globals env g name
          simpa only [Opening.ByDialer, hd, ht] using ih ho
      · exact ih ho

theorem httpServe_byDialer {d : Dialer} {req : HttpRequest}
    (hreq : req.method = "RESOLVE".toList ∨ req.method = "CONNECT".toList)
    (ho : o ∈ (httpServe env d g req).2) : o.ByDialer g (.http d) := by
  unfold httpServe at ho
  split at ho
  · exact resolveDNS_byDialer req.host ho
  · rename_i hm
    rw [if_pos (hreq.resolve_left hm)] at ho
    unfold handleTunneling at ho
    split at ho
    · rename_i g' opened ip he
      rcases List.mem_append.mp ho with ho | ho
      · exact resolveDNS_byDialer req.hostname (by rw [he]; exact ho)
      · rw [List.mem_singleton] at ho
        subst ho
        exact .inl ⟨d, rfl, rfl⟩
    · rename_i g' opened he
      exact resolveDNS_byDialer req.hostname (by rw [he]; exact ho)

theorem serve_byDialer {r : Request} (h : ¬Leaks env p r) (ho : o ∈ (serve env g p r).2) :
    o.ByDialer g p := by
  cases p with
  | transparent d =>
    cases r with
    | redirected dst =>
      obtain ⟨addr, -, rfl⟩ := List.mem_map.mp ho
      exact .inl ⟨d, rfl, rfl⟩
    | _ => cases ho
  | socks5 d resolver =>
    cases r with
    | socks5 calls => exact socks5Serve_byDialer ho
    | _ => cases ho
  | http d =>
    cases r with
    | http req =>
      by_cases hreq : req.method = "RESOLVE".toList ∨ req.method = "CONNECT".toList
      · exact httpServe_byDialer hreq ho
      · rw [not_or] at hreq
        have hnone : env.roundTrip req = [] := by
          by_contra hne
          exact h ⟨hreq.1, hreq.2, hne⟩
        simp only [serve, httpServe, if_neg hreq.1, if_neg hreq.2, handleHTTP, hnone,
          List.map_nil] at ho
        cases ho
    | _ => cases ho
  | dns d target =>
    cases r with
    | dns opcode =>
      have hq : opcode ≠ opcodeQuery := h
      simp [serve, forwardDNS, hq] at ho
    | _ => cases ho

theorem leaks_direct {r : Request} (h : Leaks env p r) :
    ∃ o ∈ (serve env g p r).2, o.opener = .direct := by
  cases p with
  | http d =>
    cases r with
    | http req =>
      obtain ⟨hres, hcon, hne⟩ := h
      obtain ⟨addr, haddr⟩ := List.exists_mem_of_ne_nil _ hne
      refine ⟨⟨.direct, tcp, addr⟩, ?_, rfl⟩
      simp only [serve, httpServe, if_neg hres, if_neg hcon]
      exact List.mem_map.mpr ⟨addr, haddr, rfl⟩
    | _ => cases h
  | dns d target =>
    cases r with
    | dns opcode =>
      have hq : opcode = opcodeQuery := h
      exact ⟨⟨.direct, tcp, target⟩, by simp [serve, forwardDNS, hq], rfl⟩
    | _ => cases h
  | _ => cases r <;> cases h

end Openings

/-- Every connection of a request is opened by a Dialer, past no rule, exactly
when the request is neither a plain http request that the transport dials for
nor a DNS query. -/
theorem served_through_dialer_iff {Conn : Type} (env : Env) (denv : Dialers.Env Conn) (g : Globals)
    (p : Proxy) (r : Request) : Tunnelled env denv g p r ↔ ¬Leaks env p r := by
  constructor
  · intro h hleak
    obtain ⟨o, ho, hd⟩ := leaks_direct (g := g) hleak
    rcases (h o ho).1 with ⟨d, -, hd'⟩ | ⟨hd', -⟩ <;> rw [hd] at hd' <;> cases hd'
  · intro h o ho
    have hby := serve_byDialer h ho
    exact ⟨hby, hby.not_bypasses⟩

section Example

/-- The transport dials the host of an absolute url. -/
def sampleEnv : Env where
  lookupIP := fun _ => (0, none)
  roundTrip := fun req => if req.hostname = [] then [] else [req.hostname ++ ":80".toList]
  listen := fun _ => .ok 8080
  getFreeUDPPort := .ok 5353
  splitHostPort := fun _ => .error "missing port in address".toList

def plainGet : HttpRequest :=
  ⟨"GET".toList, "10.1.2.3".toList, "10.1.2.3".toList, []⟩

theorem plain_request_bypasses_rules :
    ¬∀ (env : Env) (denv : Dialers.Env Unit) (g : Globals) (p : Proxy) (r : Request),
      Tunnelled env denv g p r := by
  intro hall
  have h := hall sampleEnv Dialers.sampleEnv ⟨[], none⟩ (.http .ruleSet) (.http plainGet)
    ⟨.direct, tcp, "10.1.2.3:80".toList⟩ (by decide)
  rcases h.1 with ⟨d, -, hd⟩ | ⟨hd, -⟩ <;> cases hd

end Example

end SshTunnel.Proxies
