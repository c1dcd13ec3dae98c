import SshTunnel.ClientHook.Request
import SshTunnel.Proxies.Serve

/-!
# `my_connect` (`client-hook/client-hook.cpp:283-305`, `proxy/httpproxy.go:82-115`)

The hooked `connect` asks the http proxy for a tunnel. It returns what `Request`
returns, which reads the answer of the proxy without looking at its status line.
-/

namespace SshTunnel.ClientHook

open Lib.Net (Text IP decText dottedText ipText)
open Lib.Lines
open Proxies (Env Globals HttpRequest resolveDNS)

/-! ### The proxy -/

def statusOK : ℕ := 200
def statusServiceUnavailable : ℕ := 503

def statusText (code : ℕ) : Text :=
  if code = statusOK then "OK".toList
  else if code = statusServiceUnavailable then "Service Unavailable".toList
  else []

def statusLine (code : ℕ) : Text := "HTTP/1.1 ".toList ++ decText code ++ ' ' :: statusText code

/-- The status code that `handleTunneling` answers with; `dial` says of an address
whether `proxy.Dialer.Dial` reaches it. -/
def tunnelingStatus (env : Env) (dial : Text → Bool) (g : Globals) (req : HttpRequest) : ℕ :=
  match (resolveDNS env g req.hostname).2.2 with
  | none => statusServiceUnavailable
  | some ip =>
    if dial (ipText ip ++ ":".toList ++ req.port) then statusOK else statusServiceUnavailable

/-! ### The hook -/

/-- What `my_connect` looks at: the fields of `addr` and `socket_get_type(fd)`. -/
structure ConnectCall where
  sa_family : ℕ
  sin_addr : IP
  sin_port : Fin 65536
  sockType : ℤ

def AF_INET : ℕ := 2
def SOCK_STREAM : ℤ := 1

def szHostPort (call : ConnectCall) : Text :=
  dottedText call.sin_addr ++ ":".toList ++ decText call.sin_port.val

inductive Rc where
  | returned (rc : ℤ)
  | blocked
  | undefined
  deriving DecidableEq

def Result.rc : Result → Rc
  | .returned rc _ => .returned rc
  | .blocked => .blocked
  | .undefined => .undefined

/-- `sys_connect` is the value that the system call returns. -/
def myConnect (active : Bool) (sys_connect : ℤ) (proxy : Text → Option Stream)
    (call : ConnectCall) : Rc :=
  if !active then .returned sys_connect
  else if call.sa_family ≠ AF_INET ∨ call.sockType ≠ SOCK_STREAM then .returned sys_connect
  else (request proxy "CONNECT".toList (szHostPort call) (szHostPort call)).rc

structure Hooked (active : Bool) (call : ConnectCall) : Prop where
  active : active = true
  family : call.sa_family = AF_INET
  stream : call.sockType = SOCK_STREAM

def tunnelAnswer (proxy : Text → Option Stream) (call : ConnectCall) : Option Stream :=
  proxy (requestText "CONNECT".toList (szHostPort call) (szHostPort call))

/-! ### What the proxy answers -/

def Read.byte? : Read → Option Char
  | .byte c => some c
  | .error => none

def Stream.text (stream : Stream) : Text := stream.reads.filterMap Read.byte?

/-- A status code of three digits, the first of them 2, at the end or before a blank. -/
def isSuccessCode : Text → Bool
  | c :: d :: e :: rest => c = '2' && d.isDigit && e.isDigit && rest.head?.all (· = ' ')
  | _ => false

def isSuccess (line : Text) : Bool :=
  "HTTP/".toList.isPrefixOf line && isSuccessCode ((line.dropWhile (· ≠ ' ')).drop 1)

/-- The first line of the answer is complete and is a 2xx status line. -/
def Stream.answers2xx (stream : Stream) : Bool :=
  (splitLines stream.text).1.head?.any fun line => isSuccess (dropCR line)

/-- The call returns, with 0 if and only if the proxy answered with a 2xx status
line, and with a negative value otherwise. -/
def Reports (rc : Rc) (answer : Option Stream) : Prop :=
  ∃ n, rc = .returned n ∧ (n = 0 ↔ answer.any Stream.answers2xx = true) ∧
    (answer.any Stream.answers2xx = false → n < 0)

section Connect

variable {active : Bool} {sys_connect : ℤ} {proxy : Text → Option Stream} {call : ConnectCall}
  {stream : Stream}

theorem myConnect_hooked (h : Hooked active call) :
    myConnect active sys_connect proxy call =
      (request proxy "CONNECT".toList (szHostPort call) (szHostPort call)).rc := by
  rw [myConnect, h.active, if_neg (by decide), if_neg]
  rintro (hf | hs)
  · exact hf h.family
  · exact hs h.stream

theorem myConnect_of_none (h : Hooked active call) (hp : tunnelAnswer proxy call = none) :
    myConnect active sys_connect proxy call = .returned (-1) := by
  rw [tunnelAnswer] at hp
  rw [myConnect_hooked h, request, hp]
  rfl

/-- Whatever the proxy answers, a call that returns has succeeded. -/
theorem myConnect_of_some (sys_connect : ℤ) (h : Hooked active call)
    (hp : tunnelAnswer proxy call = some stream) :
    stream.Finishes ∧ myConnect active sys_connect proxy call = .returned 0 ∨
      ¬stream.Finishes ∧ ∀ n, myConnect active sys_connect proxy call ≠ .returned n := by
  rw [tunnelAnswer] at hp
  rw [myConnect_hooked h, request, hp, ← cleared_loop_returns_iff]
  cases hl : cleared.loop stream.reads stream.ending with
  | returned h =>
    refine .inl ⟨⟨h, rfl⟩, ?_⟩
    simp only [hl]
    rfl
  | blocked =>
    refine .inr ⟨?_, ?_⟩
    · rintro ⟨h, hh⟩
      cases hh
    · intro n hn
      simp only [hl] at hn
      cases hn
  | undefined =>
    refine .inr ⟨?_, ?_⟩
    · rintro ⟨h, hh⟩
      cases hh
    · intro n hn
      simp only [hl] at hn
      cases hn

theorem reports_zero : Reports (.returned 0) (some stream) ↔ stream.answers2xx = true := by
  have hany : (some stream).any Stream.answers2xx = stream.answers2xx := rfl
  rw [Reports, hany]
  constructor
  · rintro ⟨n, hn, hiff, -⟩
    cases hn
    exact hiff.mp rfl
  · intro h2
    rw [h2]
    exact ⟨0, rfl, iff_of_true rfl rfl, fun hfalse => by cases hfalse⟩

theorem answers2xx_of_line {line rest : Text} (hn : '\n' ∉ line)
    (ht : stream.text = line ++ '\r' :: '\n' :: rest) : stream.answers2xx = isSuccess line := by
  have hcr : '\n' ∉ line ++ ['\r'] := by simpa using hn
  have happend : line ++ '\r' :: '\n' :: rest = (line ++ ['\r']) ++ '\n' :: rest := by simp
  obtain ⟨ls, hls⟩ := splitLines_newline_append (line ++ ['\r']) rest
  rw [Stream.answers2xx, ht, happend, hls, lastLine, splitLines_of_notMem hcr, List.nil_append,
    List.head?_cons, Option.any_some, dropCR, List.getLast?_concat, if_pos rfl,
    List.dropLast_concat]

section Tunneling

variable {env : Env} {dial : Text → Bool} {g : Globals} {req : HttpRequest}

theorem tunnelingStatus_cases (env : Env) (dial : Text → Bool) (g : Globals) (req : HttpRequest) :
    tunnelingStatus env dial g req = statusOK ∨
      tunnelingStatus env dial g req = statusServiceUnavailable := by
  unfold tunnelingStatus
  split
  · exact .inr rfl
  · split
    · exact .inl rfl
    · exact .inr rfl

theorem tunnelingStatus_ok :
    tunnelingStatus env dial g req = statusOK ↔
      ∃ ip, (resolveDNS env g req.hostname).2.2 = some ip ∧
        dial (ipText ip ++ ":".toList ++ req.port) = true := by
  rw [tunnelingStatus]
  cases (resolveDNS env g req.hostname).2.2 with
  | none => simp [statusOK, statusServiceUnavailable]
  | some ip =>
    cases hd : dial (ipText ip ++ ":".toList ++ req.port) with
    | false =>
      simp only [Option.some.injEq, exists_eq_left', hd]
      decide
    | true =>
      simp only [Option.some.injEq, exists_eq_left', hd]
      decide

/-- The answer of `handleTunneling` is a 2xx one for the tunnels that it establishes. -/
theorem answers2xx_tunneling {rest : Text}
    (ht : stream.text = statusLine (tunnelingStatus env dial g req) ++ '\r' :: '\n' :: rest) :
    stream.answers2xx = true ↔
      ∃ ip, (resolveDNS env g req.hostname).2.2 = some ip ∧
        dial (ipText ip ++ ":".toList ++ req.port) = true := by
  rw [← tunnelingStatus_ok]
  rcases tunnelingStatus_cases env dial g req with hs | hs
  · rw [hs] at ht ⊢
    rw [answers2xx_of_line (by decide) ht]
    decide
  · rw [hs] at ht ⊢
    rw [answers2xx_of_line (by decide) ht]
    decide

/-- Whatever becomes of the tunnel, `my_connect` returns 0 for the answer. -/
theorem myConnect_tunneling (sys_connect : ℤ) {rest : Text} (h : Hooked active call)
    (hp : tunnelAnswer proxy call = some stream) (hf : stream.Finishes)
    (ht : stream.text = statusLine (tunnelingStatus env dial g req) ++ '\r' :: '\n' :: rest) :
    myConnect active sys_connect proxy call = .returned 0 ∧
      (Reports (myConnect active sys_connect proxy call) (tunnelAnswer proxy call) ↔
        ∃ ip, (resolveDNS env g req.hostname).2.2 = some ip ∧
          dial (ipText ip ++ ":".toList ++ req.port) = true) := by
  rcases myConnect_of_some sys_connect h hp with ⟨-, hr⟩ | ⟨hn, -⟩
  · rw [hr, hp, reports_zero, answers2xx_tunneling ht]
    exact ⟨rfl, Iff.rfl⟩
  · exact absurd hf hn

end Tunneling

/-- `my_connect` reports what the proxy answered exactly if the proxy cannot be
reached or answers with a 2xx status line and the loop of `Request` ends. -/
theorem myConnect_reports_iff (h : Hooked active call) :
    Reports (myConnect active sys_connect proxy call) (tunnelAnswer proxy call) ↔
      ∀ stream, tunnelAnswer proxy call = some stream →
        stream.answers2xx = true ∧ stream.Finishes := by
  cases hp : tunnelAnswer proxy call with
  | none =>
    rw [myConnect_of_none h hp]
    refine iff_of_true ⟨-1, rfl, by decide, fun _ => by decide⟩ ?_
    intro stream hs
    cases hs
  | some stream =>
    rcases myConnect_of_some sys_connect h hp with ⟨hf, hr⟩ | ⟨hf, hr⟩
    · rw [hr, reports_zero]
      constructor
      · intro h2 stream' hs
        cases hs
        exact ⟨h2, hf⟩
      · intro hall
        exact (hall stream rfl).1
    · constructor
      · rintro ⟨n, hn, -⟩
        exact absurd hn (hr n)
      · intro hall
        exact absurd (hall stream rfl).2 hf

end Connect

def someCall : ConnectCall := ⟨AF_INET, [10, 1, 2, 3], 443, SOCK_STREAM⟩

def bytes (t : Text) : List Read := t.map .byte

/-- The proxy establishes the tunnel, and the connection stays open. -/
def established : Stream :=
  ⟨bytes (statusLine statusOK ++ "\r\nDate: Thu, 01 Jan 1970 00:00:00 GMT\r\n\r\n".toList),
    .silent⟩

theorem myConnect_reports_established :
    Reports (myConnect true 0 (fun _ => some established) someCall)
      (tunnelAnswer (fun _ => some established) someCall) :=
  (myConnect_reports_iff ⟨rfl, rfl, rfl⟩).mpr fun _ hs =>
    Option.some.inj hs ▸ ⟨by decide +kernel, by decide +kernel⟩

/-- The answer for a host that is not resolved. -/
def refused : Stream :=
  ⟨bytes (statusLine statusServiceUnavailable ++
    "\r\nContent-Type: text/plain\r\nContent-Length: 13\r\n\r\nno such host\n".toList), .eof⟩

def someRequest : HttpRequest :=
  ⟨"CONNECT".toList, szHostPort someCall, dottedText someCall.sin_addr, "443".toList⟩

theorem refused_tunnel_is_success :
    (∃ rest, refused.text =
      statusLine (tunnelingStatus Proxies.sampleEnv (fun _ => true) ⟨[], none⟩ someRequest) ++
        '\r' :: '\n' :: rest) ∧
    myConnect true 0 (fun _ => some refused) someCall = .returned 0 ∧
    ¬Reports (myConnect true 0 (fun _ => some refused) someCall)
      (tunnelAnswer (fun _ => some refused) someCall) := by
  obtain ⟨rest, ht⟩ : ∃ rest, refused.text =
      statusLine (tunnelingStatus Proxies.sampleEnv (fun _ => true) ⟨[], none⟩ someRequest) ++
        '\r' :: '\n' :: rest := ⟨_, rfl⟩
  have hp : tunnelAnswer (fun _ => some refused) someCall = some refused := rfl
  obtain ⟨hzero, hiff⟩ := myConnect_tunneling 0 ⟨rfl, rfl, rfl⟩ hp (by decide +kernel) ht
  refine ⟨⟨rest, ht⟩, hzero, ?_⟩
  rw [hiff]
  rintro ⟨ip, hip, -⟩
  cases hip

end SshTunnel.ClientHook
