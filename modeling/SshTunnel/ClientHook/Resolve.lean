import SshTunnel.ClientHook.Connect
import SshTunnel.ClientHook.Head
import SshTunnel.Lib.HttpRequest
import SshTunnel.Lib.NetText

/-!
# `my_getaddrinfo` (`client-hook/client-hook.cpp:235-281`, `proxy/httpproxy.go:129-134`)

The hooked `getaddrinfo` asks the http proxy for the address of a name. The proxy
writes the address into the header line `Host` of its answer, also when there is
none: the nil address has the text `<nil>`, which the hook takes for an address.
-/

namespace SshTunnel.ClientHook

open Lib.Net (Text IP ipText ipText_ne_nil)
open Lib.Lines
open Lib.HostPort (hostname port)
open Lib.Http (readRequest)
open Proxies (Env Globals HttpRequest resolveDNS)

/-! ### The answer of the proxy -/

def hostKey : Text := "Host".toList

/-- The value of the header line `Host` that `handleResolve` adds: `ip.String()`,
where `ip` is nil if there is an error. -/
def hostValue (ip : Option IP) : Text := ipText (ip.getD [])

/-- An answer with the status that `handleResolve` writes and its header line. -/
structure Response where
  before : List HeaderLine
  host : HeaderLine
  after : List HeaderLine
  host_key : host.key = hostKey
  before_key : ∀ line ∈ before, line.key ≠ hostKey

def Response.lines (r : Response) : List Text :=
  statusLine statusOK :: r.before.map HeaderLine.text ++ r.host.text :: r.after.map HeaderLine.text

def Response.text (r : Response) : Text :=
  (r.lines.flatMap fun l => l ++ "\r\n".toList) ++ "\r\n".toList

/-- The answer and the table of its lines fit into `HttpClient`. -/
def Response.Fits (r : Response) : Prop :=
  (stored r.text).length ≤ 1023 ∧ r.lines.length + 1 < 32

instance decidableFits (r : Response) : Decidable r.Fits := inferInstanceAs (Decidable (_ ∧ _))

/-- The request that the handler of the proxy gets for a text. -/
def servedRequest (t : Text) : Option HttpRequest :=
  (readRequest t).map fun r => ⟨r.method, r.host, hostname r.url.host, port r.url.host⟩

/-- The request of the hook for a name. -/
def resolveText (node : Text) : Text := requestText "RESOLVE".toList "*".toList node

inductive Resolution where
  | unreachable
  | refused
  | failed
  | resolved (ip : IP)
  deriving DecidableEq

def resolution : Option IP → Resolution
  | none => .failed
  | some ip => .resolved ip

/-- What comes back for a name: nothing, an answer without a `Host` where the server
cannot read the request, or the answer of `handleResolve` to the request that the
server makes of the text, with anything behind it. -/
inductive Answers (env : Env) (g : Globals) (node : Text) : Option Stream → Resolution → Prop
  | unreachable : Answers env g node none .unreachable
  | refused (head : Head) (rest : List Read) (ending : Ending)
      (served : servedRequest (resolveText node) = none) (host : head.lookup hostKey = .null)
      (fits : head.Fits) :
      Answers env g node (some ⟨head.text.map .byte ++ rest, ending⟩) .refused
  | handled (req : HttpRequest) (r : Response) (rest : List Read) (ending : Ending)
      (served : servedRequest (resolveText node) = some req)
      (host : r.host.value = hostValue (resolveDNS env g req.host).2.2) (fits : r.Fits) :
      Answers env g node (some ⟨r.text.map .byte ++ rest, ending⟩)
        (resolution (resolveDNS env g req.host).2.2)

/-! ### The hook -/

inductive Lookup where
  | calls (node : Text)
  | blocked
  | undefined
  deriving DecidableEq

def myGetaddrinfo (active : Bool) (proxy : Text → Option Stream) (node : Text) : Lookup :=
  if !active then .calls node
  else
    match request proxy "RESOLVE".toList "*".toList node with
    | .returned _ h =>
      match h.getHeader hostKey with
      | .null => .calls node
      | .text ip => .calls ip
      | .undefined => .undefined
    | .blocked => .blocked
    | .undefined => .undefined

def expectedNode (node : Text) : Resolution → Text
  | .resolved ip => ipText ip
  | _ => node

def resolveAnswer (proxy : Text → Option Stream) (node : Text) : Option Stream :=
  proxy (resolveText node)

/-! ### Reading the answer -/

section Response

variable {r : Response}

theorem Response.lines_plain (r : Response) : ∀ l ∈ r.lines, Plain l := by
  intro l hl
  rw [Response.lines, List.cons_append, List.mem_cons, List.mem_append, List.mem_cons,
    List.mem_map, List.mem_map] at hl
  rcases hl with rfl | ⟨line, -, rfl⟩ | rfl | ⟨line, -, rfl⟩
  · decide
  · exact line.text_plain
  · exact r.host.text_plain
  · exact line.text_plain

theorem Response.emptyKey_lines (r : Response) : ∀ l ∈ r.lines.drop 1, emptyKey l = false := by
  intro l hl
  rw [Response.lines, List.cons_append, List.drop_one, List.tail_cons, List.mem_append,
    List.mem_cons, List.mem_map, List.mem_map] at hl
  rcases hl with ⟨line, -, rfl⟩ | rfl | ⟨line, -, rfl⟩
  · exact line.emptyKey_text
  · exact r.host.emptyKey_text
  · exact line.emptyKey_text

theorem Response.map_stored (r : Response) : r.lines.map stored = r.lines := by
  rw [List.map_congr_left fun l hl => stored_plain (r.lines_plain l hl), List.map_id']

theorem Response.Fits.headFits (hfits : r.Fits) : HeadFits r.lines where
  status := List.cons_ne_nil _ _
  newline l hl h := (r.lines_plain l hl _ h).2.1 rfl
  nonempty := by
    rw [r.map_stored]
    exact r.emptyKey_lines
  length := hfits.1
  lines := hfits.2

theorem Response.loop (r : Response) (hfits : r.Fits) (rest : List Read) (ending : Ending) :
    cleared.loop (r.text.map .byte ++ rest) ending =
      .returned (ofLines (r.lines ++ [[]]) [] false) := by
  have hrun := hfits.headFits.run
  rw [r.map_stored, received_eq] at hrun
  rw [loop_append cleared_length, show r.text = headText r.lines from rfl, hrun]
  rfl

theorem Response.getHeader (r : Response) :
    (ofLines (r.lines ++ [[]]) [] false).getHeader hostKey =
      if r.host.value = [] then .null else .text r.host.value := by
  have hlines : r.lines ++ [[]] = (statusLine statusOK :: r.before.map HeaderLine.text) ++
      r.host.text :: (r.after.map HeaderLine.text ++ [[]]) := by
    rw [Response.lines, List.append_assoc]
    rfl
  rw [hlines, getHeader_ofLines (List.cons_ne_nil _ _), r.host.valueText_text]
  · intro m hm
    obtain ⟨line, hline, rfl⟩ := List.mem_map.mp hm
    rw [line.keyText_text]
    exact r.before_key line hline
  · rw [r.host.keyText_text, r.host_key]
  · exact List.mem_append_right _ List.mem_cons_self
  · rw [r.host.beforeColon_text, HeaderLine.text, List.length_append]
    simp

theorem hostValue_ne_nil {ip : Option IP}
    (hip : ∀ a, ip = some a → a.length = 4 ∨ a.length = 16) : hostValue ip ≠ [] := by
  cases ip with
  | none => decide
  | some a => exact ipText_ne_nil (hip a rfl)

end Response

section Lookup

variable {env : Env} {g : Globals} {proxy : Text → Option Stream} {node : Text} {res : Resolution}

theorem myGetaddrinfo_handled {r : Response} (hfits : r.Fits) (hne : r.host.value ≠ [])
    {rest : List Read} {ending : Ending}
    (hp : resolveAnswer proxy node = some ⟨r.text.map .byte ++ rest, ending⟩) :
    myGetaddrinfo true proxy node = .calls r.host.value := by
  rw [resolveAnswer, resolveText] at hp
  rw [myGetaddrinfo, if_neg (by decide), request, hp]
  simp only [r.loop hfits, r.getHeader, if_neg hne]

theorem myGetaddrinfo_refused {head : Head} (hfits : head.Fits)
    (hhost : head.lookup hostKey = .null) {rest : List Read} {ending : Ending}
    (hp : resolveAnswer proxy node = some ⟨head.text.map .byte ++ rest, ending⟩) :
    myGetaddrinfo true proxy node = .calls node := by
  rw [resolveAnswer, resolveText] at hp
  rw [myGetaddrinfo, if_neg (by decide), request, hp]
  simp only [head.loop hfits, head.getHeader (by decide : hostKey ≠ []), hhost]

theorem myGetaddrinfo_unreachable (hp : resolveAnswer proxy node = none) :
    myGetaddrinfo true proxy node = .calls node := by
  rw [resolveAnswer, resolveText] at hp
  rw [myGetaddrinfo, if_neg (by decide), request, hp]
  rfl

/-- `my_getaddrinfo` asks the system for the right name exactly if the resolution
does not fail, or the name asked for is the text of the nil address. -/
theorem myGetaddrinfo_iff (hlookup : ∀ name ip, (env.lookupIP name).2 = some ip →
      ip.length = 4 ∨ ip.length = 16)
    (h : Answers env g node (resolveAnswer proxy node) res) :
    myGetaddrinfo true proxy node = .calls (expectedNode node res) ↔
      (res = .failed → node = "<nil>".toList) := by
  generalize hp : resolveAnswer proxy node = answer at h
  cases h with
  | unreachable =>
    rw [myGetaddrinfo_unreachable hp]
    exact iff_of_true rfl fun hf => by cases hf
  | refused head rest ending served host fits =>
    rw [myGetaddrinfo_refused fits host hp]
    exact iff_of_true rfl fun hf => by cases hf
  | handled req r rest ending served host fits =>
    have hip : ∀ a, (resolveDNS env g req.host).2.2 = some a → a.length = 4 ∨ a.length = 16 :=
      hlookup req.host
    rw [myGetaddrinfo_handled fits (host ▸ hostValue_ne_nil hip) hp, host]
    cases hr : (resolveDNS env g req.host).2.2 with
    | none =>
      rw [Lookup.calls.injEq]
      exact ⟨fun he _ => he.symm, fun hn => (hn rfl).symm⟩
    | some ip => exact iff_of_true rfl fun hf => by cases hf

end Lookup

/-! ### Two answers -/

def answer (value : Text) (h : Plain value) : Response where
  before := []
  host := ⟨hostKey, value, by decide, by decide, by decide, h⟩
  after := [dateLine]
  host_key := rfl
  before_key := by decide

def answerStream (r : Response) : Stream := ⟨r.text.map .byte ++ [], .eof⟩

def oneName : Env := ⟨fun name => (1, if name = "db".toList then some [10, 1, 2, 3] else none),
  fun _ => [], fun _ => .ok 0, .ok 0, fun _ => .ok ([], [])⟩

theorem oneName_length (name : Text) (ip : IP) (h : (oneName.lookupIP name).2 = some ip) :
    ip.length = 4 ∨ ip.length = 16 := by
  simp only [oneName] at h
  split at h
  · cases h
    exact .inl rfl
  · cases h

def resolveRequest (name : Text) : HttpRequest := ⟨"RESOLVE".toList, name, [], []⟩

def found : Response := answer "10.1.2.3".toList (by decide)

theorem myGetaddrinfo_found :
    myGetaddrinfo true (fun _ => some (answerStream found)) "db".toList =
      .calls (expectedNode "db".toList (.resolved [10, 1, 2, 3])) :=
  (myGetaddrinfo_iff (g := ⟨[], none⟩) oneName_length
    (.handled (resolveRequest "db".toList) found [] .eof (by decide +kernel) (by decide)
      (by decide))).mpr fun h => by
      cases h

def notFound : Response := answer "<nil>".toList (by decide)

/-- For a name that the proxy does not resolve, the system is asked for `<nil>`. -/
theorem myGetaddrinfo_not_found :
    Answers oneName ⟨[], none⟩ "localhost".toList
      (resolveAnswer (fun _ => some (answerStream notFound)) "localhost".toList) .failed ∧
    myGetaddrinfo true (fun _ => some (answerStream notFound)) "localhost".toList =
      .calls "<nil>".toList ∧
    myGetaddrinfo true (fun _ => some (answerStream notFound)) "localhost".toList ≠
      .calls (expectedNode "localhost".toList .failed) :=
  ⟨.handled (resolveRequest "localhost".toList) notFound [] .eof (by decide +kernel) (by decide)
      (by decide), by decide +kernel, by decide +kernel⟩

end SshTunnel.ClientHook
