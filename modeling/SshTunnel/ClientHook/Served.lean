import SshTunnel.ClientHook.Resolve
import SshTunnel.HostPort
import Mathlib.Data.Nat.Digits.Defs

/-!
# A hooked connection (`client-hook/client-hook.cpp`, `proxy/httpproxy.go`,
`proxy/transparentproxy.go:49-66`)

The requests of the hook as the http proxy reads them, and what the daemon opens
for them, next to what it opens for a connection that is redirected to the
transparent proxy.
-/

namespace SshTunnel.ClientHook

open Lib.Net
open Lib.HostPort (Bare hostname port validOptionalPort splitURLHost stripBrackets cutLast)
open Lib.Http
open Proxies (Env Globals HttpRequest resolveDNS serve tcp)
open HostPort (recordIP recordPort remoteAddr)

def AF_INET6 : ℕ := 10

/-- The call of a program that connects to an address that it has looked up. -/
def connectCall (ip : IP) (port : Fin 65536) : ConnectCall :=
  match to4 ip with
  | some a => ⟨AF_INET, a, port, SOCK_STREAM⟩
  | none => ⟨AF_INET6, ip, port, SOCK_STREAM⟩

section Texts

variable {method target host name : Text} {ip : IP} {n : ℕ}

theorem requestText_plain
    (h : method.length + target.length + host.length + 23 ≤ 1023) :
    requestText method target host = plainText method target host := by
  have htext : method ++ " ".toList ++ target ++ " HTTP/1.1\r\nHost: ".toList ++ host ++
      "\r\n\r\n".toList = plainText method target host := by simp [plainText]
  rw [requestText, htext, List.take_of_length_le]
  simp only [plainText, List.length_append, List.length_cons]
  have h1 : " HTTP/1.1\r\nHost: ".toList.length = 17 := by decide
  have h2 : "\r\n\r\n".toList.length = 4 := by decide
  omega

theorem decText_length {n e : ℕ} (he : 0 < e) (h : n < 10 ^ e) : (decText n).length ≤ e :=
  Nat.toDigits_length 10 n e he h

theorem dottedText_length (h : ip.length = 4) : (dottedText ip).length ≤ 15 := by
  obtain ⟨a, b, c, d, rfl⟩ : ∃ a b c d, ip = [a, b, c, d] := by
    match ip, h with
    | [a, b, c, d], _ => exact ⟨a, b, c, d, rfl⟩
  have hbyte : ∀ b : Byte, (decText b.val).length ≤ 3 := fun b =>
    decText_length (by decide) (by omega)
  have ha := hbyte a
  have hb := hbyte b
  have hc := hbyte c
  have hd := hbyte d
  simp only [dottedText, List.map_cons, List.map_nil, List.intercalate_cons_cons,
    List.intercalate_singleton, List.length_append, List.length_singleton]
  omega

theorem digit_validHostChar {c : Char} (h : c.isDigit = true) : validHostChar c = true := by
  have halnum : c.isAlphanum = true := by simp [Char.isAlphanum, h]
  simp [validHostChar, halnum]

theorem mem_dottedText {c : Char} (h : c ∈ dottedText ip) : c = '.' ∨ c.isDigit = true := by
  by_contra hc
  obtain ⟨hdot, hdigit⟩ := not_or.mp hc
  refine notMem_intercalate hdot ?_ h
  intro t ht
  obtain ⟨b, -, rfl⟩ := List.mem_map.mp ht
  exact notMem_decText (by simpa using hdigit) b.val

/-- The host and the port that the hook asks for. -/
theorem mem_hostPort {c : Char} (h : c ∈ dottedText ip ++ ':' :: decText n) :
    c = '.' ∨ c = ':' ∨ c.isDigit = true := by
  rcases List.mem_append.mp h with h | h
  · rcases mem_dottedText h with hc | hc
    · exact .inl hc
    · exact .inr (.inr hc)
  · rcases List.mem_cons.mp h with hc | hc
    · exact .inr (.inl hc)
    · exact .inr (.inr (decText_isDigit hc))

theorem splitURLHost_bare (hhost : Bare host) (hdigits : ∀ c ∈ name, c.isDigit = true) :
    splitURLHost (host ++ ':' :: name) = (host, name) := by
  have hcolon : ':' ∉ name := (Lib.HostPort.digits_bare hdigits).1
  rw [splitURLHost, Lib.HostPort.cutLast_append hcolon]
  simp only [Lib.HostPort.validOptionalPort_iff.mpr hdigits, if_true,
    Lib.HostPort.stripBrackets_bare hhost]

theorem parseRest_authority {url : Lib.Url.URL} {user : Option Lib.Url.Userinfo} {t : Text}
    (hscheme : url.scheme ≠ []) (hslash : '/' ∉ t)
    (h : Lib.Url.parseAuthority url.scheme t = some (user, host)) :
    ∃ u, url.parseRest ("//".toList ++ t) = some u ∧ u.host = host := by
  have hall : ∀ c ∈ t, decide (c ≠ '/') = true := Lib.Url.forall_ne hslash
  have htake : ((("//".toList ++ t).drop 2).takeWhile (· ≠ '/')) = t :=
    List.takeWhile_eq_self_iff.mpr hall
  have hdrop : ((("//".toList ++ t).drop 2).dropWhile (· ≠ '/')) = [] :=
    List.dropWhile_eq_nil_iff.mpr hall
  have hhead : ("//".toList ++ t).head? = some '/' := rfl
  rw [Lib.Url.URL.parseRest, if_neg fun hn => hn.1 hhead, if_neg fun hn => hn.1 hhead,
    if_pos ⟨List.prefix_append _ _, .inl hscheme⟩, htake, hdrop]
  simp only [h, Option.bind_some]
  exact ⟨_, rfl, rfl⟩

/-- The target of the hook is an authority. -/
theorem requestURL_connect (hhost : Bare host) (hport : ∀ c ∈ name, c.isDigit = true)
    (hchars : ∀ c ∈ host ++ ':' :: name, c = '.' ∨ c = ':' ∨ c.isDigit = true) :
    ∃ url, requestURL connect (host ++ ':' :: name) = some url ∧
      url.host = host ++ ':' :: name := by
  generalize ht : host ++ ':' :: name = t at hchars
  have hnot : ∀ c : Char, c ≠ '.' → c ≠ ':' → c.isDigit = false → c ∉ t := by
    intro c h1 h2 h3 hc
    rcases hchars c hc with h | h | h
    · exact h1 h
    · exact h2 h
    · rw [h3] at h
      cases h
  have hclean : ∀ c ∈ t, Lib.Url.isCTL c = false ∧ c ≠ '%' ∧
      Lib.Url.refusedChar .host c = false := by
    intro c hc
    rcases hchars c hc with rfl | rfl | hdigit
    · decide
    · decide
    · have halnum : c.isAlphanum = true := by simp [Char.isAlphanum, hdigit]
      refine ⟨(Lib.Url.clean_alphanum halnum).1, ?_, by
        simp [Lib.Url.refusedChar, Lib.Url.shouldEscape, halnum]⟩
      rintro rfl
      cases hdigit
  have hparse : Lib.Url.parseHost "http".toList t = some t := by
    have hbracket := hnot '[' (by decide) (by decide) (by decide)
    rw [Lib.Url.parseHost, Lib.HostPort.cutLast_none.mpr hbracket]
    have hcolon : Lib.Url.portText "http".toList t = ':' :: name := by
      rw [Lib.Url.portText, if_pos (.inl rfl), ← ht, Lib.Url.fromColon_append hhost.1,
        Lib.Url.fromColon_colon]
    simp only [hcolon, Lib.HostPort.validOptionalPort_iff.mpr hport, if_true]
    exact Lib.Url.unescape_id fun c hc => (hclean c hc).2
  have hctl : ("http://".toList ++ t).any Lib.Url.isCTL = false := by
    rw [List.any_append, Bool.or_eq_false_iff]
    refine ⟨by decide, ?_⟩
    apply List.any_eq_false.mpr
    intro c hc
    simp [(hclean c hc).1]
  have hscheme : Lib.Url.getScheme ("http://".toList ++ t) =
      some ("http".toList, "//".toList ++ t) := by
    have hhttp : Lib.Url.IsScheme "http".toList := by
      refine ⟨⟨'h', "ttp".toList, rfl, by decide⟩, ?_⟩
      change ∀ c ∈ ['h', 't', 't', 'p'], Lib.Url.isSchemeChar c = true ∧ c.toLower = c
      simp only [List.forall_mem_cons]
      exact ⟨by decide, by decide, by decide, by decide, fun c hc => absurd hc List.not_mem_nil⟩
    exact Lib.Url.getScheme_append hhttp ("//".toList ++ t)
  have hquery : Lib.Url.cut '?' ("//".toList ++ t) = ("//".toList ++ t, []) := by
    apply Lib.Url.cut_of_notMem
    have hq := hnot '?' (by decide) (by decide) (by decide)
    simp [hq]
  have hauthority : Lib.Url.parseAuthority "http".toList t = some (none, t) := by
    rw [Lib.Url.parseAuthority,
      Lib.HostPort.cutLast_none.mpr (hnot '@' (by decide) (by decide) (by decide)), hparse]
    rfl
  have hmain : ∃ url, Lib.Url.parseMain ("http://".toList ++ t) = some url ∧ url.host = t := by
    rw [Lib.Url.parseMain, hctl, if_neg Bool.false_ne_true, if_neg (by simp), hscheme]
    simp only [Option.bind_some, hquery]
    have hslash := hnot '/' (by decide) (by decide) (by decide)
    exact parseRest_authority (List.cons_ne_nil _ _) hslash hauthority
  obtain ⟨url, hmain, hurl⟩ := hmain
  have huri : parseRequestURI ("http://".toList ++ t) = some url := by
    rw [parseRequestURI, hctl, if_neg Bool.false_ne_true, if_neg (by simp), if_neg (by simp),
      hscheme]
    exact hmain
  have hhead : t.head? ≠ some '/' := fun hh =>
    hnot '/' (by decide) (by decide) (by decide) (List.mem_of_head? hh)
  refine ⟨{ url with scheme := [] }, ?_, hurl⟩
  rw [requestURL, if_pos ⟨rfl, hhead⟩, huri, Option.map_some]

end Texts

section Requests

variable {call : ConnectCall} {name : Text}

theorem szHostPort_eq (call : ConnectCall) :
    szHostPort call = dottedText call.sin_addr ++ ':' :: decText call.sin_port.val := by
  rw [szHostPort, List.append_assoc]
  rfl

/-- The proxy gets the request that the hooked `connect` writes. -/
theorem served_connect (h4 : call.sin_addr.length = 4) :
    servedRequest (requestText connect (szHostPort call) (szHostPort call)) =
      some ⟨connect, szHostPort call, dottedText call.sin_addr, decText call.sin_port.val⟩ := by
  have hport := call.sin_port.isLt
  have hlen : (szHostPort call).length ≤ 21 := by
    have hhost := dottedText_length h4
    have hdec := decText_length (n := call.sin_port.val) (e := 5) (by decide) (by omega)
    rw [szHostPort_eq, List.length_append, List.length_cons]
    omega
  have hchars : ∀ c ∈ szHostPort call, c = '.' ∨ c = ':' ∨ c.isDigit = true := by
    intro c hc
    rw [szHostPort_eq] at hc
    exact mem_hostPort hc
  have hvalid : (szHostPort call).all validHostChar = true := by
    apply List.all_eq_true.mpr
    intro c hc
    rcases hchars c hc with rfl | rfl | hdigit
    · decide
    · decide
    · exact digit_validHostChar hdigit
  have hnot : ∀ c : Char, c ≠ '.' → c ≠ ':' → c.isDigit = false → c ∉ szHostPort call := by
    intro c h1 h2 h3 hc
    rcases hchars c hc with h | h | h
    · exact h1 h
    · exact h2 h
    · rw [h3] at h
      cases h
  have hport : ∀ c ∈ decText call.sin_port.val, c.isDigit = true := fun _ => decText_isDigit
  obtain ⟨url, hurl, hhost⟩ := requestURL_connect (HostPort.dottedText_bare call.sin_addr) hport
    fun _ => mem_hostPort
  rw [← szHostPort_eq] at hurl hhost
  have htext : requestText connect (szHostPort call) (szHostPort call) =
      plainText connect (szHostPort call) (szHostPort call) := by
    apply requestText_plain
    have hconnect : connect.length = 7 := by decide
    omega
  have htoken : isToken connect = true := by decide
  have hread := readRequest_plainText htoken
    ⟨hnot ' ' (by decide) (by decide) (by decide), hnot '\n' (by decide) (by decide) (by decide)⟩
    hurl hvalid
  have hsplit : splitURLHost url.host = (dottedText call.sin_addr, decText call.sin_port.val) := by
    rw [hhost, szHostPort_eq]
    exact splitURLHost_bare (HostPort.dottedText_bare _) fun _ => decText_isDigit
  rw [servedRequest, htext, hread, Option.map_some, hostname, port, hsplit]
  simp only [hhost, ite_self]

/-- The proxy gets the request that the hooked `getaddrinfo` writes for a name. -/
theorem served_resolve (hname : name.all validHostChar = true) (hlen : name.length ≤ 992) :
    servedRequest (requestText "RESOLVE".toList "*".toList name) =
      some ⟨"RESOLVE".toList, name, [], []⟩ := by
  have htext : requestText "RESOLVE".toList "*".toList name =
      plainText "RESOLVE".toList "*".toList name := by
    apply requestText_plain
    have hmethod : "RESOLVE".toList.length = 7 := by decide
    have htarget : "*".toList.length = 1 := by decide
    omega
  have hurl : requestURL "RESOLVE".toList "*".toList =
      some { Lib.Url.emptyURL with path := ['*'] } := by decide
  have htoken : isToken "RESOLVE".toList = true := by decide
  have hread := readRequest_plainText htoken (by decide) hurl hname
  rw [servedRequest, htext, hread]
  rfl

end Requests

/-! ### What the daemon opens -/

section Openings

variable {env : Env} {g : Globals} {ip : IP} {sinPort : Fin 65536}

theorem connectCall_four {a : IP} (h : to4 ip = some a) :
    connectCall ip sinPort = ⟨AF_INET, a, sinPort, SOCK_STREAM⟩ := by
  simp only [connectCall, h]

theorem to4_mapped {a : IP} (h4 : a.length = 4) : to4 (v4InV6Prefix ++ a) = some a := by
  have h12 : v4InV6Prefix.length = 12 := rfl
  simp [to4, h4, h12]

/-- A literal is not looked up, so the proxy dials the address that it was asked for. -/
theorem serve_connect {call : ConnectCall} (h4 : call.sin_addr.length = 4)
    (hliteral : env.lookupIP (dottedText call.sin_addr) =
      (0, some (v4InV6Prefix ++ call.sin_addr))) (g : Globals) :
    (serve env g (.http .ruleSet) (.http ⟨connect, szHostPort call, dottedText call.sin_addr,
      decText call.sin_port.val⟩)).2 = [⟨.dialer .ruleSet, tcp, szHostPort call⟩] := by
  have haddr : ipText (v4InV6Prefix ++ call.sin_addr) = dottedText call.sin_addr := by
    simp only [ipText, to4_mapped h4]
  have hresolve : connect ≠ "RESOLVE".toList := by decide
  have hconnect : connect = "CONNECT".toList := rfl
  rw [serve, Proxies.httpServe, if_neg hresolve, if_pos hconnect, Proxies.handleTunneling]
  simp only [resolveDNS, hliteral, List.replicate_zero, List.nil_append, haddr]
  rfl

theorem serve_resolve (name : Text) :
    (serve env g (.http .ruleSet) (.http ⟨"RESOLVE".toList, name, [], []⟩)).2 =
      List.replicate (env.lookupIP name).1
        ⟨.dialer (g.dnsDialer.getD .ruleSet), tcp, g.dnsTarget⟩ := by
  have hmethod : (⟨"RESOLVE".toList, name, [], []⟩ : HttpRequest).method = "RESOLVE".toList := rfl
  rw [serve, Proxies.httpServe, if_pos hmethod]
  rfl

/-- A redirected connection to the same address. -/
theorem serve_redirected {call : ConnectCall} {multiaddr : Fin 16 → Byte}
    (hip : recordIP multiaddr = call.sin_addr) (hport : recordPort multiaddr = call.sin_port.val) :
    (serve env g (.transparent .ruleSet) (.redirected (some (remoteAddr multiaddr)))).2 =
      [⟨.dialer .ruleSet, tcp, szHostPort call⟩] := by
  have haddr : remoteAddr multiaddr = szHostPort call := by
    rw [remoteAddr, HostPort.getOriginalDst_text, HostPort.getOriginalDst_port, hip, hport,
      szHostPort]
  rw [haddr]
  rfl

end Openings

/-- A hooked program that looks up a name and connects to the address that it gets:
the proxy reads both requests, the name is looked up by the DNS server of the
daemon, and the connection is opened by the rules, as if it had been redirected to
the transparent proxy. An IPv6 address is connected to without the daemon. -/
theorem hooked_session (env : Env) (g : Globals) (name : Text) (n : ℕ) (ip : IP)
    (sinPort : Fin 65536) (hname : name.all validHostChar = true) (hlen : name.length ≤ 992)
    (hlookup : env.lookupIP name = (n, some ip)) (hip : ip.length = 4 ∨ ip.length = 16)
    (hliteral : ∀ a : IP, a.length = 4 →
      env.lookupIP (dottedText a) = (0, some (v4InV6Prefix ++ a))) :
    ∃ lookup, servedRequest (requestText "RESOLVE".toList "*".toList name) = some lookup ∧
      (serve env g (.http .ruleSet) (.http lookup)).2 =
        List.replicate n ⟨.dialer (g.dnsDialer.getD .ruleSet), tcp, g.dnsTarget⟩ ∧
      (∀ proxy (r : Response) rest ending,
        resolveAnswer proxy name = some ⟨r.text.map .byte ++ rest, ending⟩ → r.Fits →
        r.host.value = hostValue (resolveDNS env g lookup.host).2.2 →
        myGetaddrinfo true proxy name = .calls (ipText ip)) ∧
      (to4 ip = none → ∀ rc proxy,
        myConnect true rc proxy (connectCall ip sinPort) = .returned rc) ∧
      (to4 ip ≠ none → ∃ tunnel,
        servedRequest (requestText connect (szHostPort (connectCall ip sinPort))
          (szHostPort (connectCall ip sinPort))) = some tunnel ∧
        ∀ g', (serve env g' (.http .ruleSet) (.http tunnel)).2 =
            [⟨.dialer .ruleSet, tcp, ipText ip ++ ':' :: decText sinPort.val⟩] ∧
          ∀ multiaddr, recordIP multiaddr = (connectCall ip sinPort).sin_addr →
            recordPort multiaddr = sinPort.val →
            (serve env g' (.transparent .ruleSet) (.redirected (some (remoteAddr multiaddr)))).2 =
              (serve env g' (.http .ruleSet) (.http tunnel)).2) := by
  refine ⟨_, served_resolve hname hlen, ?_, ?_, ?_, ?_⟩
  · rw [serve_resolve, hlookup]
  · intro proxy r rest ending hanswer hfits hvalue
    have hres : (resolveDNS env g name).2.2 = some ip := by simp only [resolveDNS, hlookup]
    have htext : r.host.value = ipText ip := by rw [hvalue, hres]; rfl
    rw [myGetaddrinfo_handled hfits (by rw [htext]; exact ipText_ne_nil hip) hanswer, htext]
  · intro h4 rc proxy
    have hcall : connectCall ip sinPort = ⟨AF_INET6, ip, sinPort, SOCK_STREAM⟩ := by
      simp only [connectCall, h4]
    rw [hcall]
    rfl
  · intro h4
    obtain ⟨a, ha⟩ := Option.ne_none_iff_exists'.mp h4
    have hcall : connectCall ip sinPort = ⟨AF_INET, a, sinPort, SOCK_STREAM⟩ := connectCall_four ha
    have hlen4 : (connectCall ip sinPort).sin_addr.length = 4 := by
      rw [hcall]
      exact to4_length ha
    have haddr : szHostPort (connectCall ip sinPort) = ipText ip ++ ':' :: decText sinPort.val := by
      rw [szHostPort_eq, hcall]
      simp only [ipText, ha]
    refine ⟨_, served_connect hlen4, ?_⟩
    intro g'
    have hserve := serve_connect hlen4 (hliteral _ hlen4) g'
    refine ⟨by rw [hserve, haddr], ?_⟩
    intro multiaddr hrecord hport
    rw [hserve]
    apply serve_redirected hrecord
    rw [hport, hcall]

/-- The resolver of a daemon whose DNS server knows one name. -/
def oneNameLookup (name : Text) : ℕ × Option IP :=
  match parseAddr name with
  | some addr => (0, some (v4InV6Prefix ++ addr.bytes))
  | none => (1, if name = "db".toList then some [10, 1, 2, 3] else none)

theorem hooked_session_db :
    ∃ tunnel, servedRequest (requestText connect "10.1.2.3:5432".toList "10.1.2.3:5432".toList) =
        some tunnel ∧
      ∀ g', (serve { oneName with lookupIP := oneNameLookup } g' (.http .ruleSet)
        (.http tunnel)).2 = [⟨.dialer .ruleSet, tcp, "10.1.2.3:5432".toList⟩] := by
  obtain ⟨-, -, -, -, -, htunnel⟩ := hooked_session { oneName with lookupIP := oneNameLookup }
    ⟨"10.0.0.53:53".toList, none⟩ "db".toList 1 [10, 1, 2, 3] 5432 (by decide) (by decide)
    (by decide) (.inl rfl) fun a ha => by
      change oneNameLookup (dottedText a) = _
      rw [oneNameLookup, parseAddr_dottedText a ha]
  obtain ⟨tunnel, hread, hserve⟩ := htunnel (by decide)
  exact ⟨tunnel, hread, fun g' => (hserve g').1⟩

end SshTunnel.ClientHook
