import SshTunnel.AddDialer
import SshTunnel.Lib.HostPort
import SshTunnel.Lib.NetRead
import SshTunnel.Proxies.Serve

/-!
# Addresses for a later dial (`proxy/dnsproxy.go:72-84`, `proxy/httpproxy.go:82-90`,
`dialer/sshdialer.go:131-159`, `originaldest/originaldest_linux.go:38-68`)

Four places put a host and a port together with a colon. None of them writes the
brackets that an IPv6 address needs in front of a port.
-/

namespace SshTunnel.HostPort

open Lib.Net (Text IP Byte decText dottedText ipText to4)
open Lib.HostPort
open Dialers (withScheme)

/-! ### What is intended -/

/-- The host and the port that `makeTargetAddr` reads, with its defaults. -/
def targetOf (parameters : Text) : Text × Text :=
  match splitHostPort parameters with
  | .ok (host, port) =>
    (if host = [] then "127.0.0.53".toList else host, if port = [] then "53".toList else port)
  | .error _ => ("127.0.0.53".toList, "53".toList)

def recordIP (multiaddr : Fin 16 → Byte) : IP :=
  [multiaddr 4, multiaddr 5, multiaddr 6, multiaddr 7]

def recordPort (multiaddr : Fin 16 → Byte) : ℕ := (multiaddr 2).val * 256 + (multiaddr 3).val

/-! ### The transparent proxy -/

/-- The text and the port of `GetOriginalDst`, from the record of the kernel. -/
def getOriginalDst (multiaddr : Fin 16 → Byte) : Text × UInt16 :=
  (decText (multiaddr 4).val ++ ".".toList ++ decText (multiaddr 5).val ++ ".".toList ++
      decText (multiaddr 6).val ++ ".".toList ++ decText (multiaddr 7).val,
    UInt16.ofNat (multiaddr 2).val <<< 8 + UInt16.ofNat (multiaddr 3).val)

/-- The address that `handleConnection` dials. -/
def remoteAddr (multiaddr : Fin 16 → Byte) : Text :=
  (getOriginalDst multiaddr).1 ++ ":".toList ++ decText (getOriginalDst multiaddr).2.toNat

/-! ### A host, a colon and a port -/

section Join

variable {host port : Text} {ip : IP}

/-- Without brackets around it, a host is split back exactly if it has no colon. -/
theorem splitHostPort_join_iff (hhost : Unbracketed host) (hport : Bare port) :
    splitHostPort (host ++ ':' :: port) = .ok (host, port) ↔ ':' ∉ host := by
  constructor
  · intro h
    obtain ⟨-, ⟨hbare, -⟩ | ⟨-, hs⟩⟩ := splitHostPort_ok h
    · exact hbare.1
    · have hlen := congrArg List.length (List.append_cancel_right hs)
      simp only [literal, List.length_append, List.length_cons, List.length_nil] at hlen
      omega
  · intro hcolon
    exact splitHostPort_bare ⟨hcolon, hhost⟩ hport

theorem decText_bare (n : ℕ) : Bare (decText n) :=
  digits_bare fun _ => Lib.Net.decText_isDigit

theorem targetOf_parts (parameters : Text) :
    Unbracketed (targetOf parameters).1 ∧ Bare (targetOf parameters).2 := by
  have hdefault : Unbracketed "127.0.0.53".toList ∧ Bare "53".toList := by decide
  unfold targetOf
  cases hs : splitHostPort parameters with
  | error err => exact hdefault
  | ok r =>
    obtain ⟨host, port⟩ := r
    obtain ⟨hport, hhost⟩ := splitHostPort_ok hs
    have hunbracketed : Unbracketed host := by
      rcases hhost with ⟨h, -⟩ | ⟨h, -⟩
      · exact h.2
      · exact h
    dsimp only
    refine ⟨?_, ?_⟩
    · split
      · exact hdefault.1
      · exact hunbracketed
    · split
      · exact hdefault.2
      · exact hport

theorem makeTargetAddr_eq {env : Proxies.Env} (henv : env.splitHostPort = splitHostPort)
    {parameters target : Text} (h : Proxies.makeTargetAddr env parameters = .ok target) :
    target = (targetOf parameters).1 ++ ':' :: (targetOf parameters).2 := by
  unfold Proxies.makeTargetAddr at h
  unfold targetOf
  rw [henv] at h
  cases hs : splitHostPort parameters with
  | ok r =>
    simp only [hs] at h
    cases h
    rw [List.append_assoc]
    rfl
  | error err =>
    simp only [hs] at h
    split at h
    · cases h
      show "127.0.0.53:53".toList = "127.0.0.53".toList ++ ':' :: "53".toList
      decide
    · cases h

theorem ipText_unbracketed (hip : ip.length = 4 ∨ ip.length = 16) : Unbracketed (ipText ip) :=
  ⟨Lib.Net.notMem_ipText (by decide) (by decide) (by decide) (by decide) hip,
    Lib.Net.notMem_ipText (by decide) (by decide) (by decide) (by decide) hip⟩

theorem dottedText_bare (ip : IP) : Bare (dottedText ip) := by
  have hnot : ∀ c : Char, c.isDigit = false → c ≠ '.' → c ∉ dottedText ip := by
    intro c hc hdot
    apply Lib.Net.notMem_intercalate hdot
    intro t ht
    obtain ⟨b, -, rfl⟩ := List.mem_map.mp ht
    exact Lib.Net.notMem_decText hc b.val
  exact ⟨hnot ':' (by decide) (by decide), hnot '[' (by decide) (by decide),
    hnot ']' (by decide) (by decide)⟩

theorem colon_notMem_ipText_iff (hip : ip.length = 4 ∨ ip.length = 16) :
    ':' ∉ ipText ip ↔ to4 ip ≠ none := by
  cases h4 : to4 ip with
  | some p =>
    refine iff_of_true ?_ (Option.some_ne_none p)
    simp only [ipText, h4]
    exact (dottedText_bare p).1
  | none =>
    have h16 : ip.length = 16 := by
      refine hip.resolve_left fun h => ?_
      simp [to4, h] at h4
    refine iff_of_false (fun h => ?_) (fun h => h rfl)
    rw [Lib.Net.ipText_of_to4_none h16 h4] at h
    exact h (Lib.Net.colon_mem_tokens6 (by rw [Lib.Net.groups_length, h16]))

theorem port_bare (host : Text) : Bare (Lib.HostPort.port host) := by
  unfold Lib.HostPort.port splitURLHost
  split
  · split
    · rename_i hvalid
      exact digits_bare (validOptionalPort_iff.mp hvalid)
    · exact ⟨List.not_mem_nil, List.not_mem_nil, List.not_mem_nil⟩
  · exact ⟨List.not_mem_nil, List.not_mem_nil, List.not_mem_nil⟩

theorem getOriginalDst_text (multiaddr : Fin 16 → Byte) :
    (getOriginalDst multiaddr).1 = dottedText (recordIP multiaddr) := by
  simp [getOriginalDst, dottedText, recordIP, List.intercalate_cons_cons]

theorem getOriginalDst_port (multiaddr : Fin 16 → Byte) :
    (getOriginalDst multiaddr).2.toNat = recordPort multiaddr := by
  have h2 := (multiaddr 2).isLt
  have h3 := (multiaddr 3).isLt
  have h8 : 2 ^ (UInt16.toNat 8 % 16) = 256 := by decide
  simp only [getOriginalDst, recordPort, UInt16.toNat_add, UInt16.toNat_shiftLeft,
    UInt16.toNat_ofNat', Nat.shiftLeft_eq, h8]
  omega

end Join

/-! ### The four places -/

section Places

variable {Conn : Type} {parameters target uri : Text} {url : Dialers.URL}
  {a : Connector.SSHAddress}

theorem makeTargetAddr_splits_iff (env : Proxies.Env) (henv : env.splitHostPort = splitHostPort)
    (h : Proxies.makeTargetAddr env parameters = .ok target) :
    splitHostPort target = .ok (targetOf parameters) ↔ ':' ∉ (targetOf parameters).1 := by
  obtain ⟨hhost, hport⟩ := targetOf_parts parameters
  rw [makeTargetAddr_eq henv h, splitHostPort_join_iff hhost hport]

theorem handleTunneling_splits_iff (env : Proxies.Env) (dialer : Proxies.Dialer)
    (g : Proxies.Globals) (req : Proxies.HttpRequest) (host : Text) (ip : IP)
    (hresolved : (Proxies.resolveDNS env g req.hostname).2.2 = some ip)
    (hip : ip.length = 4 ∨ ip.length = 16) (hport : req.port = port host) :
    ∃ addr, (Proxies.handleTunneling env dialer g req).2 =
        (Proxies.resolveDNS env g req.hostname).2.1 ++ [⟨.dialer dialer, Proxies.tcp, addr⟩] ∧
      (splitHostPort addr = .ok (ipText ip, req.port) ↔ to4 ip ≠ none) := by
  refine ⟨ipText ip ++ ':' :: req.port, ?_, ?_⟩
  · rw [Proxies.handleTunneling]
    split
    · rename_i g' opened ip' he
      rw [he] at hresolved ⊢
      cases hresolved
      rw [List.append_assoc]
      rfl
    · rename_i g' opened he
      rw [he] at hresolved
      cases hresolved
  · rw [splitHostPort_join_iff (ipText_unbracketed hip) (hport ▸ port_bare host),
      colon_notMem_ipText_iff hip]

theorem sshAddress_splits_iff (denv : Dialers.Env Conn)
    (hurl : denv.parseURL (withScheme uri) = some url) (hport : url.port = port url.host)
    (h : Dialers.sshAddress denv uri = .ok a) :
    splitHostPort a.host =
        .ok (hostname url.host, if url.port = [] then "22".toList else url.port) ↔
      Dialable url.host := by
  unfold withScheme at hurl
  unfold Dialers.sshAddress at h
  simp only [hurl] at h
  split at h
  · cases h
    rw [← splitHostPort_default_iff url.host "22".toList (by decide), ← hport]
    rfl
  · cases h

theorem remoteAddr_splits (multiaddr : Fin 16 → Byte) :
    splitHostPort (remoteAddr multiaddr) =
      .ok (dottedText (recordIP multiaddr), decText (recordPort multiaddr)) := by
  rw [remoteAddr, getOriginalDst_text, getOriginalDst_port, List.append_assoc]
  exact splitHostPort_bare (dottedText_bare _) (decText_bare _)

end Places

/-- `SplitHostPort` gives back the host and the port of an address exactly where the
host needs no brackets, and for a url where it has them. -/
theorem addresses_split_iff {Conn : Type} (env : Proxies.Env) (denv : Dialers.Env Conn)
    (henv : env.splitHostPort = splitHostPort)
    (hport : ∀ text url, denv.parseURL text = some url → url.port = port url.host) :
    (∀ parameters target, Proxies.makeTargetAddr env parameters = .ok target →
      (splitHostPort target = .ok (targetOf parameters) ↔ ':' ∉ (targetOf parameters).1)) ∧
    (∀ dialer g req host ip, (Proxies.resolveDNS env g req.hostname).2.2 = some ip →
      (ip.length = 4 ∨ ip.length = 16) → req.port = port host →
      ∃ addr, (Proxies.handleTunneling env dialer g req).2 =
          (Proxies.resolveDNS env g req.hostname).2.1 ++ [⟨.dialer dialer, Proxies.tcp, addr⟩] ∧
        (splitHostPort addr = .ok (ipText ip, req.port) ↔ to4 ip ≠ none)) ∧
    (∀ uri url a, denv.parseURL (withScheme uri) = some url →
      Dialers.sshAddress denv uri = .ok a →
      (splitHostPort a.host =
          .ok (hostname url.host, if url.port = [] then "22".toList else url.port) ↔
        Dialable url.host)) ∧
    ∀ multiaddr, splitHostPort (remoteAddr multiaddr) =
      .ok (dottedText (recordIP multiaddr), decText (recordPort multiaddr)) :=
  ⟨fun _ _ h => makeTargetAddr_splits_iff env henv h,
    fun dialer g req host ip hresolved hip hp =>
      handleTunneling_splits_iff env dialer g req host ip hresolved hip hp,
    fun _ _ _ hurl h => sshAddress_splits_iff denv hurl (hport _ _ hurl) h, remoteAddr_splits⟩

section Example

def splitEnv : Proxies.Env := { Proxies.sampleEnv with splitHostPort := splitHostPort }

def loopbackURL : Dialers.URL := ⟨Dialers.ssh, "u".toList, "[::1]:2222".toList, "2222".toList⟩

def loopbackEnv : Dialers.Env Unit :=
  { Dialers.sampleEnv with
    parseURL := fun text =>
      if text = "ssh://u@[::1]:2222".toList then some loopbackURL else none }

theorem loopbackEnv_port (text : Text) (url : Dialers.URL)
    (h : loopbackEnv.parseURL text = some url) : url.port = port url.host := by
  simp only [loopbackEnv] at h
  split at h
  · cases h
    decide
  · cases h

theorem loopbackEnv_parse :
    loopbackEnv.parseURL (withScheme "u@[::1]:2222".toList) = some loopbackURL := by
  have htext : withScheme "u@[::1]:2222".toList = "ssh://u@[::1]:2222".toList := by decide
  have hparse : ∀ text, loopbackEnv.parseURL text =
      if text = "ssh://u@[::1]:2222".toList then some loopbackURL else none := fun _ => rfl
  rw [hparse, if_pos htext]

theorem addresses_split_examples :
    splitHostPort "10.0.0.53:53".toList = .ok (targetOf "10.0.0.53:".toList) ∧
      splitHostPort "[::1]:2222".toList = .ok ("::1".toList, "2222".toList) := by
  obtain ⟨htarget, -, hurl, -⟩ := addresses_split_iff splitEnv loopbackEnv rfl loopbackEnv_port
  refine ⟨(htarget "10.0.0.53:".toList _ (by decide)).mpr (by decide), ?_⟩
  refine (hurl "u@[::1]:2222".toList loopbackURL ⟨"u".toList, "[::1]:2222".toList⟩
    loopbackEnv_parse (by decide)).mpr ?_
  have hdigits : "2222".toList.all Char.isDigit = true := by decide
  refine .inr ⟨"[::1]".toList, "2222".toList, by decide, ?_, by decide, List.all_eq_true.mp hdigits⟩
  exact .inr ⟨"::1".toList, by decide, by decide⟩

/-- The brackets of an IPv6 target are lost. -/
theorem ipv6_target_lost :
    ¬∀ (env : Proxies.Env) (parameters target : Text), env.splitHostPort = splitHostPort →
      Proxies.makeTargetAddr env parameters = .ok target →
      splitHostPort target = .ok (targetOf parameters) := by
  intro hall
  have h := hall splitEnv "[::1]:53".toList "::1:53".toList rfl (by decide)
  revert h
  decide

end Example

end SshTunnel.HostPort
