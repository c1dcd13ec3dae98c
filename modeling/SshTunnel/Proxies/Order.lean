import SshTunnel.Proxies.Serve

/-!
# The order of the proxies (`proxy/socks5proxy.go:54-94`, `proxy/dnsproxy.go:17-41`, `95-112`)

The http proxy looks for the DNS target when a request comes in, the socks5 proxy
when it is started: one that comes before the DNS proxy leaves names to the system
for as long as it lives.
-/

namespace SshTunnel.Proxies.Order

open Lib.Net (Text)

/-- A `StartProxy` request with the ports that it finds. -/
structure Start where
  proxyType : Text
  parameters : Text
  listen : Except Text ℕ
  freePort : Except Text ℕ

def dnsType : Text := "dns".toList
def socks5Type : Text := "socks5".toList
def httpType : Text := "http".toList

def initial : Globals := ⟨[], none⟩

section Order

variable (env : Env)

def Start.withPorts (s : Start) : Env :=
  { env with listen := fun _ => s.listen, getFreeUDPPort := s.freePort }

def Start.newProxy (g : Globals) (s : Start) : Except Text (Globals × Proxy × ℕ) :=
  Proxies.newProxy (s.withPorts env) g s.proxyType s.parameters

def Start.Succeeds (s : Start) : Prop := ∃ r, s.newProxy env initial = .ok r

def start (state : Globals × List Proxy) (s : Start) : Globals × List Proxy :=
  match s.newProxy env state.1 with
  | .ok (g, p, _) => (g, state.2 ++ [p])
  | .error _ => state

def startAll (state : Globals × List Proxy) (starts : List Start) : Globals × List Proxy :=
  starts.foldl (start env) state

/-- The requests for which a proxy resolves a name of the client, and the name. -/
inductive Asks : Proxy → Request → Text → Prop
  | socks5 (dialer : Dialer) (resolver : Bool) (name : Text) (calls : List SocksCall) :
      Asks (.socks5 dialer resolver) (.socks5 (.resolve name :: calls)) name
  | resolve (dialer : Dialer) (req : HttpRequest) (h : req.method = "RESOLVE".toList) :
      Asks (.http dialer) (.http req) req.host
  | connect (dialer : Dialer) (req : HttpRequest) (h : req.method ≠ "RESOLVE".toList) :
      Asks (.http dialer) (.http req) req.hostname

/-- The request is answered with the help of `ResolveDNS`, which asks the target. -/
def ThroughDNS (g : Globals) (p : Proxy) (r : Request) (name target : Text) : Prop :=
  g.dnsTarget = target ∧ ∀ env, (resolveDNS env g name).2.1 <+: (serve env g p r).2

def ResolvesBy (R : Request → Prop) (g : Globals) (target : Text) (p : Proxy) : Prop :=
  ∀ r name, R r → Asks p r name → ThroughDNS g p r name target

/-- After the requests all proxies resolve the names of the requests `R` through the
target of the DNS proxy. -/
def Resolves (R : Request → Prop) (starts : List Start) : Prop :=
  ∀ d ∈ starts, d.proxyType = dnsType → ∀ target,
    makeTargetAddr env d.parameters = .ok target →
      ∀ p ∈ (startAll env (initial, []) starts).2,
        ResolvesBy R (startAll env (initial, []) starts).1 target p

/-- All requests but the plain ones, which the http proxy leaves to the transport. -/
def ForTunnel : Request → Prop
  | .http req => req.method = "RESOLVE".toList ∨ req.method = "CONNECT".toList
  | _ => True

/-- No socks5 proxy is started before the DNS proxy. -/
def DNSFirst (starts : List Start) : Prop :=
  ∀ s ∈ starts.takeWhile fun s => s.proxyType ≠ dnsType, s.proxyType ≠ socks5Type

instance decidableDNSFirst (starts : List Start) : Decidable (DNSFirst starts) :=
  List.decidableBAll (fun s : Start => s.proxyType ≠ socks5Type)
    (starts.takeWhile fun s : Start => s.proxyType ≠ dnsType)

/-! ### What a start does -/

variable {env} {g g' : Globals} {s d : Start} {starts before after : List Start}
  {ps : List Proxy} {target name : Text} {dialer : Dialer}

/-- What a start that succeeds makes of its type. -/
def made (g : Globals) (s : Start) : Proxy :=
  if s.proxyType = "transparent".toList then .transparent .ruleSet
  else if s.proxyType = httpType then .http .ruleSet
  else .socks5 .ruleSet (g.dnsTarget ≠ [])

theorem exists_of_map {α β : Type} {x : Except Text α} {f : α → β} {b : β}
    (h : x.map f = .ok b) : ∃ a, x = .ok a := by
  cases x with
  | error err => cases h
  | ok a => exact ⟨a, rfl⟩

theorem newProxy_other (hs : s.Succeeds env) (hd : s.proxyType ≠ dnsType) (g : Globals) :
    ∃ port, s.newProxy env g = .ok (g, made g s, port) := by
  obtain ⟨r, hr⟩ := hs
  unfold Start.newProxy Proxies.newProxy at hr ⊢
  unfold made
  change s.proxyType ≠ "dns".toList at hd
  unfold httpType
  split_ifs at hr ⊢
  · obtain ⟨port, hport⟩ := exists_of_map hr
    exact ⟨port, by rw [hport]; rfl⟩
  · obtain ⟨port, hport⟩ := exists_of_map hr
    exact ⟨port, by rw [hport]; rfl⟩
  · obtain ⟨port, hport⟩ := exists_of_map hr
    exact ⟨port, by rw [hport]; rfl⟩

theorem newProxy_dns (hd : d.proxyType = dnsType) (hs : d.Succeeds env) :
    ∃ target, makeTargetAddr env d.parameters = .ok target ∧ ∀ g, ∃ port,
      d.newProxy env g = .ok (⟨target, none⟩, .dns none target, port) := by
  obtain ⟨r, hr⟩ := hs
  have hnew : ∀ g, d.newProxy env g = d.freePort.bind fun port =>
      (makeTargetAddr env d.parameters).map fun target =>
        ({ g with dnsTarget := target, dnsDialer := none }, .dns none target, port) := by
    intro g
    rw [Start.newProxy, Proxies.newProxy, hd]
    rfl
  rw [hnew] at hr
  cases hport : d.freePort with
  | error err =>
    rw [hport] at hr
    cases hr
  | ok port =>
    rw [hport] at hr
    obtain ⟨target, htarget⟩ := exists_of_map hr
    refine ⟨target, htarget, fun g => ⟨port, ?_⟩⟩
    rw [hnew, hport, htarget]
    rfl

theorem makeTargetAddr_ne_nil {parameters : Text}
    (h : makeTargetAddr env parameters = .ok target) : target ≠ [] := by
  unfold makeTargetAddr at h
  split at h
  · cases h
    exact List.append_ne_nil_of_left_ne_nil
      (List.append_ne_nil_of_right_ne_nil _ (by decide)) _
  · split at h
    · cases h
      decide
    · cases h

theorem startAll_append (state : Globals × List Proxy) (as bs : List Start) :
    startAll env state (as ++ bs) = startAll env (startAll env state as) bs := List.foldl_append

theorem startAll_cons (state : Globals × List Proxy) (s : Start) (starts : List Start) :
    startAll env state (s :: starts) = startAll env (start env state s) starts := rfl

theorem startAll_other (hs : ∀ s ∈ starts, s.Succeeds env)
    (hd : ∀ s ∈ starts, s.proxyType ≠ dnsType) (g : Globals) (ps : List Proxy) :
    startAll env (g, ps) starts = (g, ps ++ starts.map (made g)) := by
  induction starts generalizing ps with
  | nil => rw [List.map_nil, List.append_nil]; rfl
  | cons s starts ih =>
    obtain ⟨port, hnew⟩ := newProxy_other (hs s List.mem_cons_self) (hd s List.mem_cons_self) g
    have hstart : start env (g, ps) s = (g, ps ++ [made g s]) := by rw [start, hnew]
    have htail := ih (fun t ht => hs t (List.mem_cons_of_mem s ht))
      (fun t ht => hd t (List.mem_cons_of_mem s ht)) (ps ++ [made g s])
    rw [startAll_cons, hstart, htail, List.append_assoc]
    rfl

/-- The proxies of a collection with one DNS proxy: those before it are made without
a DNS target. -/
theorem startAll_one (hd : d.proxyType = dnsType)
    (hs : ∀ s ∈ before ++ d :: after, s.Succeeds env)
    (hbefore : ∀ s ∈ before, s.proxyType ≠ dnsType) (hafter : ∀ s ∈ after, s.proxyType ≠ dnsType) :
    ∃ target, makeTargetAddr env d.parameters = .ok target ∧
      startAll env (initial, []) (before ++ d :: after) =
        (⟨target, none⟩, before.map (made initial) ++ .dns none target ::
          after.map (made ⟨target, none⟩)) := by
  obtain ⟨target, htarget, hnew⟩ := newProxy_dns hd (hs d (by simp))
  obtain ⟨port, hport⟩ := hnew initial
  have hstart : ∀ ps, start env (initial, ps) d = (⟨target, none⟩, ps ++ [.dns none target]) := by
    intro ps
    rw [start, hport]
  refine ⟨target, htarget, ?_⟩
  have hfirst := startAll_other (fun s h => hs s (List.mem_append_left _ h)) hbefore initial []
  have hlast : ∀ s ∈ after, s.Succeeds env := fun s h =>
    hs s (List.mem_append_right _ (List.mem_cons_of_mem d h))
  have hsecond := startAll_other hlast hafter ⟨target, none⟩
    (before.map (made initial) ++ [.dns none target])
  rw [startAll_append, hfirst, startAll_cons, hstart, List.nil_append, hsecond, List.append_assoc]
  rfl

/-! ### Which proxies resolve through the target -/

theorem resolvesBy_socks5 (R : Request → Prop) (g : Globals) (dialer : Dialer) :
    ResolvesBy R g g.dnsTarget (.socks5 dialer true) := by
  rintro r name - hasks
  cases hasks with
  | socks5 _ _ _ calls => exact ⟨rfl, fun env => List.prefix_append _ _⟩

theorem resolvesBy_http (g : Globals) (dialer : Dialer) :
    ResolvesBy ForTunnel g g.dnsTarget (.http dialer) := by
  rintro r name hr hasks
  refine ⟨rfl, fun env => ?_⟩
  cases hasks with
  | resolve _ req h =>
    rw [serve, httpServe, if_pos h]
    exact List.prefix_rfl
  | connect _ req h =>
    have hconnect : req.method = "CONNECT".toList := hr.resolve_left h
    rw [serve, httpServe, if_neg h, if_pos hconnect, handleTunneling]
    split
    · rename_i g' opened ip he
      rw [he]
      exact List.prefix_append _ _
    · rename_i g' opened he
      rw [he]

theorem resolvesBy_transparent (R : Request → Prop) (g : Globals) (target : Text)
    (dialer : Dialer) : ResolvesBy R g target (.transparent dialer) := fun _ _ _ h => nomatch h

theorem resolvesBy_dns (R : Request → Prop) (g : Globals) (target target' : Text)
    (dialer : Option Dialer) : ResolvesBy R g target (.dns dialer target') :=
  fun _ _ _ h => nomatch h

/-- The resolver dials once for a name, the transport not at all. -/
def oneDial : Env where
  lookupIP := fun _ => (1, none)
  roundTrip := fun _ => []
  listen := fun _ => .ok 8080
  getFreeUDPPort := .ok 5353
  splitHostPort := fun _ => .error "missing port in address".toList

theorem not_resolvesBy_socks5 {R : Request → Prop} (hR : ∀ calls, R (.socks5 calls))
    (g : Globals) (target : Text) (dialer : Dialer) :
    ¬ResolvesBy R g target (.socks5 dialer false) := by
  intro h
  have hprefix := (h _ [] (hR _) (.socks5 dialer false [] [])).2 oneDial
  exact List.cons_ne_nil _ _ (List.prefix_nil.mp hprefix)

theorem not_resolvesBy_http (g : Globals) (target : Text) (dialer : Dialer) :
    ¬ResolvesBy (fun _ => True) g target (.http dialer) := by
  intro h
  have hprefix := (h _ _ trivial (.connect dialer ⟨"GET".toList, [], [], []⟩ (by decide))).2 oneDial
  exact List.cons_ne_nil _ _ (List.prefix_nil.mp hprefix)

theorem succeeds_type (hs : s.Succeeds env) (hd : s.proxyType ≠ dnsType) :
    s.proxyType = "transparent".toList ∨ s.proxyType = httpType ∨ s.proxyType = socks5Type := by
  by_contra hnot
  obtain ⟨htransparent, hhttp, hsocks5⟩ : s.proxyType ≠ "transparent".toList ∧
      s.proxyType ≠ "http".toList ∧ s.proxyType ≠ "socks5".toList := by
    rw [not_or, not_or] at hnot
    exact hnot
  change s.proxyType ≠ "dns".toList at hd
  obtain ⟨r, hr⟩ := hs
  rw [Start.newProxy, Proxies.newProxy, if_neg htransparent, if_neg hhttp, if_neg hsocks5,
    if_neg hd] at hr
  cases hr

theorem made_http (h : s.proxyType = httpType) : made g s = .http .ruleSet := by
  rw [made, if_neg (by rw [h]; decide), if_pos h]

theorem made_socks5 (h : s.proxyType = socks5Type) :
    made g s = .socks5 .ruleSet (g.dnsTarget ≠ []) := by
  rw [made, if_neg (by rw [h]; decide), if_neg (by rw [h]; decide)]

theorem made_resolvesBy {R : Request → Prop} (hs : s.Succeeds env) (hd : s.proxyType ≠ dnsType)
    (hhttp : s.proxyType = httpType → ResolvesBy R g' g'.dnsTarget (.http .ruleSet))
    (hsocks : s.proxyType = socks5Type → g.dnsTarget ≠ []) :
    ResolvesBy R g' g'.dnsTarget (made g s) := by
  rcases succeeds_type hs hd with h | h | h
  · rw [made, if_pos h]
    exact resolvesBy_transparent R g' _ _
  · rw [made_http h]
    exact hhttp h
  · rw [made_socks5 h, decide_eq_true (hsocks h)]
    exact resolvesBy_socks5 R g' _

/-! ### One order -/

def isDNS (s : Start) : Bool := s.proxyType = dnsType

structure Split (starts before : List Start) (d : Start) (after : List Start) : Prop where
  starts_eq : starts = before ++ d :: after
  dns : d.proxyType = dnsType
  before_other : ∀ s ∈ before, s.proxyType ≠ dnsType
  after_other : ∀ s ∈ after, s.proxyType ≠ dnsType
  takeWhile_eq : starts.takeWhile (fun s => s.proxyType ≠ dnsType) = before

theorem exists_split (hone : starts.countP isDNS = 1) :
    ∃ before d after, Split starts before d after := by
  induction starts with
  | nil => cases hone
  | cons s starts ih =>
    by_cases hs : s.proxyType = dnsType
    · have hdns : isDNS s = true := decide_eq_true hs
      rw [List.countP_cons_of_pos hdns, Nat.succ_inj, List.countP_eq_zero] at hone
      exact ⟨[], s, starts, rfl, hs, fun t ht => absurd ht List.not_mem_nil,
        fun t ht => by simpa [isDNS] using hone t ht, by simp [hs]⟩
    · rw [List.countP_cons_of_neg (by simpa [isDNS] using hs)] at hone
      obtain ⟨before, d, after, hsplit⟩ := ih hone
      refine ⟨s :: before, d, after, by rw [hsplit.starts_eq, List.cons_append], hsplit.dns,
        ?_, hsplit.after_other, ?_⟩
      · rintro t ht
        rcases List.mem_cons.mp ht with rfl | ht
        · exact hs
        · exact hsplit.before_other t ht
      · rw [List.takeWhile_cons_of_pos (by simpa using hs), hsplit.takeWhile_eq]

/-- The proxies behind a split are made with the target, those before it without. -/
theorem resolves_split {R : Request → Prop} (hsplit : Split starts before d after)
    (hs : ∀ s ∈ starts, s.Succeeds env) :
    ∃ g : Globals, g.dnsTarget ≠ [] ∧ (Resolves env R starts ↔
      (∀ s ∈ before, ResolvesBy R g g.dnsTarget (made initial s)) ∧
        ∀ s ∈ after, ResolvesBy R g g.dnsTarget (made g s)) := by
  obtain ⟨rfl, hd, hbefore, hafter, -⟩ := hsplit
  obtain ⟨target, htarget, hall⟩ := startAll_one hd hs hbefore hafter
  refine ⟨⟨target, none⟩, makeTargetAddr_ne_nil htarget, ?_⟩
  have hsame : ∀ d' ∈ before ++ d :: after, d'.proxyType = dnsType → d' = d := by
    intro d' hmem hd'
    rcases List.mem_append.mp hmem with h | h
    · exact absurd hd' (hbefore d' h)
    · exact (List.mem_cons.mp h).resolve_right fun h => absurd hd' (hafter d' h)
  constructor
  · intro h
    have hp := h d (by simp) hd target htarget
    rw [hall] at hp
    refine ⟨fun s hmem => ?_, fun s hmem => ?_⟩
    · exact hp _ (List.mem_append_left _ (List.mem_map_of_mem hmem))
    · exact hp _ (List.mem_append_right _ (List.mem_cons_of_mem _ (List.mem_map_of_mem hmem)))
  · rintro ⟨hb, ha⟩ d' hmem hd' target' htarget' p hp
    obtain rfl := hsame d' hmem hd'
    obtain rfl : target = target' := Except.ok.inj (htarget.symm.trans htarget')
    rw [hall] at hp ⊢
    rcases List.mem_append.mp hp with hp | hp
    · obtain ⟨s, hmem, rfl⟩ := List.mem_map.mp hp
      exact hb s hmem
    · rcases List.mem_cons.mp hp with rfl | hp
      · exact resolvesBy_dns R _ _ _ _
      · obtain ⟨s, hmem, rfl⟩ := List.mem_map.mp hp
        exact ha s hmem

theorem resolves_forTunnel_iff (hs : ∀ s ∈ starts, s.Succeeds env)
    (hone : starts.countP isDNS = 1) : Resolves env ForTunnel starts ↔ DNSFirst starts := by
  obtain ⟨before, d, after, hsplit⟩ := exists_split hone
  obtain ⟨g, hg, hresolves⟩ := resolves_split (R := ForTunnel) hsplit hs
  rw [hresolves, DNSFirst, hsplit.takeWhile_eq]
  rw [hsplit.starts_eq] at hs
  constructor
  · rintro ⟨hb, -⟩ s hmem hsocks
    have h := hb s hmem
    rw [made_socks5 hsocks] at h
    exact not_resolvesBy_socks5 (fun _ => trivial) g _ _ h
  · intro hfirst
    refine ⟨fun s hmem => ?_, fun s hmem => ?_⟩
    · exact made_resolvesBy (hs s (List.mem_append_left _ hmem)) (hsplit.before_other s hmem)
        (fun _ => resolvesBy_http g _) fun h => absurd h (hfirst s hmem)
    · exact made_resolvesBy (hs s (List.mem_append_right _ (List.mem_cons_of_mem d hmem)))
        (hsplit.after_other s hmem) (fun _ => resolvesBy_http g _) fun _ => hg

theorem resolves_all_iff (hs : ∀ s ∈ starts, s.Succeeds env) (hone : starts.countP isDNS = 1) :
    Resolves env (fun _ => True) starts ↔
      DNSFirst starts ∧ ∀ s ∈ starts, s.proxyType ≠ httpType := by
  obtain ⟨before, d, after, hsplit⟩ := exists_split hone
  obtain ⟨g, hg, hresolves⟩ := resolves_split (R := fun _ => True) hsplit hs
  rw [hresolves, DNSFirst, hsplit.takeWhile_eq]
  have hnot : ∀ g' s, ResolvesBy (fun _ => True) g g.dnsTarget (made g' s) →
      s.proxyType ≠ httpType := by
    intro g' s h hhttp
    rw [made_http hhttp] at h
    exact not_resolvesBy_http g _ _ h
  rw [hsplit.starts_eq] at hs ⊢
  constructor
  · rintro ⟨hb, ha⟩
    refine ⟨fun s hmem hsocks => ?_, fun s hmem => ?_⟩
    · have h := hb s hmem
      rw [made_socks5 hsocks] at h
      exact not_resolvesBy_socks5 (fun _ => trivial) g _ _ h
    · rcases List.mem_append.mp hmem with hmem | hmem
      · exact hnot _ s (hb s hmem)
      · rcases List.mem_cons.mp hmem with rfl | hmem
        · rw [hsplit.dns]
          decide
        · exact hnot _ s (ha s hmem)
  · rintro ⟨hfirst, hhttp⟩
    refine ⟨fun s hmem => ?_, fun s hmem => ?_⟩
    · exact made_resolvesBy (hs s (List.mem_append_left _ hmem)) (hsplit.before_other s hmem)
        (fun h => absurd h (hhttp s (List.mem_append_left _ hmem)))
        fun h => absurd h (hfirst s hmem)
    · have hmem' : s ∈ before ++ d :: after :=
        List.mem_append_right _ (List.mem_cons_of_mem d hmem)
      exact made_resolvesBy (hs s hmem') (hsplit.after_other s hmem)
        (fun h => absurd h (hhttp s hmem')) fun _ => hg

end Order

/-- In two orders of a collection all tunnels resolve their names through the DNS
target exactly if no socks5 proxy comes before the DNS proxy, and all requests do
if there is no http proxy besides. -/
theorem orders_resolve_iff (env : Env) (a b : List Start) (hperm : a.Perm b)
    (hs : ∀ s ∈ a, s.Succeeds env) (hone : a.countP isDNS = 1) :
    (Resolves env ForTunnel a ∧ Resolves env ForTunnel b ↔ DNSFirst a ∧ DNSFirst b) ∧
      (Resolves env (fun _ => True) a ∧ Resolves env (fun _ => True) b ↔
        DNSFirst a ∧ DNSFirst b ∧ ∀ s ∈ a, s.proxyType ≠ httpType) := by
  have hs' : ∀ s ∈ b, s.Succeeds env := fun s h => hs s (hperm.mem_iff.mpr h)
  have hone' : b.countP isDNS = 1 := by rwa [← hperm.countP_eq]
  have hhttp : (∀ s ∈ b, s.proxyType ≠ httpType) ↔ ∀ s ∈ a, s.proxyType ≠ httpType :=
    forall_congr' fun s => by rw [hperm.mem_iff]
  rw [resolves_forTunnel_iff hs hone, resolves_forTunnel_iff hs' hone', resolves_all_iff hs hone,
    resolves_all_iff hs' hone', hhttp]
  exact ⟨Iff.rfl, by tauto⟩

section Example

def dnsStart : Start := ⟨dnsType, [], .ok 0, .ok 5353⟩
def socks5Start : Start := ⟨socks5Type, [], .ok 1080, .ok 0⟩
def httpStart : Start := ⟨httpType, [], .ok 8080, .ok 0⟩

theorem starts_succeed : ∀ s ∈ [dnsStart, socks5Start, httpStart], s.Succeeds oneDial := by
  intro s hs
  simp only [List.mem_cons, List.not_mem_nil, or_false] at hs
  rcases hs with rfl | rfl | rfl
  · exact ⟨_, rfl⟩
  · exact ⟨_, rfl⟩
  · exact ⟨_, rfl⟩

theorem dns_first_resolves :
    Resolves oneDial ForTunnel [dnsStart, socks5Start, httpStart] ∧
      Resolves oneDial ForTunnel [httpStart, dnsStart, socks5Start] :=
  (orders_resolve_iff oneDial [dnsStart, socks5Start, httpStart] [httpStart, dnsStart, socks5Start]
    (List.perm_append_comm : ([dnsStart, socks5Start] ++ [httpStart]).Perm _) starts_succeed
    (by decide)).1.mpr ⟨by decide, by decide⟩

/-- A socks5 proxy that is started before the DNS proxy never asks it. -/
theorem socks5_first_leaks :
    ¬∀ (env : Env) (a b : List Start), a.Perm b → (∀ s ∈ a, s.Succeeds env) →
      a.countP isDNS = 1 → Resolves env ForTunnel a ∧ Resolves env ForTunnel b := by
  intro hall
  have hresolves := (hall oneDial [dnsStart, socks5Start] [socks5Start, dnsStart] (.swap _ _ _)
    (fun s hs => starts_succeed s (List.mem_append_left [httpStart] hs)) (by decide)).2
  have hsucceed : ∀ s ∈ [socks5Start, dnsStart], s.Succeeds oneDial := fun s hs =>
    starts_succeed s (by
      simp only [List.mem_cons, List.not_mem_nil, or_false] at hs ⊢
      tauto)
  exact absurd ((resolves_forTunnel_iff hsucceed (by decide)).mp hresolves) (by decide)

end Example

end SshTunnel.Proxies.Order
