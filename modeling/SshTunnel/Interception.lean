import SshTunnel.HostPort
import SshTunnel.IptablesTable
import SshTunnel.Lib.Chains
import SshTunnel.Lib.Runs

/-!
# Redirected connections (`commands/iptables.go`, `proxy/transparentproxy.go`,
`rules/rules.go`, `dialer/dialer.go`, `dialer/sshdialer.go:161-231, 405-472`)

The connections that the daemon opens are connections of the machine as well: they
pass the chain of the script, and one that is redirected comes back to the
transparent proxy, which dials for it. That dial waits for another connection, for the
one connector of the ssh dialer too, which tries one address at a time.
-/

namespace SshTunnel.Interception

open Lib.Net (Text IP Byte byteOf decText dottedText to4 contains netText)
open Lib.Runs Lib.Chains
open IptablesScript
open HostPort (remoteAddr recordIP recordPort)
open Proxies (Opening handleConnection)

/-- A TCP connection over IPv4 that a program of the machine opens. -/
structure Leg where
  ip : IP
  port : Fin 65536
  four : ip.length = 4
  deriving DecidableEq

def Leg.addr (l : Leg) : Text := dottedText l.ip ++ ':' :: decText l.port.val

/-- The record of the kernel for the destination of a redirected connection. -/
def Leg.multiaddr (l : Leg) : Fin 16 → Byte := fun i =>
  (2 :: 0 :: byteOf (l.port.val / 256) :: byteOf l.port.val :: l.ip).getD i.val 0

/-- `connects` gives the connection that `net.Dial` opens for an address, if it is one
over IPv4; `claims` and `depth` are those of `Table.verdict`. -/
structure Env (Conn : Type) where
  denv : Dialers.Env Conn
  ipt : Iptables
  claims : Text → Option Text → Packet → Bool
  depth : ℕ
  connects : Text → Option Leg

/-- What package net makes of an IPv4 address and a port. -/
structure Env.Literal {Conn : Type} (env : Env Conn) : Prop where
  resolves : ∀ l : Leg, ∃ ip, env.denv.resolveTCPAddr Proxies.tcp l.addr = some ip ∧
    to4 ip = some l.ip
  connects : ∀ l : Leg, env.connects l.addr = some l

/-- A connection that is opened now, or the one of the connector that runs. -/
inductive Party where
  | opened (l : Leg)
  | sshConnector
  deriving DecidableEq

/-- A running connector: the addresses it has not come to, and what its connection to the
present one waits for, which is settled when it is dialled. -/
structure SSHConnector where
  untried : List Connector.SSHAddress
  awaits : List Party

/-- The machine: its tables, the proxies and tables of the daemon, and of the ssh dialer
whether it has a client that works and its connector. -/
structure State where
  tables : Tables
  proxies : List Control.Proxy
  daemon : Dialers.State
  client : Bool
  sshConnector : Option SSHConnector

def init (ts : Tables) : State := ⟨ts, [], Dialers.init, false, none⟩

inductive Action where
  | call (c : Dialers.Call)
  | startProxy (p : Control.Proxy)
  /-- The script is emitted and run; `listed` says whether its two requests succeed. -/
  | script (listed : Bool)
  /-- A dial or a `connect` request starts a connector where none runs. -/
  | getConnector
  /-- The dial or the handshake with the present address fails. -/
  | attemptFails
  | attemptSucceeds
  /-- A dial gives the client up. -/
  | clientLost
  | restart

section Machine

variable {Conn : Type} (env : Env Conn)

/-- The connection of a program goes to a transparent proxy. -/
def Env.redirects (s : State) (l : Leg) : Bool :=
  match s.tables.nat.verdict env.claims env.depth output none ⟨.tcp, l.ip, l.port.val⟩ with
  | some (.target (.redirect port)) =>
    s.proxies.any fun p => p.proxyType = "transparent".toList && p.proxyPort = port
  | _ => false

/-- What a dial of a proxy waits for. The ssh dialer opens a channel of its client; without
one it waits for the connector. -/
def Env.dials (s : State) (o : Opening) : List Party :=
  match o.via env.denv s.daemon with
  | some .netDial => (env.connects o.addr).toList.map .opened
  | some (.impl (.socks5 a)) => (env.connects a).toList.map .opened
  | some (.impl (.ssh true)) =>
    if s.client || s.sshConnector.isNone then [] else [.sshConnector]
  | _ => []

/-- What a connection waits for before it leads to where it was opened to. -/
def Env.awaits (s : State) : Party → List Party
  | .opened l =>
    if env.redirects s l then
      (handleConnection .ruleSet (some (remoteAddr l.multiaddr))).flatMap (env.dials s)
    else []
  | .sshConnector => (s.sshConnector.map (·.awaits)).getD []

/-- The loop of `connect` over the addresses that are left, up to the next dial. -/
def Env.tries (s : State) : List Connector.SSHAddress → State
  | [] => { s with sshConnector := none }
  | a :: untried =>
    let running := { s with sshConnector := some ⟨untried, []⟩ }
    let awaits := (env.connects a.host).toList.flatMap fun l => env.awaits running (.opened l)
    { s with sshConnector := some ⟨untried, awaits⟩ }

def State.script (s : State) (listed : Bool) : List Command :=
  if listed then emitted (some s.proxies) (some (Rules.serverListRules s.daemon.rules))
  else emitted none none

/-- The handshake has no deadline, and the proxy keeps the connection of a connector that
waits for itself until the connector ends. -/
def step (s : State) : Action → Option State
  | .call c => some { s with daemon := (s.daemon.handle env.denv c).1 }
  | .startProxy p => some { s with proxies := s.proxies ++ [p] }
  | .script listed =>
    some { s with tables := (runScript env.ipt (s.script listed) s.tables).1 }
  | .getConnector =>
    match s.sshConnector, s.daemon.sshDialer with
    | none, some d => some (env.tries s d.addresses)
    | _, _ => none
  | .attemptFails =>
    match s.sshConnector with
    | some c => if .sshConnector ∈ c.awaits then none else some (env.tries s c.untried)
    | none => none
  | .attemptSucceeds =>
    match s.sshConnector with
    | some c =>
      if .sshConnector ∈ c.awaits then none
      else some { s with client := true, sshConnector := none }
    | none => none
  | .clientLost => if s.client then some { s with client := false } else none
  | .restart =>
    some { s with proxies := [], daemon := Dialers.init, client := false, sshConnector := none }

/-- The daemon is not started anew. -/
def Stays : State → Action → Prop := fun _ a => a ≠ .restart

end Machine

/-! ### The destination of a redirected connection -/

section Destination

theorem byteOf_val (n : ℕ) : (byteOf n).val = n % 256 := rfl

theorem recordIP_multiaddr (l : Leg) : recordIP l.multiaddr = l.ip := by
  obtain ⟨ip, port, four⟩ := l
  match ip, four with
  | [a, b, c, d], _ => rfl

theorem recordPort_multiaddr (l : Leg) : recordPort l.multiaddr = l.port.val := by
  have hport := l.port.isLt
  show (byteOf (l.port.val / 256)).val * 256 + (byteOf l.port.val).val = l.port.val
  rw [byteOf_val, byteOf_val]
  omega

/-- The transparent proxy dials the address that the program dialled. -/
theorem remoteAddr_multiaddr (l : Leg) : remoteAddr l.multiaddr = l.addr := by
  rw [remoteAddr, HostPort.getOriginalDst_text, HostPort.getOriginalDst_port, recordIP_multiaddr,
    recordPort_multiaddr, List.append_assoc]
  rfl

theorem contains_to4 {n : Lib.Net.IPNet} {ip a : IP} (h : to4 ip = some a) :
    contains n ip = contains n a := by
  have ha : to4 a = some a := by
    rw [to4, if_pos (Lib.Net.to4_length h)]
  rw [contains, contains]
  cases Lib.Net.networkNumberAndMask n with
  | none => rfl
  | some nm => simp only [Lib.Net.inNetwork, h, ha, Option.getD_some]

end Destination

/-! ### What the tables redirect -/

/-- The rules of a script stand in its own chains. -/
def Confined (t : Table) : Prop :=
  ∀ c ∈ t, ∀ a, .append a ∈ c.entries → c.name = sshtunnel ∨ c.name = prerouting

/-- The TCP connections that the tables name are those of networks of the rules. -/
def State.Covered (s : State) : Prop :=
  ∀ chain a, .append a ∈ s.tables.nat.entries chain → a.protocol = .tcp →
    ∃ r ∈ s.daemon.rules.rules, a.dest = some (netText r.ipNet)

structure Inv (ipt : Iptables) (ts : Tables) (s : State) : Prop where
  cleaned : s.tables.cleaned ipt = ts.cleaned ipt
  history : ∃ reqs, s.daemon.rules = Rules.addRules reqs

section Tables

variable {ipt : Iptables} {t : Table} {chain : Text}

theorem mem_entries {e : Entry} (h : e ∈ t.entries chain) : ∃ c ∈ t, e ∈ c.entries := by
  unfold Table.entries at h
  cases hf : t.find? fun c => c.name = chain with
  | none =>
    rw [hf] at h
    cases h
  | some c =>
    rw [hf] at h
    exact ⟨c, List.mem_of_find?_eq_some hf, h⟩

/-- The cleaning drops the rules of a script. -/
theorem cleaned_confined (ht : Confined t) (a : Append) :
    .append a ∉ (Table.cleaned ipt t).entries chain := by
  intro h
  obtain ⟨c', hc', ha⟩ := mem_entries h
  obtain ⟨c, hc, rfl⟩ := List.mem_map.mp hc'
  obtain ⟨hc, hkept⟩ := List.mem_filter.mp hc
  obtain ⟨ha, hline⟩ := List.mem_filter.mp ha
  obtain ⟨name, policy, es⟩ := c
  rcases ht _ hc a ha with hname | hname
  · have hname : name = sshtunnel := hname
    subst hname
    rw [chainLine_sshtunnel] at hkept
    cases hkept
  · have hname : name = prerouting := hname
    subst hname
    rw [ruleLine_prerouting] at hline
    cases hline

theorem mem_effect {c : Command} {es : List Entry} {a : Append}
    (h : .append a ∈ c.effect chain es) : .append a ∈ es ∨ c = .append a := by
  cases c with
  | newChain name => exact .inl h
  | flush name =>
    simp only [Command.effect] at h
    split at h
    · cases h
    · exact .inl h
  | insertJump name position target =>
    simp only [Command.effect] at h
    split at h
    · rcases List.eq_or_mem_of_mem_insertIdx h with he | h
      · cases he
      · exact .inl h
    · exact .inl h
  | append b =>
    simp only [Command.effect] at h
    split at h
    · rcases List.mem_append.mp h with h | h
      · exact .inl h
      · cases List.mem_singleton.mp h
        exact .inr rfl
    · exact .inl h

/-- Also a script that stops in the middle appends no rules but its own. -/
theorem mem_execAll {script : List Command} {a : Append}
    (h : .append a ∈ (execAll ipt t script).1.entries chain) :
    .append a ∈ t.entries chain ∨ .append a ∈ script := by
  induction script generalizing t with
  | nil => exact .inl h
  | cons c cs ih =>
    simp only [execAll] at h
    split at h
    · exact .inl h
    · rename_i u hu
      rcases ih h with h | h
      · rw [exec_entries hu] at h
        rcases mem_effect h with h | rfl
        · exact .inl h
        · exact .inr (List.mem_cons_self ..)
      · exact .inr (List.mem_cons_of_mem _ h)

theorem execute_tcp {proxies : List Control.Proxy} {rules : List Control.Rule} {a : Append}
    (h : .append a ∈ execute proxies rules) (htcp : a.protocol = .tcp) :
    ∃ q ∈ rules, a.dest = some q.cidr := by
  have hnet : ∀ {rules' : List Control.Rule} {target : Target}, (∀ q ∈ rules', q ∈ rules) →
      .append a ∈ rules'.flatMap (fun r => forNetwork r.cidr target) →
        ∃ q ∈ rules, a.dest = some q.cidr := by
    intro rules' target hsub hm
    obtain ⟨q, hq, hm⟩ := List.mem_flatMap.mp hm
    simp only [forNetwork, List.mem_cons, Command.append.injEq, List.not_mem_nil, or_false] at hm
    rcases hm with rfl | rfl <;> exact ⟨q, hsub q hq, rfl⟩
  simp only [execute, List.mem_append] at h
  rcases h with ((h | h) | h) | h
  · simp [prologue] at h
  · exact hnet (fun q hq => List.mem_of_mem_filter hq) h
  · exact hnet (fun q hq => List.mem_of_mem_filter hq) h
  · split at h
    · simp only [forDNS, List.mem_cons, Command.append.injEq, List.not_mem_nil, or_false] at h
      rcases h with rfl | rfl <;> cases htcp
    · cases h

/-- A target that a chain gives is that of a rule of the script that matches. -/
theorem verdict_target {claims : Text → Option Text → Packet → Bool} {n : ℕ}
    {iface : Option Text} {p : Packet} {target : Target}
    (h : t.verdict claims n chain iface p = some (.target target)) :
    ∃ chain' a, .append a ∈ t.entries chain' ∧ a.matches p = true := by
  induction n generalizing chain with
  | zero => cases h
  | succ n ih =>
    rw [verdict_succ] at h
    obtain ⟨e, he, hd⟩ := List.exists_of_findSome?_eq_some h
    cases e with
    | append a =>
      simp only [Table.decides, Option.ite_none_right_eq_some] at hd
      exact ⟨chain, a, he, ((Bool.and_eq_true ..).mp hd.1).2⟩
    | jump name => exact ih hd
    | foreign spec =>
      simp only [Table.decides] at hd
      split at hd <;> cases hd

end Tables

section Rules

variable {rs : Rules.RuleSet} {reqs : List Control.Rule}

/-- The networks of the rules are never given up. -/
theorem serverAddRule_networks (q : Control.Rule) {r : Rules.Rule} (hr : r ∈ rs.rules) :
    ∃ r' ∈ (Rules.serverAddRule rs q).1.rules, netText r'.ipNet = netText r.ipNet := by
  unfold Rules.serverAddRule
  cases Rules.unMarshall q with
  | error err => exact ⟨r, hr, rfl⟩
  | ok x =>
    have hkey : netText r.ipNet ∈ rs.rules.map fun r => netText r.ipNet :=
      List.mem_map.mpr ⟨r, hr, rfl⟩
    have hkeys : netText r.ipNet ∈ (rs.addRule x).rules.map fun r => netText r.ipNet :=
      Lib.Upsert.key_mem_upsert x hkey
    obtain ⟨r', hr', ht⟩ := List.mem_map.mp hkeys
    exact ⟨r', hr', ht⟩

/-- The text of a rule matches what the rule contains. -/
theorem destMatches_netText {r : Rules.Rule} (hr : r ∈ (Rules.addRules reqs).rules) (d : IP) :
    destMatches (netText r.ipNet) d = contains r.ipNet d := by
  obtain ⟨nn, l, hc⟩ := Rules.addRules_canonical hr
  obtain ⟨a, n', hp, he⟩ := Lib.Net.parseCIDR_read hc
  simp only [destMatches, hp]
  exact Lib.Net.contains_congr he d

end Rules

section Invariant

variable {Conn : Type} {env : Env Conn} {ts : Tables} {s u : State} {a : Action}

theorem handle_rules (env : Env Conn) (s : Dialers.State) (c : Dialers.Call) :
    (s.handle env.denv c).1.rules = s.rules ∨
      ∃ q, (s.handle env.denv c).1.rules = (Rules.serverAddRule s.rules q).1 := by
  unfold Dialers.State.handle
  split
  · rename_i q hq
    refine .inr ⟨q, ?_⟩
    split <;> rename_i he <;> rw [he]
  · exact .inl (Dialers.addDialer_rules s c.loads _ _)
  · exact .inl (Dialers.addSSHKey_rules s c.loads _ _)

theorem script_cleaned (s : State) (listed : Bool) :
    (runScript env.ipt (s.script listed) s.tables).1.cleaned env.ipt =
      s.tables.cleaned env.ipt := by
  refine runScript_cleaned ?_ s.tables
  unfold State.script
  split <;> exact emitted_ours _ _

/-- The connector only starts, goes on or ends. -/
theorem step_connector (h : step env s a = some u)
    (ha : a = .getConnector ∨ a = .attemptFails ∨ a = .attemptSucceeds ∨ a = .clientLost) :
    u.tables = s.tables ∧ u.daemon = s.daemon := by
  have htries (as : List Connector.SSHAddress) :
      (env.tries s as).tables = s.tables ∧ (env.tries s as).daemon = s.daemon := by
    cases as <;> exact ⟨rfl, rfl⟩
  rcases ha with rfl | rfl | rfl | rfl <;> simp only [step] at h
  · split at h <;> cases h
    exact htries _
  · split at h
    · split at h <;> cases h
      exact htries _
    · cases h
  · split at h
    · split at h <;> cases h
      exact ⟨rfl, rfl⟩
    · cases h
  · split at h <;> cases h
    exact ⟨rfl, rfl⟩

theorem inv_step (hi : Inv env.ipt ts s) (h : step env s a = some u) : Inv env.ipt ts u := by
  have hkeep (hu : u.tables = s.tables ∧ u.daemon = s.daemon) : Inv env.ipt ts u := by
    refine ⟨?_, ?_⟩
    · rw [hu.1]
      exact hi.cleaned
    · rw [hu.2]
      exact hi.history
  obtain ⟨hcleaned, reqs, hreqs⟩ := hi
  cases a with
  | call c =>
    cases h
    refine ⟨hcleaned, ?_⟩
    rcases handle_rules env s.daemon c with he | ⟨q, he⟩
    · exact ⟨reqs, he.trans hreqs⟩
    · exact ⟨reqs ++ [q], by rw [he, hreqs, Rules.addRules_concat]⟩
  | startProxy p =>
    cases h
    exact ⟨hcleaned, reqs, hreqs⟩
  | script listed =>
    cases h
    exact ⟨(script_cleaned s listed).trans hcleaned, reqs, hreqs⟩
  | getConnector | attemptFails | attemptSucceeds | clientLost =>
    exact hkeep (step_connector h (by simp))
  | restart =>
    cases h
    exact ⟨hcleaned, [], rfl⟩

theorem inv_reach (h : Reach (step env) (init ts) s) : Inv env.ipt ts s :=
  h.invariant ⟨rfl, [], rfl⟩ fun _ _ _ hi _ hs => inv_step hi hs

/-- A script that is run now covers no more than the rules. -/
theorem covered_script (hts : Confined ts.nat) (hi : Inv env.ipt ts s) {listed : Bool}
    (h : step env s (.script listed) = some u) : u.Covered := by
  cases h
  intro chain a ha htcp
  have hclean : (s.tables.cleaned env.ipt).nat = Table.cleaned env.ipt ts.nat :=
    congrArg Tables.nat hi.cleaned
  rcases mem_execAll (show .append a ∈ (execAll env.ipt (s.tables.cleaned env.ipt).nat
      (s.script listed)).1.entries chain from ha) with h | h
  · rw [hclean] at h
    exact absurd h (cleaned_confined hts a)
  · unfold State.script at h
    split at h
    · obtain ⟨q, hq, hdest⟩ := execute_tcp h htcp
      obtain ⟨r, hr, rfl⟩ := List.mem_map.mp hq
      exact ⟨r, hr, hdest⟩
    · cases h

theorem covered_step (hts : Confined ts.nat) (hi : Inv env.ipt ts s) (hc : s.Covered)
    (hstays : Stays s a) (h : step env s a = some u) : u.Covered := by
  cases a with
  | call c =>
    cases h
    intro chain b hb htcp
    obtain ⟨r, hr, hdest⟩ := hc chain b hb htcp
    rcases handle_rules env s.daemon c with he | ⟨q, he⟩
    · exact ⟨r, by rw [he]; exact hr, hdest⟩
    · obtain ⟨r', hr', ht⟩ := serverAddRule_networks q hr
      exact ⟨r', by rw [he]; exact hr', by rw [ht]; exact hdest⟩
  | startProxy p =>
    cases h
    exact hc
  | script listed => exact covered_script hts hi h
  | getConnector | attemptFails | attemptSucceeds | clientLost =>
    obtain ⟨htables, hdaemon⟩ := step_connector h (by simp)
    rw [State.Covered, htables, hdaemon]
    exact hc
  | restart => exact absurd rfl hstays

end Invariant

/-- What the rules of a script redirect or accept is covered by a rule of the daemon, as
long as the same daemon runs: whatever requests it serves, and wherever a script stopped,
the transparent proxy never dials a redirected connection directly, which would be
redirected again. -/
theorem redirected_by_rule {Conn : Type} (env : Env Conn) (hliteral : env.Literal) (ts : Tables)
    (hts : Confined ts.nat) {s₁ s₂ s₃ : State} (listed : Bool)
    (h₁ : Reach (step env) (init ts) s₁) (hscript : step env s₁ (.script listed) = some s₂)
    (h₃ : Run (step env) Stays s₂ s₃) (n : ℕ) (chain : Text) (iface : Option Text) (l : Leg)
    (target : Target) (hverdict : s₃.tables.nat.verdict env.claims n chain iface
      ⟨.tcp, l.ip, l.port.val⟩ = some (.target target)) :
    ∃ r ∈ s₃.daemon.rules.rules, contains r.ipNet l.ip = true ∧
      ∀ o ∈ handleConnection .ruleSet (some (remoteAddr l.multiaddr)),
        o.via env.denv s₃.daemon ≠ some .netDial := by
  have hinv : Inv env.ipt ts s₂ := inv_step (inv_reach h₁) hscript
  obtain ⟨⟨-, reqs, hreqs⟩, hcovered⟩ : Inv env.ipt ts s₃ ∧ s₃.Covered := by
    refine Run.invariant (P := fun s => Inv env.ipt ts s ∧ s.Covered) h₃
      ⟨hinv, covered_script hts (inv_reach h₁) hscript⟩ fun t a u hi hg hs => ?_
    exact ⟨inv_step hi.1 hs, covered_step hts hi.1 hi.2 hg hs⟩
  obtain ⟨chain', a, ha, hmatch⟩ := verdict_target hverdict
  simp only [Append.matches, Bool.and_eq_true, decide_eq_true_eq] at hmatch
  obtain ⟨⟨hprotocol, hdest⟩, -⟩ := hmatch
  obtain ⟨r, hr, hnet⟩ := hcovered chain' a ha hprotocol
  rw [hnet] at hdest
  have hcontains : contains r.ipNet l.ip = true := by
    rw [← destMatches_netText (hreqs ▸ hr) l.ip]
    exact hdest
  refine ⟨r, hr, hcontains, fun o ho => ?_⟩
  cases List.mem_singleton.mp ho
  obtain ⟨ip, hresolve, hip⟩ := hliteral.resolves l
  have hmatching : s₃.daemon.matching env.denv Proxies.tcp (remoteAddr l.multiaddr) ≠ none := by
    rw [remoteAddr_multiaddr, Dialers.State.matching, hresolve, Option.bind_some]
    intro hnone
    have hno := List.find?_eq_none.mp hnone r hr
    rw [contains_to4 hip, hcontains] at hno
    exact hno rfl
  have hruled : ¬Opening.Bypasses env.denv s₃.daemon
      ⟨.dialer .ruleSet, Proxies.tcp, remoteAddr l.multiaddr⟩ :=
    Proxies.not_bypasses_of_dialer rfl s₃.daemon
  exact fun hvia => hruled ⟨hvia, hmatching⟩

/-! ### What a connection waits for -/

/-- The server of a control request registers a socks5 dialer under one name only. -/
def OneSocks (s : Dialers.State) : Prop :=
  ∀ name info a, s.dialers name = some info → info.impl = .socks5 a → name = Dialers.default

section OneSocks

variable {Conn : Type} {denv : Dialers.Env Conn} {s : Dialers.State}

theorem OneSocks.register (hs : OneSocks s) {name : Text} {info : Dialers.DialerInfo}
    (hn : ∀ a, info.impl = .socks5 a → name = Dialers.default) :
    OneSocks (s.register name info) := by
  intro name' info' a h hi
  simp only [Dialers.State.register, Function.update_apply] at h
  split at h
  · rename_i he
    cases h
    exact he.trans (hn a hi)
  · exact hs name' info' a h hi

theorem OneSocks.makeSSHDialer (hs : OneSocks s) (loads : Bool) :
    OneSocks (s.makeSSHDialer loads) := by
  unfold Dialers.State.makeSSHDialer
  split
  · exact hs
  · have hs' : OneSocks { s with sshDialer := if loads then some ⟨[], [], []⟩ else none } := hs
    dsimp only
    split
    · exact hs'.register fun a hi => by cases hi
    · exact hs'.register fun a hi => by cases hi

theorem OneSocks.handle (hs : OneSocks s) (c : Dialers.Call) :
    OneSocks (s.handle denv c).1 := by
  have hname : (if Dialers.default = [] then Dialers.default else Dialers.default) =
      Dialers.default := ite_self _
  unfold Dialers.State.handle
  split
  · split <;> exact hs
  · simp only [Dialers.addDialer, hname]
    split
    · split
      · exact hs
      · exact hs.register fun _ _ => rfl
    · split
      · exact hs.makeSSHDialer c.loads
      · rename_i d hd
        have hs' : OneSocks { s.makeSSHDialer c.loads with sshDialer := d } :=
          hs.makeSSHDialer c.loads
        exact hs'.register fun _ _ => rfl
  · simp only [Dialers.addSSHKey]
    split <;> exact hs.makeSSHDialer c.loads

end OneSocks

section Passage

variable {Conn : Type} {env : Env Conn} {ts : Tables} {s t u : State} {l : Leg} {x : Party}
  {a : Action}

/-- The connection of the connector came to the transparent proxy and was dialled through
the ssh dialer. -/
def State.Stuck (s : State) : Prop := ∃ c, s.sshConnector = some c ∧ .sshConnector ∈ c.awaits

end Passage

section Example

/-- The address and the port of an IPv4 literal. -/
def literal (addr : Text) : Option Leg :=
  match Lib.HostPort.splitHostPort addr with
  | .ok (host, port) =>
    match Lib.Net.parseAddr host with
    | some a =>
      if h : a.bytes.length = 4 ∧ Nat.ofDigitChars 10 port 0 < 65536 then
        some ⟨a.bytes, ⟨_, h.2⟩, h.1⟩
      else none
    | none => none
  | .error _ => none

def sampleEnv : Env Unit where
  denv :=
    { Dialers.sampleEnv with
      resolveTCPAddr := fun _ addr => (literal addr).map Leg.ip
      parseURL := fun uri =>
        if uri = "ssh://u@10.0.0.1:22".toList then
          some ⟨"ssh".toList, "u".toList, "10.0.0.1:22".toList, "22".toList⟩
        else none }
  ipt := ⟨fun _ => "-p tcp".toList, fun _ => true⟩
  claims := fun _ _ _ => false
  depth := 2
  connects := literal

theorem literal_addr (l : Leg) : literal l.addr = some l := by
  have hsplit : Lib.HostPort.splitHostPort l.addr =
      .ok (dottedText l.ip, decText l.port.val) := by
    rw [← remoteAddr_multiaddr, HostPort.remoteAddr_splits, recordIP_multiaddr,
      recordPort_multiaddr]
  have hport : Nat.ofDigitChars 10 (decText l.port.val) 0 = l.port.val :=
    Nat.ofDigitChars_ten_toDigits
  have hrange : l.ip.length = 4 ∧ Nat.ofDigitChars 10 (decText l.port.val) 0 < 65536 :=
    ⟨l.four, by rw [hport]; exact l.port.isLt⟩
  rw [literal, hsplit]
  simp only [Lib.Net.parseAddr_dottedText l.ip l.four]
  rw [dif_pos hrange]
  congr

theorem sampleEnv_literal : sampleEnv.Literal where
  resolves := fun l => ⟨l.ip, by
    show (literal l.addr).map Leg.ip = some l.ip
    rw [literal_addr]
    rfl, if_pos l.four⟩
  connects := literal_addr

def emptyTables : Tables :=
  ⟨[⟨prerouting, "ACCEPT [0:0]".toList, []⟩, ⟨output, "ACCEPT [0:0]".toList, []⟩], []⟩

/-- An ssh dialer, a rule for a network in which its server stands, and a proxy. -/
def setup : List Action :=
  [.call ⟨.addDialer "u@10.0.0.1:22".toList, true⟩,
    .call ⟨.addRule ⟨"10.0.0.0/8".toList, []⟩, true⟩,
    .startProxy ⟨"transparent".toList, 8080, []⟩]

def stateAfter (as : List Action) : State :=
  (exec (step sampleEnv) (init emptyTables) as).getD (init emptyTables)

def web : Leg := ⟨[10, 2, 3, 4], ⟨443, by decide⟩, rfl⟩

theorem emptyTables_confined : Confined emptyTables.nat := by
  intro c hc a ha
  simp only [emptyTables, List.mem_cons, List.not_mem_nil, or_false] at hc
  rcases hc with rfl | rfl <;> cases ha

def exclude : Action := .call ⟨.addRule ⟨"10.2.0.0/16".toList, direct⟩, true⟩

/-- Also after a rule that takes a part of the network out again. -/
theorem web_by_rule : ∃ r ∈ (stateAfter (setup ++ [.script true, exclude])).daemon.rules.rules,
    contains r.ipNet [10, 2, 3, 4] = true ∧
      ∀ o ∈ handleConnection .ruleSet (some (remoteAddr web.multiaddr)),
        o.via sampleEnv.denv (stateAfter (setup ++ [.script true, exclude])).daemon ≠
          some .netDial := by
  have hexec : exec (step sampleEnv) (init emptyTables) setup = some (stateAfter setup) := rfl
  have hscript : step sampleEnv (stateAfter setup) (.script true) =
      some (stateAfter (setup ++ [.script true])) := rfl
  have hexclude : step sampleEnv (stateAfter (setup ++ [.script true])) exclude =
      some (stateAfter (setup ++ [.script true, exclude])) := rfl
  have hstays : Stays (stateAfter (setup ++ [.script true])) exclude := by
    intro h
    cases h
  exact redirected_by_rule sampleEnv sampleEnv_literal emptyTables emptyTables_confined true
    (reach_of_exec hexec) hscript (.tail .refl hstays hexclude) 2 output none web
    (.redirect 8080) (by decide)

end Example

end SshTunnel.Interception
