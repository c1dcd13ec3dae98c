import Mathlib.Data.List.Find
import SshTunnel.IptablesScript

/-!
# Running the iptables script (`commands/iptables.go:23-27`, `46-77`)

The script first drops lines of `iptables-save` by their text, those that name
`sshtunnel` and the rules of `PREROUTING`, and then builds its chain with `set -e`.
A rule of somebody else is known by the text that `iptables-save` prints for it.
-/

namespace SshTunnel.IptablesScript

open Lib.Net

/-- A rule of a chain: one that the script appends, a jump, or another one. -/
inductive Entry where
  | append (rule : Append)
  | jump (target : Text)
  | foreign (spec : Text)
  deriving DecidableEq

structure Chain where
  name : Text
  policy : Text
  entries : List Entry
  deriving DecidableEq

abbrev Table := List Chain

structure Tables where
  nat : Table
  others : List Table
  deriving DecidableEq

/-- What `iptables` does with an appended rule: `spec` is the text that
`iptables-save` prints behind its chain, `accepts` says that the arguments are
taken. -/
structure Iptables where
  spec : Append → Text
  accepts : Append → Bool

def output : Text := "OUTPUT".toList

section Cleaning

variable (ipt : Iptables)

def chainLine (c : Chain) : Text := ":".toList ++ c.name ++ " ".toList ++ c.policy

def ruleLine (chain : Text) (e : Entry) : Text :=
  "-A ".toList ++ chain ++ " ".toList ++
    match e with
    | .append a => ipt.spec a
    | .jump target => "-j ".toList ++ target
    | .foreign spec => spec

/-- `grep -v sshtunnel | grep -v "^-A PREROUTING"` -/
def kept (line : Text) : Bool :=
  !decide (sshtunnel <:+: line) && !decide ("-A ".toList ++ prerouting <+: line)

def Chain.cleaned (c : Chain) : Chain :=
  { c with entries := c.entries.filter fun e => kept (ruleLine ipt c.name e) }

/-- What `iptables-restore` loads from the lines that are left. -/
def Table.cleaned (t : Table) : Table :=
  (t.filter fun c => kept (chainLine c)).map (Chain.cleaned ipt)

def Tables.cleaned (ts : Tables) : Tables :=
  ⟨Table.cleaned ipt ts.nat, ts.others.map (Table.cleaned ipt)⟩

end Cleaning

section Commands

variable (ipt : Iptables)

def Table.has (t : Table) (name : Text) : Bool := t.any fun c => c.name = name

def Table.entries (t : Table) (name : Text) : List Entry :=
  ((t.find? fun c => c.name = name).map Chain.entries).getD []

def Table.modify (t : Table) (name : Text) (f : List Entry → List Entry) : Table :=
  t.map fun c => if c.name = name then { c with entries := f c.entries } else c

/-- One `iptables -t nat` command; `none` is an exit status that `set -e` stops at. -/
def exec (t : Table) : Command → Option Table
  | .newChain name => if t.has name then none else some (t ++ [⟨name, "-".toList, []⟩])
  | .flush name => if t.has name then some (t.modify name fun _ => []) else none
  | .insertJump name position target =>
    if t.has name && t.has target && position ≤ (t.entries name).length + 1 then
      some (t.modify name fun es => es.insertIdx (position - 1) (.jump target))
    else none
  | .append a =>
    if t.has a.chain && ipt.accepts a then some (t.modify a.chain fun es => es ++ [.append a])
    else none

/-- The table after the commands, and whether all of them were executed. -/
def execAll (t : Table) : List Command → Table × Bool
  | [] => (t, true)
  | c :: cs =>
    match exec ipt t c with
    | none => (t, false)
    | some u => execAll u cs

/-- The commands behind the cleaning; when a request of the client fails, the
script ends there. -/
def emitted (proxies : Option (List Control.Proxy)) (rules : Option (List Control.Rule)) :
    List Command :=
  match proxies, rules with
  | some proxies, some rules => execute proxies rules
  | _, _ => []

def runScript (script : List Command) (ts : Tables) : Tables × Bool :=
  let cleaned := ts.cleaned ipt
  let (nat, ok) := execAll ipt cleaned.nat script
  ({ cleaned with nat := nat }, ok)

end Commands

/-! ### A script undoes the one before it -/

/-- A command that adds nothing but what the cleaning drops. -/
def Command.Ours : Command → Prop
  | .newChain name | .flush name => name = sshtunnel
  | .insertJump _ _ target => target = sshtunnel
  | .append a => a.chain = sshtunnel ∨ a.chain = prerouting

theorem execute_ours (proxies : List Control.Proxy) (rules : List Control.Rule) :
    ∀ c ∈ execute proxies rules, c.Ours := by
  have hnet : ∀ cidr target, ∀ c ∈ forNetwork cidr target, c.Ours := by
    intro cidr target c hc
    simp only [forNetwork, List.mem_cons, List.not_mem_nil, or_false] at hc
    rcases hc with rfl | rfl
    · exact .inl rfl
    · exact .inr rfl
  intro c hc
  simp only [execute, List.mem_append, List.mem_flatMap] at hc
  rcases hc with ((hc | ⟨r, -, hc⟩) | ⟨r, -, hc⟩) | hc
  · simp only [prologue, List.mem_cons, List.not_mem_nil, or_false] at hc
    rcases hc with rfl | rfl | rfl | rfl <;> rfl
  · exact hnet _ _ c hc
  · exact hnet _ _ c hc
  · split at hc
    · simp only [forDNS, List.mem_cons, List.not_mem_nil, or_false] at hc
      rcases hc with rfl | rfl
      · exact .inl rfl
      · exact .inr rfl
    · cases hc

theorem emitted_ours (proxies : Option (List Control.Proxy)) (rules : Option (List Control.Rule)) :
    ∀ c ∈ emitted proxies rules, c.Ours := by
  unfold emitted
  split
  · exact execute_ours _ _
  · intro c hc
    cases hc

section Lines

variable (ipt : Iptables) {chain : Text}

theorem kept_infix {line : Text} (h : sshtunnel <:+: line) : kept line = false := by
  simp [kept, h]

theorem chainLine_sshtunnel (policy : Text) (es : List Entry) :
    kept (chainLine ⟨sshtunnel, policy, es⟩) = false :=
  kept_infix ⟨":".toList, " ".toList ++ policy, by simp [chainLine]⟩

theorem ruleLine_jump : kept (ruleLine ipt chain (.jump sshtunnel)) = false := by
  refine kept_infix ⟨"-A ".toList ++ chain ++ " ".toList ++ "-j ".toList, [], ?_⟩
  simp [ruleLine]

theorem ruleLine_prerouting (e : Entry) : kept (ruleLine ipt prerouting e) = false := by
  have hp : "-A ".toList ++ prerouting <+: ruleLine ipt prerouting e :=
    (List.prefix_append ..).trans (List.prefix_append ..)
  simp only [kept, hp, decide_true, Bool.not_true, Bool.and_false]

end Lines

section Cleaned

variable {ipt : Iptables} {t u : Table}

theorem Chain.cleaned_cleaned (c : Chain) : (c.cleaned ipt).cleaned ipt = c.cleaned ipt := by
  simp [Chain.cleaned]

theorem cleaned_cleaned (t : Table) :
    Table.cleaned ipt (Table.cleaned ipt t) = Table.cleaned ipt t := by
  have hline : ∀ c : Chain, chainLine (c.cleaned ipt) = chainLine c := fun _ => rfl
  simp [Table.cleaned, List.filter_map, Function.comp_def, hline, Chain.cleaned_cleaned]

/-- A change that the cleaning of the chain does not see. -/
theorem cleaned_modify {name : Text} {f : List Entry → List Entry}
    (h : ∀ c : Chain, c.name = name → kept (chainLine c) = true →
      (f c.entries).filter (fun e => kept (ruleLine ipt name e)) =
        c.entries.filter fun e => kept (ruleLine ipt name e)) :
    Table.cleaned ipt (t.modify name f) = Table.cleaned ipt t := by
  induction t with
  | nil => rfl
  | cons c t ih =>
    have hc : Table.cleaned ipt [if c.name = name then { c with entries := f c.entries } else c] =
        Table.cleaned ipt [c] := by
      by_cases hn : c.name = name
      · have hk' : kept (chainLine { c with entries := f c.entries }) = kept (chainLine c) := rfl
        rw [if_pos hn]
        cases hk : kept (chainLine c) with
        | false => simp only [Table.cleaned, List.filter, hk', hk]
        | true =>
          have he := h c hn hk
          rw [← hn] at he
          simp only [Table.cleaned, List.filter_cons, hk', hk, if_true, List.filter_nil,
            List.map_cons, List.map_nil, Chain.cleaned, he]
      · rw [if_neg hn]
    have hsplit : ∀ (c : Chain) t, Table.cleaned ipt (c :: t) =
        Table.cleaned ipt [c] ++ Table.cleaned ipt t := by
      intro c t
      rw [← List.singleton_append, Table.cleaned, List.filter_append, List.map_append]
      rfl
    rw [Table.modify, List.map_cons, hsplit, hsplit c, hc]
    exact congrArg _ ih

theorem filter_insertIdx {p : Entry → Bool} {e : Entry} (he : p e = false) (es : List Entry)
    (n : ℕ) : (es.insertIdx n e).filter p = es.filter p := by
  induction es generalizing n with
  | nil => cases n <;> simp [he]
  | cons e' es ih =>
    cases n with
    | zero => simp [he]
    | succ n =>
      rw [List.insertIdx_succ_cons, List.filter_cons, List.filter_cons, ih]

theorem exec_cleaned {c : Command} (hc : c.Ours) (h : exec ipt t c = some u) :
    Table.cleaned ipt u = Table.cleaned ipt t := by
  cases c with
  | newChain name =>
    have hc : name = sshtunnel := hc
    subst hc
    simp only [exec, Option.ite_none_left_eq_some, Option.some.injEq] at h
    obtain ⟨-, rfl⟩ := h
    simp [Table.cleaned, chainLine_sshtunnel]
  | flush name =>
    have hc : name = sshtunnel := hc
    subst hc
    simp only [exec, Option.ite_none_right_eq_some, Option.some.injEq] at h
    obtain ⟨-, rfl⟩ := h
    refine cleaned_modify fun c hn hk => ?_
    obtain ⟨name, policy, es⟩ := c
    subst hn
    rw [chainLine_sshtunnel] at hk
    cases hk
  | insertJump name position target =>
    have hc : target = sshtunnel := hc
    subst hc
    simp only [exec, Option.ite_none_right_eq_some, Option.some.injEq] at h
    obtain ⟨-, rfl⟩ := h
    refine cleaned_modify fun c hn hk => ?_
    rw [filter_insertIdx (ruleLine_jump ipt)]
  | append a =>
    simp only [exec, Option.ite_none_right_eq_some, Option.some.injEq] at h
    obtain ⟨-, rfl⟩ := h
    refine cleaned_modify fun c hn hk => ?_
    rcases hc with hc | hc
    · obtain ⟨name, policy, es⟩ := c
      have hname : name = sshtunnel := hn.trans hc
      subst hname
      rw [chainLine_sshtunnel] at hk
      cases hk
    · rw [hc, List.filter_append]
      simp [ruleLine_prerouting]

/-- Wherever the commands stop, the cleaning undoes what they have done. -/
theorem execAll_cleaned {script : List Command} (hs : ∀ c ∈ script, c.Ours) (t : Table) :
    Table.cleaned ipt (execAll ipt t script).1 = Table.cleaned ipt t := by
  induction script generalizing t with
  | nil => rfl
  | cons c cs ih =>
    simp only [execAll]
    split
    · rfl
    · rename_i u hu
      rw [ih (fun c' hc' => hs c' (.tail _ hc')) u]
      exact exec_cleaned (hs c (.head _)) hu

theorem runScript_cleaned {script : List Command} (hs : ∀ c ∈ script, c.Ours) (ts : Tables) :
    Tables.cleaned ipt (runScript ipt script ts).1 = ts.cleaned ipt := by
  have hothers : ∀ ls : List Table,
      (ls.map (Table.cleaned ipt)).map (Table.cleaned ipt) = ls.map (Table.cleaned ipt) := by
    intro ls
    rw [List.map_map]
    exact List.map_congr_left fun t _ => cleaned_cleaned t
  simp only [runScript, Tables.cleaned, execAll_cleaned hs, cleaned_cleaned, hothers]

end Cleaned

/-- The script leaves no trace of an earlier one, even of one that stopped in the
middle or was emitted for other proxies and rules: the tables and the exit status
are as if only the later one had been run. -/
theorem rerun_absorbs (ipt : Iptables) (ts : Tables)
    (proxies proxies' : Option (List Control.Proxy)) (rules rules' : Option (List Control.Rule)) :
    runScript ipt (emitted proxies' rules') (runScript ipt (emitted proxies rules) ts).1 =
      runScript ipt (emitted proxies' rules') ts := by
  have hclean : Tables.cleaned ipt (runScript ipt (emitted proxies rules) ts).1 = ts.cleaned ipt :=
    runScript_cleaned (emitted_ours proxies rules) ts
  simp only [runScript] at hclean ⊢
  rw [hclean]

/-! ### What the chains decide -/

/-- The match of a rule for a packet that came in on `iface`, if on any. -/
def Append.matchesOn (a : Append) (iface : Option Text) (p : Packet) : Bool :=
  (match a.iface with | some i => decide (iface = some i) | none => true) && a.matches p

inductive Verdict where
  | target (t : Target)
  | foreign (spec : Text)
  deriving DecidableEq

section Verdicts

variable (claims : Text → Option Text → Packet → Bool) (t : Table)

/-- The first rule of the chain that decides; `claims` says which packets a rule
of somebody else decides, and `n` bounds the depth of the jumps. -/
def Table.verdict : ℕ → Text → Option Text → Packet → Option Verdict
  | 0, _, _, _ => none
  | n + 1, chain, iface, p =>
    (t.entries chain).findSome? fun
      | .append a => if a.matchesOn iface p then some (.target a.target) else none
      | .jump target => Table.verdict n target iface p
      | .foreign spec => if claims spec iface p then some (.foreign spec) else none

end Verdicts

section Entries

variable {ipt : Iptables} {t u : Table}

theorem entries_cons (c : Chain) (t : Table) (chain : Text) :
    Table.entries (c :: t) chain = if c.name = chain then c.entries else t.entries chain := by
  by_cases hc : c.name = chain <;> simp [Table.entries, hc]

theorem entries_modify {name : Text} {f : List Entry → List Entry} (h : t.has name = true)
    (chain : Text) :
    (t.modify name f).entries chain =
      if chain = name then f (t.entries chain) else t.entries chain := by
  have hgen : ∀ t : Table, (t.modify name f).entries chain =
      if chain = name ∧ t.has name = true then f (t.entries chain) else t.entries chain := by
    intro t
    induction t with
    | nil => simp [Table.modify, Table.has]
    | cons c t ih =>
      have hname : (if c.name = name then { c with entries := f c.entries } else c).name =
          c.name := by
        split <;> rfl
      rw [Table.modify, List.map_cons, entries_cons, entries_cons, hname]
      by_cases hc : c.name = chain
      · subst hc
        simp only [if_true, Table.has, List.any_cons]
        by_cases hn : c.name = name <;> simp [hn]
      · rw [if_neg hc, if_neg hc]
        refine ih.trans ?_
        by_cases hn : chain = name
        · have hne : c.name ≠ name := fun he => hc (he.trans hn.symm)
          simp [Table.has, hne]
        · simp [hn]
  rw [hgen t, h]
  simp only [and_true]

/-- What a successful command does to the rules of a chain. -/
def Command.effect (c : Command) (chain : Text) (es : List Entry) : List Entry :=
  match c with
  | .newChain _ => es
  | .flush name => if chain = name then [] else es
  | .insertJump name position target =>
    if chain = name then es.insertIdx (position - 1) (.jump target) else es
  | .append a => if chain = a.chain then es ++ [.append a] else es

theorem exec_entries {c : Command} (h : exec ipt t c = some u) (chain : Text) :
    u.entries chain = c.effect chain (t.entries chain) := by
  cases c with
  | newChain name =>
    simp only [exec, Option.ite_none_left_eq_some, Option.some.injEq] at h
    obtain ⟨hno, rfl⟩ := h
    show Table.entries (t ++ [⟨name, "-".toList, []⟩]) chain = t.entries chain
    simp only [Table.entries, List.find?_append]
    cases hf : t.find? fun c => decide (c.name = chain) with
    | some c => rfl
    | none => by_cases hc : name = chain <;> simp [hc]
  | flush name =>
    simp only [exec, Option.ite_none_right_eq_some, Option.some.injEq] at h
    obtain ⟨hhas, rfl⟩ := h
    exact entries_modify hhas chain
  | insertJump name position target =>
    simp only [exec, Option.ite_none_right_eq_some, Option.some.injEq, Bool.and_eq_true] at h
    obtain ⟨⟨⟨hhas, -⟩, -⟩, rfl⟩ := h
    exact entries_modify hhas chain
  | append a =>
    simp only [exec, Option.ite_none_right_eq_some, Option.some.injEq, Bool.and_eq_true] at h
    obtain ⟨⟨hhas, -⟩, rfl⟩ := h
    exact entries_modify hhas chain

theorem execAll_entries {script : List Command} (h : execAll ipt t script = (u, true))
    (chain : Text) :
    u.entries chain = script.foldl (fun es c => c.effect chain es) (t.entries chain) := by
  induction script generalizing t with
  | nil =>
    cases h
    rfl
  | cons c cs ih =>
    simp only [execAll] at h
    split at h
    · cases h
    · rename_i m hm
      rw [ih h, exec_entries hm]
      rfl

/-- Behind the prologue the script only appends. -/
theorem foldl_appends (chain : Text) (script : List Command) (es : List Entry)
    (h : ∀ c ∈ script, ∃ a, c = .append a) :
    script.foldl (fun es c => c.effect chain es) es =
      es ++ (chainOf chain script).map .append := by
  induction script generalizing es with
  | nil => simp [chainOf]
  | cons c cs ih =>
    obtain ⟨a, rfl⟩ := h c (.head _)
    rw [List.foldl_cons, ih _ fun c' hc' => h c' (.tail _ hc')]
    by_cases ha : a.chain = chain
    · simp [Command.effect, chainOf, ha]
    · have hne : chain ≠ a.chain := Ne.symm ha
      simp [Command.effect, chainOf, ha, hne]

theorem cleaned_prerouting (t : Table) : (Table.cleaned ipt t).entries prerouting = [] := by
  induction t with
  | nil => rfl
  | cons c t ih =>
    cases hk : kept (chainLine c) with
    | false => simpa [Table.cleaned, hk] using ih
    | true =>
      have hcons : Table.cleaned ipt (c :: t) = c.cleaned ipt :: Table.cleaned ipt t := by
        simp [Table.cleaned, hk]
      have hname : (c.cleaned ipt).name = c.name := rfl
      rw [hcons, entries_cons, hname]
      by_cases hc : c.name = prerouting
      · rw [if_pos hc, Chain.cleaned, hc]
        exact List.filter_eq_nil_iff.mpr fun e _ => by simp [ruleLine_prerouting ipt e]
      · rw [if_neg hc]
        exact ih

end Entries

section Script

variable (proxies : List Control.Proxy) (rules : List Control.Rule)

/-- The commands behind the prologue. -/
def appends : List Command :=
  (rules.filter fun r => r.dialer = direct).flatMap (fun r => forNetwork r.cidr .accept) ++
  (rules.filter fun r => r.dialer ≠ direct).flatMap
    (fun r => forNetwork r.cidr (.redirect (transparentPort proxies))) ++
  if 0 < dnsPort proxies then forDNS (dnsPort proxies) else []

theorem execute_eq : execute proxies rules = prologue ++ appends proxies rules := by
  simp only [execute, appends, List.append_assoc]

theorem forNetworks_append (rules : List Control.Rule) (target : Target) :
    ∀ c ∈ rules.flatMap (fun r => forNetwork r.cidr target), ∃ a, c = .append a := by
  intro c hc
  obtain ⟨r, -, hc⟩ := List.mem_flatMap.mp hc
  simp only [forNetwork, List.mem_cons, List.not_mem_nil, or_false] at hc
  rcases hc with rfl | rfl <;> exact ⟨_, rfl⟩

theorem appends_append : ∀ c ∈ appends proxies rules, ∃ a, c = .append a := by
  intro c hc
  simp only [appends, List.mem_append] at hc
  rcases hc with (hc | hc) | hc
  · exact forNetworks_append _ _ c hc
  · exact forNetworks_append _ _ c hc
  · split at hc
    · simp only [forDNS, List.mem_cons, List.not_mem_nil, or_false] at hc
      rcases hc with rfl | rfl <;> exact ⟨_, rfl⟩
    · cases hc

/-- The rule of `PREROUTING` that stands beside a rule of the chain. -/
def Append.twin (a : Append) : Append := { a with chain := prerouting, iface := some eth0 }

theorem chainOf_twins : chainOf prerouting (appends proxies rules) =
    (chainOf sshtunnel (appends proxies rules)).map Append.twin := by
  have hnet : ∀ (rules : List Control.Rule) target,
      chainOf prerouting (rules.flatMap fun r => forNetwork r.cidr target) =
        (chainOf sshtunnel (rules.flatMap fun r => forNetwork r.cidr target)).map
          Append.twin := by
    intro rules target
    induction rules with
    | nil => rfl
    | cons r rules ih =>
      rw [List.flatMap_cons, chainOf_append, chainOf_append, List.map_append, ih]
      rfl
  simp only [appends, chainOf_append, List.map_append, hnet]
  congr 1
  split <;> rfl

theorem chainOf_output : chainOf output (appends proxies rules) = [] := by
  have hnet : ∀ (rules : List Control.Rule) target,
      chainOf output (rules.flatMap fun r => forNetwork r.cidr target) = [] := by
    intro rules target
    induction rules with
    | nil => rfl
    | cons r rules ih =>
      rw [List.flatMap_cons, chainOf_append, ih]
      rfl
  simp only [appends, chainOf_append, hnet, List.nil_append]
  split <;> rfl

theorem chainOf_iface : ∀ a ∈ chainOf sshtunnel (appends proxies rules), a.iface = none := by
  intro a ha
  simp only [appends, chainOf_append, chainOf_forNetworks, List.mem_append, List.mem_map] at ha
  rcases ha with (⟨r, -, rfl⟩ | ⟨r, -, rfl⟩) | ha
  · rfl
  · rfl
  · split at ha
    · have hc : chainOf sshtunnel (forDNS (dnsPort proxies)) =
          [⟨sshtunnel, none, .udp, none, some 53, .redirect (dnsPort proxies)⟩] := rfl
      rw [hc, List.mem_singleton] at ha
      rw [ha]
    · cases ha

end Script

section Traversal

variable {ipt : Iptables} {t u : Table} {proxies : List Control.Proxy} {rules : List Control.Rule}

/-- The chains after the script, from what they were before. -/
theorem script_entries (h : execAll ipt t (execute proxies rules) = (u, true)) :
    u.entries sshtunnel = (chainOf sshtunnel (appends proxies rules)).map .append ∧
    u.entries prerouting = .jump sshtunnel :: t.entries prerouting ++
      ((chainOf sshtunnel (appends proxies rules)).map Append.twin).map .append ∧
    u.entries output = .jump sshtunnel :: t.entries output := by
  rw [execute_eq] at h
  have hentries : ∀ chain, u.entries chain =
      prologue.foldl (fun es c => c.effect chain es) (t.entries chain) ++
        (chainOf chain (appends proxies rules)).map .append := by
    intro chain
    rw [execAll_entries h, List.foldl_append, foldl_appends _ _ _ (appends_append proxies rules)]
  refine ⟨hentries sshtunnel, ?_, ?_⟩
  · rw [hentries, chainOf_twins]
    rfl
  · rw [hentries, chainOf_output, List.map_nil, List.append_nil]
    rfl

variable (claims : Text → Option Text → Packet → Bool) (iface : Option Text) (p : Packet)

/-- What the rule decides, with jumps of depth `n`. -/
def Table.decides (t : Table) (n : ℕ) : Entry → Option Verdict
  | .append a => if a.matchesOn iface p then some (.target a.target) else none
  | .jump target => t.verdict claims n target iface p
  | .foreign spec => if claims spec iface p then some (.foreign spec) else none

theorem verdict_succ (t : Table) (n : ℕ) (chain : Text) :
    t.verdict claims (n + 1) chain iface p =
      (t.entries chain).findSome? (t.decides claims iface p n) := by
  rw [Table.verdict]
  rfl

theorem findSome_appends (t : Table) (n : ℕ) (as : List Append) :
    (as.map .append).findSome? (t.decides claims iface p n) =
      (as.find? fun a => a.matchesOn iface p).map fun a => .target a.target := by
  induction as with
  | nil => rfl
  | cons a as ih =>
    rw [List.map_cons, List.findSome?_cons, List.find?_cons, ih]
    cases hm : a.matchesOn iface p <;> simp [Table.decides, hm]

/-- Jumping to the chain decides as its rules do, from whatever interface. -/
theorem verdict_sshtunnel (h : u.entries sshtunnel =
      (chainOf sshtunnel (appends proxies rules)).map .append) (n : ℕ) :
    u.verdict claims (n + 1) sshtunnel iface p =
      (traverse (chainOf sshtunnel (execute proxies rules)) p).map .target := by
  have hp : chainOf sshtunnel prologue = [] := rfl
  have hfind : (chainOf sshtunnel (appends proxies rules)).find? (fun a => a.matchesOn iface p) =
      (chainOf sshtunnel (appends proxies rules)).find? fun a => a.matches p := by
    refine List.find?_congr fun a ha => ?_
    simp [Append.matchesOn, chainOf_iface proxies rules a ha]
  rw [verdict_succ, h, findSome_appends, hfind, traverse, execute_eq, chainOf_append, hp,
    List.nil_append, Option.map_map]
  rfl

/-- A twin matches only what the rule beside it in the chain matches as well. -/
theorem find_twins (as : List Append) (h : as.find? (fun a => a.matches p) = none) :
    (as.map Append.twin).find? (fun a => a.matchesOn iface p) = none := by
  rw [List.find?_eq_none] at h ⊢
  intro a ha
  obtain ⟨b, hb, rfl⟩ := List.mem_map.mp ha
  have hno := h b hb
  have hsame : b.twin.matches p = b.matches p := rfl
  simp only [Append.matchesOn, hsame, Bool.and_eq_true, not_and]
  exact fun _ => hno

end Traversal

/-- After a script that runs to its end the rules that it appends to `PREROUTING`
for `eth0` decide nothing: a packet from any interface, like one of the machine
itself, is accepted or redirected by the `sshtunnel` chain. Behind it `OUTPUT`
still has the rules of others, and `PREROUTING` none. -/
theorem forwarded_as_local (ipt : Iptables) (claims : Text → Option Text → Packet → Bool)
    (ts us : Tables) (proxies : List Control.Proxy) (rules : List Control.Rule)
    (h : runScript ipt (emitted (some proxies) (some rules)) ts = (us, true)) (n : ℕ)
    (iface : Option Text) (p : Packet) :
    us.nat.verdict claims (n + 2) prerouting iface p =
        (traverse (chainOf sshtunnel (execute proxies rules)) p).map .target ∧
      us.nat.verdict claims (n + 2) output iface p =
        ((traverse (chainOf sshtunnel (execute proxies rules)) p).map .target).or
          (((ts.cleaned ipt).nat.entries output).findSome?
            (us.nat.decides claims iface p (n + 1))) := by
  have hrun : execAll ipt (ts.cleaned ipt).nat (execute proxies rules) = (us.nat, true) := by
    simp only [runScript, emitted, Prod.mk.injEq] at h
    obtain ⟨hus, hok⟩ := h
    rw [← hus]
    exact Prod.ext rfl hok
  obtain ⟨hchain, hpre, hout⟩ := script_entries hrun
  have hjump : us.nat.decides claims iface p (n + 1) (.jump sshtunnel) =
      (traverse (chainOf sshtunnel (execute proxies rules)) p).map .target :=
    verdict_sshtunnel claims iface p hchain n
  constructor
  · have hempty : (ts.cleaned ipt).nat.entries prerouting = [] := cleaned_prerouting ts.nat
    rw [verdict_succ, hpre, hempty, List.singleton_append, List.findSome?_cons, hjump]
    cases hv : traverse (chainOf sshtunnel (execute proxies rules)) p with
    | some t => rfl
    | none =>
      have hp : chainOf sshtunnel prologue = [] := rfl
      have hnone : (chainOf sshtunnel (appends proxies rules)).find?
          (fun a => a.matches p) = none := by
        rw [traverse, Option.map_eq_none_iff, execute_eq, chainOf_append, hp] at hv
        exact hv
      rw [findSome_appends, find_twins iface p _ hnone]
      rfl
  · rw [verdict_succ, hout, List.findSome?_cons, hjump]
    cases traverse (chainOf sshtunnel (execute proxies rules)) p <;> rfl

/-- Tables with rules of somebody else in both chains. -/
def dockerTables : Tables where
  nat := [⟨prerouting, "ACCEPT [0:0]".toList, [.foreign "-j DOCKER".toList]⟩,
    ⟨output, "ACCEPT [0:0]".toList, [.foreign "-j DOCKER".toList]⟩,
    ⟨"DOCKER".toList, "- [0:0]".toList, []⟩]
  others := []

def samplePrinter : Iptables := ⟨fun _ => "-p tcp".toList, fun _ => true⟩

/-- A packet that came in on `eth1` is redirected as one from `eth0` is. -/
theorem other_interface_redirected :
    (runScript samplePrinter (emitted (some transparentProxy) (some exclusionAfter))
        dockerTables).1.nat.verdict (fun _ _ _ => true) 2 prerouting (some "eth1".toList)
        ⟨.tcp, [10, 2, 3, 4], 443⟩ = some (.target (.redirect 8080)) := by
  have hrun : runScript samplePrinter (emitted (some transparentProxy) (some exclusionAfter))
      dockerTables = ((runScript samplePrinter
        (emitted (some transparentProxy) (some exclusionAfter)) dockerTables).1, true) :=
    Prod.ext rfl (by decide)
  have htarget : traverse (chainOf sshtunnel (execute transparentProxy exclusionAfter))
      ⟨.tcp, [10, 2, 3, 4], 443⟩ = some (.redirect 8080) := by decide
  rw [(forwarded_as_local samplePrinter (fun _ _ _ => true) _ _ _ _ hrun 0 (some "eth1".toList)
    ⟨.tcp, [10, 2, 3, 4], 443⟩).1, htarget]
  rfl

end SshTunnel.IptablesScript
