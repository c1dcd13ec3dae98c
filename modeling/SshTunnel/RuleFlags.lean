import SshTunnel.Commands

/-!
# The flags of add-rule in the daemon (`commands/rule.go:45-79`, `server/server.go:216-230`)

All add-rule commands of one process share one flag set. `Parse` sets its flag and
nothing resets it, so among the additional commands of the daemon a dialer that one of
them names stays in force for those behind it.
-/

namespace SshTunnel.Commands

open Lib.Net (Text)
open Rest (API Operation clientCall server ServerEnv ServerState)
open Rules (serverAddRule)

/-- What the daemon executes: an add-rule command among its additional ones, or a request
of another command or of another process. -/
inductive Event where
  | addRule (args : List Text)
  | request (op : Operation)

/-- The field `dialer` of the command, the daemon, and the requests for rules that it has
got. -/
structure Process where
  dialer : Text
  server : ServerState
  sent : List Control.Rule

def requested : Operation → List Control.Rule
  | .addRule rule => [rule]
  | _ => []

section Run

variable {σ : Type} (impl : API σ)

/-- `cmdAddRule.Execute` with the dialer that the command has from before. -/
def executeIn (dialer : Text) (args : List Text) (s : σ) : Text × σ × List Text × Option Text :=
  let f := parse dialer args
  (f.dialer, if f.args = [] then (s, [], none) else addRules impl f.dialer f.args s)

variable {Conn : Type} (env : ServerEnv Conn)

/-- The loop of `Run` drops the error of a command. -/
def Process.step (p : Process) : Event → Process
  | .addRule args =>
    let (dialer, s, cidrs, _) := executeIn (Rest.server env) p.dialer args p.server
    ⟨dialer, s, p.sent ++ cidrs.map (⟨·, dialer⟩)⟩
  | .request op => ⟨p.dialer, (Rest.server env op p.server).1, p.sent ++ requested op⟩

def Process.after (es : List Event) (s : ServerState) : Process :=
  es.foldl (Process.step env) ⟨"default".toList, s, []⟩

/-- The daemon and the requests for rules that it gets when every command is a process of
its own. -/
def apart : List Event → ServerState → ServerState × List Control.Rule
  | [], s => (s, [])
  | .addRule args :: es, s =>
    let (s, cidrs, _) := execute (Rest.server env) args s
    let (t, sent) := apart es s
    (t, cidrs.map (⟨·, (flags args).dialer⟩) ++ sent)
  | .request op :: es, s =>
    let (t, sent) := apart es (Rest.server env op s).1
    (t, requested op ++ sent)

end Run

/-! ### The requests of a history -/

/-- The dialer that the arguments name last, told by what is left of the one before. -/
def named (args : List Text) : Option Text :=
  if (parse [] args).dialer = (parse "-".toList args).dialer then some (parse [] args).dialer
  else none

def Event.named : Event → Option Text
  | .addRule args => Commands.named args
  | .request _ => none

/-- The rule of the event, if it is one, with the dialer in force before it. -/
def Event.rule (dialer : Text) : Event → Option Control.Rule
  | .addRule args => (flags args).args.head?.map (⟨·, (Commands.named args).getD dialer⟩)
  | .request (.addRule rule) => some rule
  | .request _ => none

/-- The dialer named last. -/
def inForce (es : List Event) : Text :=
  ((es.filterMap Event.named).getLast?).getD "default".toList

def rulesAfter (pre : List Event) : List Event → List Control.Rule
  | [] => []
  | e :: es => (e.rule (inForce pre)).toList ++ rulesAfter (pre ++ [e]) es

/-- The rules that the events add when every command is a process of its own. -/
def rulesApart (es : List Event) : List Control.Rule :=
  es.filterMap (Event.rule "default".toList)

section Parse

/-- The arguments decide what is named and what is left, whatever the flag was before:
once it is set, the rest is read alike. -/
theorem parse_split (args : List Text) :
    ∃ value operands, ∀ dialer, parse dialer args = ⟨Option.getD value dialer, operands⟩ := by
  cases args with
  | nil => exact ⟨none, [], fun _ => rfl⟩
  | cons s args =>
    by_cases hflag : s.length < 2 ∨ s.head? ≠ some '-'
    · refine ⟨none, s :: args, fun d => ?_⟩
      unfold parse
      exact if_pos hflag
    by_cases hend : s = "--".toList
    · refine ⟨none, args, fun d => ?_⟩
      unfold parse
      exact (if_neg hflag).trans (if_pos hend)
    generalize hname : s.drop (if s[1]? = some '-' then 2 else 1) = name
    by_cases hbad : name = [] ∨ name.head? = some '-' ∨ name.head? = some '='
    · refine ⟨none, s :: args, fun d => ?_⟩
      unfold parse
      simp only [if_neg hflag, if_neg hend, hname, if_pos hbad, Option.getD_none]
    by_cases hother : name.head?.toList ++ name.tail.takeWhile (· ≠ '=') ≠ "dialer".toList
    · refine ⟨none, args, fun d => ?_⟩
      unfold parse
      simp only [if_neg hflag, if_neg hend, hname, if_neg hbad, if_pos hother, Option.getD_none]
    by_cases heq : '=' ∈ name.tail
    · refine ⟨some (parse ((name.tail.dropWhile (· ≠ '=')).drop 1) args).dialer,
        (parse ((name.tail.dropWhile (· ≠ '=')).drop 1) args).args, fun d => ?_⟩
      rw [parse.eq_def]
      simp only [if_neg hflag, if_neg hend, hname, if_neg hbad, if_neg hother, if_pos heq,
        Option.getD_some]
    · cases args with
      | nil =>
        refine ⟨none, [], fun d => ?_⟩
        unfold parse
        simp only [if_neg hflag, if_neg hend, hname, if_neg hbad, if_neg hother, if_neg heq,
          Option.getD_none]
      | cons value args =>
        refine ⟨some (parse value args).dialer, (parse value args).args, fun d => ?_⟩
        rw [parse.eq_def]
        simp only [if_neg hflag, if_neg hend, hname, if_neg hbad, if_neg hother, if_neg heq,
          Option.getD_some]

theorem parse_eq (dialer : Text) (args : List Text) :
    parse dialer args = ⟨(named args).getD dialer, (flags args).args⟩ := by
  obtain ⟨value, operands, h⟩ := parse_split args
  have hnamed : named args = value := by
    cases value with
    | none =>
      simp only [named, h, Option.getD_none]
      exact if_neg (by decide)
    | some v =>
      simp only [named, h, Option.getD_some, if_true]
  rw [flags, h, h, hnamed]

end Parse

section Requests

variable {Conn : Type} {env : ServerEnv Conn}

theorem server_rules (env : ServerEnv Conn) (op : Operation) (s : ServerState) :
    (server env op s).1.dialers.rules = s.dialers.rules ∨
      ∃ rule, op = .addRule rule := by
  cases op with
  | addRule rule => exact .inr ⟨rule, rfl⟩
  | addSSHKey key pass =>
    exact .inl (Dialers.addSSHKey_rules s.dialers env.loads key pass)
  | addDialer uri => exact .inl (Dialers.addDialer_rules s.dialers env.loads Dialers.default uri)
  | listKeys => exact .inl (Dialers.makeSSHDialer_rules s.dialers env.loads)
  | startProxy type params =>
    left
    simp only [server, ServerState.startProxy]
    split <;> rfl
  | connect id inp =>
    have hattend : ∀ (s : ServerState) id c,
        (s.attend env id c inp).1.dialers.rules = s.dialers.rules := by
      intro s id c
      simp only [ServerState.attend]
      split <;> rfl
    have hget : ∀ s : ServerState, (s.getConnector env).1.dialers = s.dialers := by
      intro s
      simp only [ServerState.getConnector]
      split <;> rfl
    left
    simp only [server, ServerState.connect]
    split
    · split
      · rfl
      · exact hattend _ _ _
    · split
      · split
        · exact (congrArg _ (hget _)).trans (Dialers.makeSSHDialer_rules s.dialers env.loads)
        · exact (hattend _ _ _).trans
            ((congrArg _ (hget _)).trans (Dialers.makeSSHDialer_rules s.dialers env.loads))
      · exact Dialers.makeSSHDialer_rules s.dialers env.loads
  | _ => exact .inl rfl

/-- A step has the dialer that its event names, and sends and adds the rule of its event. -/
theorem step_spec (env : ServerEnv Conn) (p : Process) (e : Event) :
    (p.step env e).dialer = e.named.getD p.dialer ∧
      (p.step env e).sent = p.sent ++ (e.rule p.dialer).toList ∧
      (p.step env e).server.dialers.rules =
        (e.rule p.dialer).toList.foldl (fun rs q => (serverAddRule rs q).1)
          p.server.dialers.rules := by
  cases e with
  | request op =>
    refine ⟨rfl, ?_, ?_⟩
    · cases op <;> rfl
    · rcases server_rules env op p.server with h | ⟨rule, rfl⟩
      · cases op with
        | addRule rule => exact server_addRule_rules env rule p.server
        | _ => exact h
      · exact server_addRule_rules env rule p.server
  | addRule args =>
    refine ⟨congrArg Flags.dialer (parse_eq p.dialer args), ?_⟩
    simp only [Process.step, executeIn, parse_eq, Event.rule]
    cases hargs : (flags args).args with
    | nil => exact ⟨rfl, rfl⟩
    | cons cidr cidrs =>
      rw [if_neg (List.cons_ne_nil _ _), addRules_cons]
      exact ⟨rfl, server_addRule_rules env _ p.server⟩

theorem inForce_concat (es : List Event) (e : Event) :
    inForce (es ++ [e]) = e.named.getD (inForce es) := by
  rw [inForce, List.filterMap_append]
  cases he : e.named with
  | none => simp [he, inForce]
  | some v => simp [he]

theorem rulesAfter_concat (pre es : List Event) (e : Event) :
    rulesAfter pre (es ++ [e]) = rulesAfter pre es ++ (e.rule (inForce (pre ++ es))).toList := by
  induction es generalizing pre with
  | nil => simp [rulesAfter]
  | cons e' es ih =>
    rw [List.cons_append, rulesAfter, ih, rulesAfter, List.append_assoc, List.append_assoc]
    rfl

theorem rulesApart_cons (e : Event) (es : List Event) :
    rulesApart (e :: es) = (e.rule "default".toList).toList ++ rulesApart es := by
  rw [rulesApart, List.filterMap_cons]
  cases e.rule "default".toList <;> rfl

theorem after_spec (env : ServerEnv Conn) (es : List Event) (s : ServerState) :
    (Process.after env es s).dialer = inForce es ∧
      (Process.after env es s).sent = rulesAfter [] es ∧
      (Process.after env es s).server.dialers.rules =
        (rulesAfter [] es).foldl (fun rs q => (serverAddRule rs q).1) s.dialers.rules := by
  induction es using List.reverseRecOn with
  | nil => exact ⟨rfl, rfl, rfl⟩
  | append_singleton es e ih =>
    obtain ⟨hdialer, hsent, hrules⟩ := ih
    obtain ⟨hnext, hlog, hadd⟩ := step_spec env (Process.after env es s) e
    have hafter : Process.after env (es ++ [e]) s = (Process.after env es s).step env e :=
      List.foldl_concat ..
    rw [hafter]
    refine ⟨by rw [hnext, hdialer, inForce_concat], ?_, ?_⟩
    · rw [hlog, hsent, hdialer, rulesAfter_concat]
      rfl
    rw [hadd, hrules, hdialer, rulesAfter_concat, List.foldl_append]
    rfl

/-- A process of its own has the default of the flag. -/
theorem apart_cons (e : Event) (es : List Event) (s : ServerState) :
    apart env (e :: es) s =
      ((apart env es (Process.step env ⟨"default".toList, s, []⟩ e).server).1,
        (Process.step env ⟨"default".toList, s, []⟩ e).sent ++
          (apart env es (Process.step env ⟨"default".toList, s, []⟩ e).server).2) := by
  cases e <;> rfl

theorem apart_spec (env : ServerEnv Conn) (es : List Event) (s : ServerState) :
    (apart env es s).2 = rulesApart es ∧
      (apart env es s).1.dialers.rules =
        (rulesApart es).foldl (fun rs q => (serverAddRule rs q).1) s.dialers.rules := by
  induction es generalizing s with
  | nil => exact ⟨rfl, rfl⟩
  | cons e es ih =>
    obtain ⟨-, hlog, hadd⟩ := step_spec env ⟨"default".toList, s, []⟩ e
    obtain ⟨hsent, hrules⟩ := ih (Process.step env ⟨"default".toList, s, []⟩ e).server
    rw [apart_cons, rulesApart_cons]
    refine ⟨?_, ?_⟩
    · rw [hlog, hsent, List.nil_append]
    · rw [hrules, hadd, List.foldl_append]

theorem rulesAfter_eq_iff (pre es : List Event) :
    rulesAfter pre es = rulesApart es ↔
      ∀ l e r, es = l ++ e :: r →
        e.rule (inForce (pre ++ l)) = e.rule "default".toList := by
  induction es generalizing pre with
  | nil => exact iff_of_true rfl fun l e r h => by simp at h
  | cons e es ih =>
    have hlen : (e.rule (inForce pre)).toList.length =
        (e.rule "default".toList).toList.length := by
      cases e with
      | addRule args => cases hargs : (flags args).args <;> simp [Event.rule, hargs]
      | request op => cases op <;> rfl
    rw [rulesAfter, rulesApart_cons]
    constructor
    · intro h l e' r hsplit
      obtain ⟨hhead, htail⟩ := List.append_inj h hlen
      cases l with
      | nil =>
        cases hsplit
        rw [List.append_nil]
        simpa only [Option.head?_toList] using congrArg List.head? hhead
      | cons e₀ l =>
        cases hsplit
        have hrest := (ih (pre ++ [e])).mp htail l e' r rfl
        rwa [List.append_assoc] at hrest
    · intro h
      have hhead : e.rule (inForce pre) = e.rule "default".toList := by
        have hfirst := h [] e es rfl
        rwa [List.append_nil] at hfirst
      have htail : rulesAfter (pre ++ [e]) es = rulesApart es := by
        refine (ih (pre ++ [e])).mpr fun l e' r hsplit => ?_
        rw [List.append_assoc]
        exact h (e :: l) e' r (by rw [hsplit]; rfl)
      rw [hhead, htail]

end Requests

theorem rule_default_iff {dialer : Text} (args : List Text) :
    (Event.addRule args).rule dialer = (Event.addRule args).rule "default".toList ↔
      ((flags args).args ≠ [] → named args ≠ none ∨ dialer = "default".toList) := by
  simp only [Event.rule]
  cases hargs : (flags args).args with
  | nil => simp
  | cons cidr cidrs => cases named args <;> simp

/-- The requests for rules that the daemon gets in any history: those of other commands
and processes, and those of its own add-rule commands, each of its first cidr and with
the dialer named last by any of them so far. They are the requests of the same commands
in processes of their own exactly if each command that sends one names its dialer, or
finds `default` in force. The rules depend on the requests only. -/
theorem daemon_rules_iff {Conn : Type} (env : ServerEnv Conn) (es : List Event)
    (s : ServerState) :
    (Process.after env es s).sent = rulesAfter [] es ∧
      (Process.after env es s).server.dialers.rules =
        (Process.after env es s).sent.foldl (fun rs q => (serverAddRule rs q).1)
          s.dialers.rules ∧
      (apart env es s).1.dialers.rules =
        (apart env es s).2.foldl (fun rs q => (serverAddRule rs q).1) s.dialers.rules ∧
      ((Process.after env es s).sent = (apart env es s).2 ↔
        ∀ pre args post, es = pre ++ .addRule args :: post → (flags args).args ≠ [] →
          named args ≠ none ∨ inForce pre = "default".toList) := by
  obtain ⟨-, hsent, hrules⟩ := after_spec env es s
  obtain ⟨hsent', hrules'⟩ := apart_spec env es s
  refine ⟨hsent, by rw [hrules, hsent], by rw [hrules', hsent'], ?_⟩
  rw [hsent, hsent', rulesAfter_eq_iff]
  constructor
  · intro h pre args post hsplit
    exact (rule_default_iff args).mp (h pre _ post hsplit)
  · intro h pre e post hsplit
    cases e with
    | addRule args => exact (rule_default_iff args).mpr (h pre args post hsplit)
    | request op => cases op <;> rfl

example : rulesAfter [] [.addRule ["-dialer=ssh".toList, "10.0.0.0/8".toList],
    .addRule ["11.0.0.0/8".toList]] =
      [⟨"10.0.0.0/8".toList, "ssh".toList⟩, ⟨"11.0.0.0/8".toList, "ssh".toList⟩] := by decide

end SshTunnel.Commands
