import SshTunnel.Rest

/-!
# The add-rule command (`commands/rule.go:43-79`)

The flags of the command, and its loop over the cidr arguments: one request per
argument, until the client reports an error.
-/

namespace SshTunnel.Commands

open Lib.Net (Text digitVal parseAddr parseCIDR)
open Rest (API Operation clientCall server ServerEnv ServerState)
open Rules (RuleSet unMarshall serverAddRule)

structure Flags where
  dialer : Text
  args : List Text
  deriving DecidableEq

/-- `FlagSet.Parse` of the flag set with the string flag `dialer`. An error ends
it where it stands, and `Execute` does not look at it. -/
def parse : Text → List Text → Flags
  | dialer, [] => ⟨dialer, []⟩
  | dialer, s :: args =>
    if s.length < 2 ∨ s.head? ≠ some '-' then ⟨dialer, s :: args⟩
    else if s = "--".toList then ⟨dialer, args⟩
    else
      let name := s.drop (if s[1]? = some '-' then 2 else 1)
      if name = [] ∨ name.head? = some '-' ∨ name.head? = some '=' then ⟨dialer, s :: args⟩
      else
        let value := (name.tail.dropWhile (· ≠ '=')).drop 1
        -- the equals sign cannot be the first character of the name
        if name.head?.toList ++ name.tail.takeWhile (· ≠ '=') ≠ "dialer".toList then ⟨dialer, args⟩
        else if '=' ∈ name.tail then parse value args
        else
          match args with
          | [] => ⟨dialer, []⟩
          | value :: args => parse value args

def flags (args : List Text) : Flags := parse "default".toList args

section Execute

variable {σ : Type} (impl : API σ)

/-- The loop of `cmdAddRule.Execute`: the daemon after it, the cidrs that have been
sent and the error. -/
def addRules (dialer : Text) : List Text → σ → σ × List Text × Option Text
  | [], s => (s, [], none)
  | cidr :: cidrs, s =>
    match clientCall impl (.addRule ⟨cidr, dialer⟩) s with
    | (s', _, some err) => (s', [cidr], some err)
    | (s', _, none) =>
      let (s'', sent, err) := addRules dialer cidrs s'
      (s'', cidr :: sent, err)

/-- `cmdAddRule.Execute`; without a cidr it only prints its usage. -/
def execute (args : List Text) (s : σ) : σ × List Text × Option Text :=
  if (flags args).args = [] then (s, [], none)
  else addRules impl (flags args).dialer (flags args).args s

/-- The client has an error for an added rule, whatever the daemon did with it: it
has no target for the answer. -/
theorem clientCall_addRule (rule : Control.Rule) (s : σ) :
    clientCall impl (.addRule rule) s =
      ((impl (.addRule rule) s).1, (), some "json: Unmarshal(nil)".toList) := by
  rw [clientCall, Rest.serveRequest_stub impl s (by simp)]
  rcases impl (.addRule rule) s with ⟨s', result⟩
  cases result with
  | returned v err => rfl
  | panicked => rfl

theorem addRules_cons (dialer cidr : Text) (cidrs : List Text) (s : σ) :
    addRules impl dialer (cidr :: cidrs) s =
      ((impl (.addRule ⟨cidr, dialer⟩) s).1, [cidr],
        some "json: Unmarshal(nil)".toList) := by
  simp only [addRules, clientCall_addRule]

end Execute

def applied (dialer : Text) (cidrs : List Text) (rs : RuleSet) : RuleSet :=
  cidrs.foldl (fun rs cidr => (serverAddRule rs ⟨cidr, dialer⟩).1) rs

/-- The rules of the daemon are those of all the cidrs, and the command has left
one out only after a rejected one. -/
def Completes {Conn : Type} (env : ServerEnv Conn) (args : List Text) (s : ServerState) : Prop :=
  (execute (server env) args s).1.dialers.rules =
      applied (flags args).dialer (flags args).args s.dialers.rules ∧
    ((execute (server env) args s).2.1.length < (flags args).args.length →
      ∃ cidr err, (execute (server env) args s).2.1.getLast? = some cidr ∧
        unMarshall ⟨cidr, (flags args).dialer⟩ = .error err)

/-! ### Arguments -/

def Accepted (cidr : Text) : Prop := ∃ dialer rule, unMarshall ⟨cidr, dialer⟩ = .ok rule

theorem Accepted.ne_error {cidr dialer err : Text} (h : Accepted cidr) :
    unMarshall ⟨cidr, dialer⟩ ≠ .error err := by
  obtain ⟨dialer', rule, hrule⟩ := h
  intro herr
  unfold unMarshall at hrule herr
  dsimp only at hrule herr
  split at hrule
  · cases hrule
  · rename_i hsome
    rw [hsome] at herr
    cases herr

theorem parseAddr_minus (s : Text) : parseAddr ('-' :: s) = none := by
  have hv4 : Lib.Net.parseIPv4Fields ('-' :: s) 0 0 [] = none := by
    simp [Lib.Net.parseIPv4Fields, digitVal]
  have hv6 : Lib.Net.parseIPv6 ('-' :: s) = none := by
    simp [Lib.Net.parseIPv6, Lib.Net.parseIPv6Body, Lib.Net.parseIPv6Loop,
      Lib.Net.parseHexGroup, Lib.Net.hexVal]
  unfold parseAddr
  split
  · rw [hv4, Option.map_none]
  · exact hv6
  · rfl

theorem parseCIDR_minus (s : Text) : parseCIDR ('-' :: s) = none := by
  unfold parseCIDR
  split
  · simp [parseAddr_minus]
  · rfl

theorem Accepted.head {cidr : Text} (h : Accepted cidr) : cidr.head? ≠ some '-' := by
  obtain ⟨dialer, rule, hrule⟩ := h
  intro hminus
  cases cidr with
  | nil => cases hminus
  | cons c s =>
    obtain rfl : c = '-' := Option.some.inj hminus
    unfold unMarshall at hrule
    dsimp only at hrule
    split at hrule
    · cases hrule
    · rename_i hsome
      split at hsome
      · rw [parseCIDR_minus] at hsome
        cases hsome
      · rw [List.cons_append, parseCIDR_minus] at hsome
        cases hsome

theorem flags_accepted {cidrs : List Text} (h : ∀ cidr ∈ cidrs, Accepted cidr) :
    flags cidrs = ⟨"default".toList, cidrs⟩ := by
  cases cidrs with
  | nil => rfl
  | cons cidr cidrs =>
    have hhead : cidr.head? ≠ some '-' := (h cidr List.mem_cons_self).head
    unfold flags parse
    dsimp only
    rw [if_pos (.inr hhead)]

section Daemon

variable {Conn : Type} (env : ServerEnv Conn)

theorem server_addRule_rules (rule : Control.Rule) (s : ServerState) :
    (server env (.addRule rule) s).1.dialers.rules = (serverAddRule s.dialers.rules rule).1 := by
  simp only [server, ServerState.handle, Dialers.State.handle]
  rcases serverAddRule s.dialers.rules rule with ⟨rules, err⟩
  cases err <;> rfl

theorem execute_nil {args : List Text} {s : ServerState} (h : (flags args).args = []) :
    execute (server env) args s = (s, [], none) := by
  rw [execute, if_pos h]

theorem execute_cons {args : List Text} {s : ServerState} {cidr : Text} {cidrs : List Text}
    (h : (flags args).args = cidr :: cidrs) :
    execute (server env) args s =
      ((server env (.addRule ⟨cidr, (flags args).dialer⟩) s).1, [cidr],
        some "json: Unmarshal(nil)".toList) := by
  rw [execute, if_neg (by simp [h]), h, addRules_cons]

end Daemon

theorem completes_args_iff {Conn : Type} (env : ServerEnv Conn) {args : List Text}
    (s : ServerState) (haccepted : ∀ cidr ∈ (flags args).args, Accepted cidr) :
    Completes env args s ↔ (flags args).args.length ≤ 1 := by
  unfold Completes
  cases hargs : (flags args).args with
  | nil => simp [execute_nil env hargs, applied]
  | cons cidr cidrs =>
    simp only [execute_cons env hargs, server_addRule_rules]
    cases cidrs with
    | nil => simp [applied]
    | cons next rest =>
      refine iff_of_false ?_ (by simp)
      rintro ⟨-, hstop⟩
      obtain ⟨last, err, hlast, herr⟩ := hstop (by simp)
      rw [List.getLast?_singleton, Option.some.injEq] at hlast
      exact (haccepted cidr (by simp [hargs])).ne_error (hlast ▸ herr)

/-- For cidrs that are all accepted, and with any flags before them, the command
does its work exactly when there is at most one of them. -/
theorem addRule_completes_iff {Conn : Type} (env : ServerEnv Conn) (cidrs : List Text)
    (s : ServerState) (haccepted : ∀ cidr ∈ cidrs, Accepted cidr) :
    (Completes env cidrs s ↔ cidrs.length ≤ 1) ∧
      ∀ args, (flags args).args = cidrs → (Completes env args s ↔ cidrs.length ≤ 1) := by
  have hany : ∀ args, (flags args).args = cidrs → (Completes env args s ↔ cidrs.length ≤ 1) := by
    intro args hargs
    rw [← hargs] at haccepted ⊢
    exact completes_args_iff env s haccepted
  exact ⟨hany cidrs (by rw [flags_accepted haccepted]), hany⟩

section Example

theorem accepted_ten : Accepted "10.0.0.0/8".toList :=
  ⟨[], ⟨⟨[10, 0, 0, 0], [255, 0, 0, 0]⟩, "default".toList⟩, by decide⟩

theorem addRule_completes_single :
    Completes Rest.sampleEnv ["10.0.0.0/8".toList] Rest.sampleState ∧
      Completes Rest.sampleEnv ["-dialer".toList, "ssh".toList, "10.0.0.0/8".toList]
        Rest.sampleState := by
  have h := addRule_completes_iff Rest.sampleEnv ["10.0.0.0/8".toList] Rest.sampleState
    fun cidr hcidr => List.mem_singleton.mp hcidr ▸ accepted_ten
  exact ⟨h.1.mpr (by decide), (h.2 _ (by decide)).mpr (by decide)⟩

theorem addRule_stops_after_first :
    ¬∀ (env : ServerEnv Unit) (cidrs : List Text) (s : ServerState),
      (∀ cidr ∈ cidrs, Accepted cidr) → Completes env cidrs s := by
  intro hall
  have haccepted : ∀ cidr ∈ ["10.0.0.0/8".toList, "192.168.0.0/16".toList], Accepted cidr := by
    intro cidr hcidr
    simp only [List.mem_cons, List.not_mem_nil, or_false] at hcidr
    rcases hcidr with rfl | rfl
    · exact accepted_ten
    · exact ⟨[], ⟨⟨[192, 168, 0, 0], [255, 255, 0, 0]⟩, "default".toList⟩, by decide⟩
  have hrules := (hall Rest.sampleEnv _ Rest.sampleState haccepted).1
  revert hrules
  decide

end Example

end SshTunnel.Commands
