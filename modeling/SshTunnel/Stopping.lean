import SshTunnel.AdditionalCommands
import SshTunnel.Lib.Runs
import SshTunnel.Rest

/-!
# Ending the daemon by a request (`server/server.go`, `control/server.go`, `commands/stop.go`)

`Stop` sends on a channel without a buffer, and `Run` receives from it after the last
additional command. `PutState` and `PostTargets` call `Stop`, and the only client that
sends such a request is the command `stop`: from the command line `stop` is no request
(`main.go`), so it is an additional command of the daemon itself. Whether a command can
return is a parameter: `add-dialer` and `start-proxy` panic without an argument,
`status` and `connect` end the process by the answer they get.
-/

namespace SshTunnel.Stopping

open Lib.Net (Text)
open Lib.Runs
open AdditionalCommands
open Rest (Method Handler createGinEngine)

/-! ### The loop of `Run` -/

/-- The command at the front and what is left; `none` is a panic. -/
def nextCall : List Text → Option (Call × List Text)
  | [] => none
  | name :: words =>
    match (name :: words).findIdx? fun a => a = separator with
    | some i =>
      (slice (name :: words) 1 i).map fun args => (⟨name, args⟩, (name :: words).drop (i + 1))
    | none => some (⟨name, words⟩, [])

inductive RunPc where
  | loop (additionalCommands : List Text)
  | execute (call : Call) (additionalCommands : List Text)
  /-- `stop` waits for the answer to its request. -/
  | await (request : ℕ) (call : Call) (additionalCommands : List Text)
  | receive
  | exit (rc : ℕ)
  /-- `Run` has ended the process with the code it received. -/
  | ended (rc : ℕ)
  /-- A command, a panic or `usage` has. -/
  | died (code : ℕ)
  deriving DecidableEq

/-- A handler in `Stop`: before the channel operation, after it, and with its answer
written. -/
inductive StopPc where
  | sending
  | sent
  | answered
  deriving DecidableEq

structure State where
  pc : RunPc
  executed : List Call
  /-- The commands reach this daemon at the control socket. -/
  listening : Bool
  stops : List StopPc

def init (additionalCommands : List Text) : State := ⟨.loop additionalCommands, [], false, []⟩

/-- The process is gone. -/
def RunPc.over : RunPc → Bool
  | .ended _ | .died _ => true
  | _ => false

def State.running (s : State) : Bool := !s.pc.over

/-- `os.Exit(2)` is a panic, in whichever goroutine. -/
def State.panic (s : State) : State := { s with pc := .died 2 }

/-- `commands.ExecuteCommand`: without a command of the name, `usage` ends the process. -/
def State.executeCommand (s : State) (commandMap : Text → Bool) (call : Call)
    (additionalCommands : List Text) : State :=
  if commandMap call.name then { s with pc := .execute call additionalCommands }
  else { s with pc := .died 1 }

def State.returned (s : State) (call : Call) (additionalCommands : List Text) : State :=
  { s with pc := .loop additionalCommands, executed := s.executed ++ [call] }

def stop : Text := "stop".toList

/-- A command can return while the daemon listens or not. `stop` does when its request
finds nobody; otherwise it waits for an answer. -/
def canReturn (returns : Bool → Call → Bool) (listening : Bool) (call : Call) : Bool :=
  if call.name = stop then !listening else returns listening call

def Handler.callsStop : Handler → Bool
  | .putState | .postTargets => true
  | _ => false

/-- The request reaches a handler that calls `Stop`. -/
def routesToStop (method : Method) (path : Text) : Bool :=
  match createGinEngine.find? fun r => r.method = method && r.path = path with
  | some r => Handler.callsStop r.handler
  | none => false

inductive Action where
  /-- `control.Start` listens. -/
  | listen
  | turn
  /-- The request of `stop`; without a listener it has an error, which is printed. -/
  | clientStop
  | returns
  /-- A command ends the process, by `os.Exit` or by a panic; 0 is `connect` with success. -/
  | fails (code : ℕ)
  /-- A request of somebody else. -/
  | arrive (method : Method) (path : Text)
  | rendezvous (request : ℕ)
  | answer (request : ℕ)
  | resume
  | osExit
  /-- A panic in another goroutine. -/
  | panics
  deriving DecidableEq

section Step

variable (commandMap : Text → Bool) (returns : Bool → Call → Bool)

def step (s : State) : Action → Option State
  | .listen => if s.running && !s.listening then some { s with listening := true } else none
  | .turn =>
    match s.pc with
    | .loop [] => some { s with pc := .receive }
    | .loop (name :: words) =>
      match nextCall (name :: words) with
      | some (call, rest) => some (s.executeCommand commandMap call rest)
      | none => some s.panic
    | _ => none
  | .clientStop =>
    match s.pc with
    | .execute call rest =>
      if call.name = stop then
        if s.listening then
          some { s with pc := .await s.stops.length call rest, stops := s.stops ++ [.sending] }
        else some (s.returned call rest)
      else none
    | _ => none
  | .returns =>
    match s.pc with
    | .execute call rest =>
      if call.name ≠ stop ∧ returns s.listening call then some (s.returned call rest) else none
    | _ => none
  | .fails code =>
    match s.pc with
    | .execute call _ =>
      if call.name = stop then none else some { s with pc := .died code }
    | _ => none
  | .arrive method path =>
    if s.running && s.listening && routesToStop method path then
      some { s with stops := s.stops ++ [.sending] }
    else none
  | .rendezvous n =>
    if s.pc = .receive ∧ s.stops[n]? = some .sending then
      some { s with pc := .exit 0, stops := s.stops.set n .sent }
    else none
  | .answer n =>
    if s.running ∧ s.stops[n]? = some .sent then
      some { s with stops := s.stops.set n .answered }
    else none
  | .resume =>
    match s.pc with
    | .await n call rest =>
      if s.stops[n]? = some .answered then some (s.returned call rest) else none
    | _ => none
  | .osExit =>
    match s.pc with
    | .exit rc => some { s with pc := .ended rc }
    | _ => none
  | .panics => if s.running then some s.panic else none

end Step

/-- The commands that are left. -/
def RunPc.left : RunPc → List Call
  | .loop words => calls words
  | .execute call rest | .await _ call rest => call :: calls rest
  | .receive | .exit _ | .ended _ | .died _ => []

/-- All can return, from the first on that cannot without a listener under one. -/
def Passes (returns : Bool → Call → Bool) (listening : Bool) (cs : List Call) : Prop :=
  ∀ call ∈ if listening then cs else cs.dropWhile (canReturn returns false),
    canReturn returns true call = true

/-- Every separator ahead has a word before it, and every command ahead is there. -/
def Found (commandMap : Text → Bool) (words : List Text) : Prop :=
  Separated words ∧ ∀ call ∈ calls words, commandMap call.name = true

/-- A request can still end the daemon, or has. -/
def RunPc.Stoppable (commandMap : Text → Bool) (returns : Bool → Call → Bool)
    (listening : Bool) : RunPc → Prop
  | .loop words => Found commandMap words ∧ Passes returns listening (calls words)
  | .execute call rest => Found commandMap rest ∧ Passes returns listening (call :: calls rest)
  | .await .. | .died _ => False
  | .receive | .exit _ => True
  | .ended rc => rc = 0

def State.Stoppable (commandMap : Text → Bool) (returns : Bool → Call → Bool) (s : State) :
    Prop := s.pc.Stoppable commandMap returns s.listening

instance decidablePasses (returns : Bool → Call → Bool) (listening : Bool) (cs : List Call) :
    Decidable (Passes returns listening cs) := List.decidableBAll ..

instance decidableFound (commandMap : Text → Bool) (words : List Text) :
    Decidable (Found commandMap words) := inferInstanceAs (Decidable (_ ∧ _))

/-! ### What the commands ahead need -/

section Passes

variable {returns : Bool → Call → Bool} {listening : Bool} {call : Call} {cs : List Call}

theorem passes_nil (returns : Bool → Call → Bool) (listening : Bool) :
    Passes returns listening [] := by
  cases listening <;> exact fun _ hc => nomatch hc

/-- A listener is never taken away again. -/
theorem Passes.of_listening (h : Passes returns true cs) : Passes returns listening cs := by
  cases listening with
  | true => exact h
  | false => exact fun call hc => h call (List.dropWhile_subset _ hc)

theorem passes_listening :
    Passes returns true (call :: cs) ↔ canReturn returns true call = true ∧
      Passes returns true cs := List.forall_mem_cons

/-- The first command returns now, or once there is a listener. -/
theorem passes_cons :
    Passes returns listening (call :: cs) ↔
      (canReturn returns listening call = true ∧ Passes returns listening cs) ∨
        Passes returns true (call :: cs) := by
  cases listening with
  | true => rw [passes_listening, or_self]
  | false =>
    cases hnow : canReturn returns false call with
    | true =>
      have hlater (h : Passes returns true (call :: cs)) : Passes returns false cs :=
        (passes_listening.mp h).2.of_listening
      rw [Passes, if_neg Bool.false_ne_true, List.dropWhile_cons_of_pos hnow,
        and_iff_right rfl]
      exact ⟨.inl, fun h => h.elim id hlater⟩
    | false =>
      rw [Passes, if_neg Bool.false_ne_true,
        List.dropWhile_cons_of_neg (Bool.eq_false_iff.mp hnow)]
      exact (or_iff_right fun h => Bool.false_ne_true h.1).symm

end Passes

/-! ### Cutting off a command -/

section Cut

variable {words rest : List Text} {call : Call}

theorem nextCall_cut {name : Text} {seg : List Text} (hseg : separator ∉ name :: seg)
    (rest : List Text) :
    nextCall (name :: seg ++ separator :: rest) = some (⟨name, seg⟩, rest) := by
  have hfind := findIdx?_cut hseg rest
  have hslice : slice (name :: seg ++ separator :: rest) 1 (name :: seg).length = some seg := by
    rw [slice, if_pos ⟨by simp, by simp⟩, List.take_left]
    rfl
  have hdrop : (name :: seg ++ separator :: rest).drop ((name :: seg).length + 1) = rest := by
    rw [← List.drop_drop, List.drop_left]
    rfl
  rw [List.cons_append] at hfind hslice hdrop ⊢
  rw [nextCall, hfind]
  simp only [hslice, hdrop, Option.map_some]

theorem nextCall_last {name : Text} {seg : List Text} (hseg : separator ∉ name :: seg) :
    nextCall (name :: seg) = some (⟨name, seg⟩, []) := by
  rw [nextCall, findIdx?_last hseg]

theorem nextCall_separator (rest : List Text) : nextCall (separator :: rest) = none := by
  have hfind : (separator :: rest).findIdx? (fun a => a = separator) = some 0 :=
    findIdx?_cut List.not_mem_nil rest
  have hslice : slice (separator :: rest) 1 0 = none := if_neg fun h => absurd h.1 (by decide)
  rw [nextCall, hfind]
  simp only [hslice, Option.map_none]

theorem nextCall_some (h : nextCall words = some (call, rest)) :
    calls words = call :: calls rest ∧ (Separated words ↔ Separated rest) ∧
      rest.length < words.length := by
  by_cases hmem : separator ∈ words
  · obtain ⟨seg, tail, rfl, hseg⟩ := List.eq_append_cons_of_mem hmem
    cases seg with
    | nil =>
      rw [List.nil_append, nextCall_separator] at h
      cases h
    | cons name args =>
      rw [nextCall_cut hseg] at h
      cases h
      refine ⟨?_, ?_, ?_⟩
      · rw [calls_cut hseg]
        rfl
      · rw [separated_cut hseg]
        exact and_iff_right (List.cons_ne_nil name args)
      · rw [List.length_append, List.length_cons, List.length_cons]
        omega
  · cases words with
    | nil => cases h
    | cons name args =>
      rw [nextCall_last hmem] at h
      cases h
      refine ⟨?_, ?_, ?_⟩
      · rw [calls_last hmem, calls_nil]
        rfl
      · exact iff_of_true (separated_last hmem) (separated_last List.not_mem_nil)
      · exact Nat.succ_pos args.length

theorem nextCall_none {name : Text} (h : nextCall (name :: words) = none) :
    ¬Separated (name :: words) := by
  intro hsep
  by_cases hmem : separator ∈ name :: words
  · obtain ⟨seg, tail, hwords, hseg⟩ := List.eq_append_cons_of_mem hmem
    rw [hwords] at h hsep
    cases seg with
    | nil => exact ((separated_cut hseg).mp hsep).1 rfl
    | cons first args =>
      rw [nextCall_cut hseg] at h
      cases h
  · rw [nextCall_last hmem] at h
    cases h

theorem found_of_nextCall {commandMap : Text → Bool}
    (h : nextCall words = some (call, rest)) :
    Found commandMap words ↔ commandMap call.name = true ∧ Found commandMap rest := by
  obtain ⟨hcalls, hsep, -⟩ := nextCall_some h
  rw [Found, hcalls, hsep, List.forall_mem_cons, Found]
  exact and_left_comm

end Cut

/-! ### What a step does -/

/-- The steps with what they change. -/
inductive Stepped (commandMap : Text → Bool) (returns : Bool → Call → Bool) (s : State) :
    State → Prop
  | listens : s.running = true → Stepped commandMap returns s { s with listening := true }
  | drained : s.pc = .loop [] → Stepped commandMap returns s { s with pc := .receive }
  | calls {words rest : List Text} {call : Call} : s.pc = .loop words →
      nextCall words = some (call, rest) → commandMap call.name = true →
      Stepped commandMap returns s { s with pc := .execute call rest }
  | died (code : ℕ) : s.running = true → Stepped commandMap returns s { s with pc := .died code }
  | asked {call : Call} {rest : List Text} : s.pc = .execute call rest → call.name = stop →
      s.listening = true → Stepped commandMap returns s
        { s with pc := .await s.stops.length call rest, stops := s.stops ++ [.sending] }
  | returned {call : Call} {rest : List Text} : s.pc = .execute call rest →
      canReturn returns s.listening call = true →
      Stepped commandMap returns s (s.returned call rest)
  | arrived : s.running = true → s.listening = true →
      Stepped commandMap returns s { s with stops := s.stops ++ [.sending] }
  | received {n : ℕ} : s.pc = .receive → s.stops[n]? = some .sending →
      Stepped commandMap returns s { s with pc := .exit 0, stops := s.stops.set n .sent }
  | answered {n : ℕ} : s.stops[n]? = some .sent →
      Stepped commandMap returns s { s with stops := s.stops.set n .answered }
  | resumed {n : ℕ} {call : Call} {rest : List Text} : s.pc = .await n call rest →
      s.stops[n]? = some .answered → Stepped commandMap returns s (s.returned call rest)
  | exits {rc : ℕ} : s.pc = .exit rc → Stepped commandMap returns s { s with pc := .ended rc }

section Step

variable {commandMap : Text → Bool} {returns : Bool → Call → Bool} {s t : State} {a : Action}

theorem running_of_pc {pc : RunPc} (h : s.pc = pc) (hpc : pc.over = false) :
    s.running = true := by
  rw [State.running, h, hpc, Bool.not_false]

theorem stepped_executeCommand {words rest : List Text} {call : Call} (hpc : s.pc = .loop words)
    (hnext : nextCall words = some (call, rest)) :
    Stepped commandMap returns s (s.executeCommand commandMap call rest) := by
  unfold State.executeCommand
  split
  · rename_i hname
    exact .calls hpc hnext hname
  · exact .died 1 (running_of_pc hpc rfl)

theorem stepped_of_step (h : step commandMap returns s a = some t) :
    Stepped commandMap returns s t := by
  cases a with
  | listen =>
    obtain ⟨hg, he⟩ := Option.ite_none_right_eq_some.mp h
    cases he
    exact .listens (Bool.and_eq_true_iff.mp hg).1
  | turn =>
    simp only [step] at h
    split at h
    · rename_i hpc
      cases h
      exact .drained hpc
    · rename_i name words hpc
      split at h
      · rename_i call rest hnext
        cases h
        exact stepped_executeCommand hpc hnext
      · cases h
        exact .died 2 (running_of_pc hpc rfl)
    · cases h
  | clientStop =>
    simp only [step] at h
    split at h
    · rename_i call rest hpc
      split at h
      · rename_i hstop
        split at h
        · rename_i hlisten
          cases h
          exact .asked hpc hstop hlisten
        · rename_i hlisten
          cases h
          refine .returned hpc ?_
          rw [canReturn, if_pos hstop, Bool.eq_false_iff.mpr hlisten, Bool.not_false]
      · cases h
    · cases h
  | returns =>
    simp only [step] at h
    split at h
    · rename_i call rest hpc
      obtain ⟨⟨hstop, hreturns⟩, he⟩ := Option.ite_none_right_eq_some.mp h
      cases he
      refine .returned hpc ?_
      rw [canReturn, if_neg hstop, hreturns]
    · cases h
  | fails code =>
    simp only [step] at h
    split at h
    · rename_i call rest hpc
      split at h
      · cases h
      · cases h
        exact .died code (running_of_pc hpc rfl)
    · cases h
  | arrive method path =>
    obtain ⟨hg, he⟩ := Option.ite_none_right_eq_some.mp h
    cases he
    have hrun := (Bool.and_eq_true_iff.mp hg).1
    exact .arrived (Bool.and_eq_true_iff.mp hrun).1 (Bool.and_eq_true_iff.mp hrun).2
  | rendezvous n =>
    obtain ⟨hg, he⟩ := Option.ite_none_right_eq_some.mp h
    cases he
    exact .received hg.1 hg.2
  | answer n =>
    obtain ⟨hg, he⟩ := Option.ite_none_right_eq_some.mp h
    cases he
    exact .answered hg.2
  | resume =>
    simp only [step] at h
    split at h
    · rename_i n call rest hpc
      obtain ⟨hg, he⟩ := Option.ite_none_right_eq_some.mp h
      cases he
      exact .resumed hpc hg
    · cases h
  | osExit =>
    simp only [step] at h
    split at h
    · rename_i rc hpc
      cases h
      exact .exits hpc
    · cases h
  | panics =>
    obtain ⟨hg, he⟩ := Option.ite_none_right_eq_some.mp h
    cases he
    exact .died 2 hg

end Step

/-! ### What every step keeps -/

/-- `Run` has received, or the process is gone. -/
def RunPc.received : RunPc → Bool
  | .exit _ | .ended _ | .died _ => true
  | _ => false

/-- The commands that are executed and left are those of the vector, and no request has
its answer before `Run` receives. -/
structure Inv (words : List Text) (s : State) : Prop where
  executed : (∀ code, s.pc ≠ .died code) → s.executed ++ s.pc.left = calls words
  sending : s.pc.received = false → ∀ x ∈ s.stops, x = .sending
  exit : ∀ rc, s.pc = .exit rc → rc = 0

section Invariant

variable {commandMap : Text → Bool} {returns : Bool → Call → Bool} {words : List Text}
  {s t : State} {a : Action}

theorem inv_init (words : List Text) : Inv words (init words) where
  executed := fun _ => rfl
  sending := fun _ _ hx => nomatch hx
  exit := fun _ h => nomatch h

/-- A step of another goroutine. -/
theorem Inv.frame (h : Inv words s) (hpc : t.pc = s.pc) (hexec : t.executed = s.executed)
    (hstops : s.pc.received = false → ∀ x ∈ t.stops, x = .sending) : Inv words t where
  executed := by
    rw [hpc, hexec]
    exact h.executed
  sending := by
    rw [hpc]
    exact hstops
  exit := by
    rw [hpc]
    exact h.exit

/-- A step of `Run` before it receives. -/
theorem Inv.run {pc : RunPc} (h : Inv words s) (hpc : s.pc = pc) (hrec : pc.received = false)
    (hleft : t.executed ++ t.pc.left = s.executed ++ pc.left)
    (hstops : ∀ x ∈ t.stops, x ∈ s.stops ∨ x = .sending) (hexit : ∀ rc, t.pc ≠ .exit rc) :
    Inv words t where
  executed := fun _ => by
    rw [hleft, ← hpc]
    apply h.executed
    intro code hdied
    rw [← hpc, hdied] at hrec
    cases hrec
  sending := fun _ x hx => by
    rcases hstops x hx with hx | hx
    · rw [← hpc] at hrec
      exact h.sending hrec x hx
    · exact hx
  exit := fun rc he => absurd he (hexit rc)

theorem mem_sending {x : StopPc} (hx : x ∈ s.stops ++ [.sending]) :
    x ∈ s.stops ∨ x = .sending := by
  rcases List.mem_append.mp hx with hx | hx
  · exact .inl hx
  · exact .inr (List.mem_singleton.mp hx)

theorem left_returned (s : State) (call : Call) (rest : List Text) :
    (s.returned call rest).executed ++ (s.returned call rest).pc.left =
      s.executed ++ call :: calls rest := List.append_assoc ..

theorem Inv.stepped (h : Inv words s) (hstep : Stepped commandMap returns s t) : Inv words t := by
  cases hstep with
  | listens _ => exact h.frame rfl rfl h.sending
  | drained hpc =>
    exact h.run hpc rfl rfl (fun x hx => .inl hx) fun rc he => nomatch he
  | calls hpc hnext _ =>
    refine h.run hpc rfl ?_ (fun x hx => .inl hx) fun rc he => nomatch he
    exact congrArg (s.executed ++ ·) (nextCall_some hnext).1.symm
  | died code _ =>
    exact ⟨fun hne => absurd rfl (hne code), fun hrec => (nomatch hrec), fun rc he => nomatch he⟩
  | asked hpc _ _ => exact h.run hpc rfl rfl (fun x hx => mem_sending hx) fun rc he => nomatch he
  | returned hpc _ =>
    exact h.run hpc rfl (left_returned s _ _) (fun x hx => .inl hx) fun rc he => nomatch he
  | arrived _ _ =>
    refine h.frame rfl rfl fun hrec x hx => ?_
    rcases mem_sending hx with hx | hx
    · exact h.sending hrec x hx
    · exact hx
  | received hpc _ =>
    have hexec := h.executed fun code he => nomatch hpc.symm.trans he
    rw [hpc] at hexec
    exact ⟨fun _ => hexec, fun hrec => (nomatch hrec), fun rc he => (RunPc.exit.inj he).symm⟩
  | answered hsent =>
    refine h.frame rfl rfl fun hrec => ?_
    exact absurd (h.sending hrec _ (List.mem_of_getElem? hsent)) (by decide)
  | resumed hpc hans =>
    have hrec : s.pc.received = false := by
      rw [hpc]
      rfl
    exact absurd (h.sending hrec _ (List.mem_of_getElem? hans)) (by decide)
  | exits hpc =>
    have hexec := h.executed fun code he => nomatch hpc.symm.trans he
    rw [hpc] at hexec
    exact ⟨fun _ => hexec, fun hrec => (nomatch hrec), fun rc he => nomatch he⟩

theorem inv_of_reach (h : Reach (step commandMap returns) (init words) s) : Inv words s :=
  h.invariant (inv_init words) fun _ _ _ hi _ hs => hi.stepped (stepped_of_step hs)

theorem Inv.reach (hi : Inv words s) (h : Reach (step commandMap returns) s t) : Inv words t :=
  h.invariant hi fun _ _ _ hi _ hs => hi.stepped (stepped_of_step hs)

/-! ### A stop that waits for itself -/

theorem stepped_waiting (hi : Inv words s) {n : ℕ} {call : Call} {rest : List Text}
    (hpc : s.pc = .await n call rest) (h : Stepped commandMap returns s t) :
    (t.pc = .await n call rest ∨ ∃ code, t.pc = .died code) ∧ t.executed = s.executed := by
  cases h with
  | listens _ => exact ⟨.inl hpc, rfl⟩
  | died code _ => exact ⟨.inr ⟨code, rfl⟩, rfl⟩
  | arrived _ _ => exact ⟨.inl hpc, rfl⟩
  | answered _ => exact ⟨.inl hpc, rfl⟩
  | resumed hpc' hans =>
    have hrec : s.pc.received = false := by
      rw [hpc]
      rfl
    exact absurd (hi.sending hrec _ (List.mem_of_getElem? hans)) (by decide)
  | drained h | calls h | asked h | returned h | received h | exits h =>
    exact nomatch hpc.symm.trans h

theorem stepped_died {code : ℕ} (hpc : s.pc = .died code)
    (h : Stepped commandMap returns s t) : t.pc = .died code ∧ t.executed = s.executed := by
  cases h with
  | answered _ => exact ⟨hpc, rfl⟩
  | listens h | died _ h | arrived h =>
    rw [State.running, hpc] at h
    cases h
  | drained h | calls h | asked h | returned h | received h | resumed h | exits h =>
    exact nomatch hpc.symm.trans h

/-- `Run` waits for the answer to a request whose handler waits for `Run`: nothing but
the end of the process follows. -/
theorem waiting_stop_stays (hi : Inv words s) {n : ℕ} {call : Call} {rest : List Text}
    (hpc : s.pc = .await n call rest) (h : Reach (step commandMap returns) s t) :
    (t.pc = .await n call rest ∨ ∃ code, t.pc = .died code) ∧ t.executed = s.executed := by
  apply (h.invariant (P := fun t => Inv words t ∧
    (t.pc = .await n call rest ∨ ∃ code, t.pc = .died code) ∧ t.executed = s.executed)
    ⟨hi, .inl hpc, rfl⟩ _).2
  intro u a v hu _ hstep
  obtain ⟨hinv, hat, hexec⟩ := hu
  have hst := stepped_of_step hstep
  refine ⟨hinv.stepped hst, ?_⟩
  rcases hat with hat | ⟨code, hat⟩
  · obtain ⟨hv, hexec'⟩ := stepped_waiting hinv hat hst
    exact ⟨hv, hexec'.trans hexec⟩
  · obtain ⟨hv, hexec'⟩ := stepped_died hat hst
    exact ⟨.inr ⟨code, hv⟩, hexec'.trans hexec⟩

/-! ### When a request can end the daemon -/

theorem stoppable_of_listening {pc : RunPc} {listening : Bool}
    (h : pc.Stoppable commandMap returns true) : pc.Stoppable commandMap returns listening := by
  cases pc with
  | loop rest | execute call rest => exact ⟨h.1, h.2.of_listening⟩
  | _ => exact h

theorem found_nil (commandMap : Text → Bool) : Found commandMap [] :=
  ⟨separated_last List.not_mem_nil, fun _ hc => nomatch hc⟩

/-- No step makes the daemon stoppable. -/
theorem Stepped.stoppable (hi : Inv words s) (h : Stepped commandMap returns s t)
    (ht : t.Stoppable commandMap returns) : s.Stoppable commandMap returns := by
  have hat : ∀ pc, s.pc = pc → pc.Stoppable commandMap returns s.listening →
      s.Stoppable commandMap returns := by
    intro pc hpc hstop
    rw [State.Stoppable, hpc]
    exact hstop
  cases h with
  | listens _ => exact stoppable_of_listening ht
  | drained hpc => exact hat _ hpc ⟨found_nil commandMap, passes_nil returns s.listening⟩
  | calls hpc hnext hname =>
    refine hat _ hpc ⟨(found_of_nextCall hnext).mpr ⟨hname, ht.1⟩, ?_⟩
    rw [(nextCall_some hnext).1]
    exact ht.2
  | died code _ => exact False.elim ht
  | asked _ _ _ => exact False.elim ht
  | returned hpc hreturns => exact hat _ hpc ⟨ht.1, passes_cons.mpr (.inl ⟨hreturns, ht.2⟩)⟩
  | arrived _ _ => exact ht
  | received hpc _ => exact hat _ hpc trivial
  | answered _ => exact ht
  | resumed hpc hans =>
    have hrec : s.pc.received = false := by
      rw [hpc]
      rfl
    exact absurd (hi.sending hrec _ (List.mem_of_getElem? hans)) (by decide)
  | exits hpc => exact hat _ hpc trivial

theorem stoppable_of_reach (hi : Inv words s) (h : Reach (step commandMap returns) s t)
    (ht : t.Stoppable commandMap returns) : s.Stoppable commandMap returns := by
  induction h with
  | refl => exact ht
  | tail hr _ hs ih => exact ih ((stepped_of_step hs).stoppable (hi.reach hr) ht)

theorem listens_of_running (commandMap : Text → Bool) (returns : Bool → Call → Bool)
    (h : s.running = true) :
    ∃ t, Reach (step commandMap returns) s t ∧ t.pc = s.pc ∧ t.listening = true := by
  cases hl : s.listening with
  | true => exact ⟨s, .refl, rfl, hl⟩
  | false =>
    refine ⟨{ s with listening := true }, .tail .refl trivial (a := .listen) ?_, rfl, rfl⟩
    simp only [step, h, hl, Bool.not_false, Bool.and_self, if_true]

/-- After the last command a request ends the daemon. -/
theorem ends_of_receive (h : s.pc = .receive) :
    ∃ t, Reach (step commandMap returns) s t ∧ t.pc = .ended 0 := by
  obtain ⟨u, hu, hupc, hl⟩ := listens_of_running commandMap returns (running_of_pc h rfl)
  have hpc : u.pc = .receive := hupc.trans h
  have hroute : routesToStop .put "/api/state".toList = true := by decide
  have harrive : step commandMap returns u (.arrive .put "/api/state".toList) =
      some { u with stops := u.stops ++ [.sending] } := by
    have hurun := running_of_pc hpc rfl
    simp only [step, hurun, hl, hroute, Bool.and_self, if_true]
  have hreceive : step commandMap returns { u with stops := u.stops ++ [.sending] }
      (.rendezvous u.stops.length) = some { u with
        pc := .exit 0, stops := (u.stops ++ [StopPc.sending]).set u.stops.length .sent } := by
    simp only [step, hpc, List.getElem?_concat_length, and_self, if_true]
  have hexit : Reach (step commandMap returns) s { u with
      pc := .ended 0, stops := (u.stops ++ [StopPc.sending]).set u.stops.length .sent } :=
    ((hu.tail trivial harrive).tail trivial hreceive).tail trivial (a := .osExit) rfl
  exact ⟨_, hexit, rfl⟩

theorem returns_of_execute {call : Call} {rest : List Text} (hpc : s.pc = .execute call rest)
    (h : canReturn returns s.listening call = true) :
    Reach (step commandMap returns) s (s.returned call rest) := by
  by_cases hs : call.name = stop
  · rw [canReturn, if_pos hs, Bool.not_eq_true'] at h
    refine .tail .refl trivial (a := .clientStop) ?_
    simp only [step, hpc, hs, h, if_true, Bool.false_eq_true, if_false]
  · rw [canReturn, if_neg hs] at h
    refine .tail .refl trivial (a := .returns) ?_
    simp only [step, hpc, ne_eq, hs, not_false_eq_true, h, and_self, if_true]

/-- The daemon listens no later than the first command needs it. -/
theorem passes_of_execute (commandMap : Text → Bool) {call : Call} {rest : List Text}
    (hpc : s.pc = .execute call rest)
    (h : Passes returns s.listening (call :: calls rest)) :
    ∃ t, Reach (step commandMap returns) s t ∧ t.pc = .loop rest ∧
      Passes returns t.listening (calls rest) := by
  rcases passes_cons.mp h with ⟨hnow, hrest⟩ | hlater
  · exact ⟨_, returns_of_execute hpc hnow, rfl, hrest⟩
  · obtain ⟨hcan, hrest⟩ := passes_listening.mp hlater
    obtain ⟨u, hu, hupc, hl⟩ := listens_of_running commandMap returns (running_of_pc hpc rfl)
    have hnow : canReturn returns u.listening call = true := hl ▸ hcan
    have hpasses : Passes returns u.listening (calls rest) := hl ▸ hrest
    exact ⟨_, hu.trans (returns_of_execute (hupc.trans hpc) hnow), rfl, hpasses⟩

/-- The commands ahead return one after the other. -/
theorem receives_of_loop (hpc : s.pc = .loop words) (hfound : Found commandMap words)
    (h : Passes returns s.listening (calls words)) :
    ∃ t, Reach (step commandMap returns) s t ∧ t.pc = .receive := by
  induction hn : words.length using Nat.strong_induction_on generalizing words s with
  | _ n ih =>
    cases words with
    | nil =>
      refine ⟨{ s with pc := .receive }, .tail .refl trivial (a := .turn) ?_, rfl⟩
      simp only [step, hpc]
    | cons name args =>
      cases hnext : nextCall (name :: args) with
      | none => exact absurd hfound.1 (nextCall_none hnext)
      | some p =>
        obtain ⟨call, rest⟩ := p
        obtain ⟨hname, hrest⟩ := (found_of_nextCall hnext).mp hfound
        obtain ⟨hcalls, -, hlen⟩ := nextCall_some hnext
        rw [hcalls] at h
        have hturn : step commandMap returns s .turn =
            some { s with pc := .execute call rest } := by
          simp only [step, hpc, hnext, State.executeCommand, hname, if_true]
        obtain ⟨u, hu, hupc, hpasses⟩ :=
          passes_of_execute commandMap (s := { s with pc := .execute call rest }) rfl h
        obtain ⟨t, ht, hreceive⟩ := ih rest.length (hn ▸ hlen) hupc hrest hpasses rfl
        exact ⟨t, ((Run.tail .refl trivial hturn).trans hu).trans ht, hreceive⟩

theorem ends_of_loop (hpc : s.pc = .loop words) (hfound : Found commandMap words)
    (h : Passes returns s.listening (calls words)) :
    ∃ t, Reach (step commandMap returns) s t ∧ t.pc = .ended 0 := by
  obtain ⟨u, hu, hreceive⟩ := receives_of_loop hpc hfound h
  obtain ⟨t, ht, hended⟩ := ends_of_receive hreceive
  exact ⟨t, hu.trans ht, hended⟩

end Invariant

/-- From a state of the daemon a run leads to an end by a request exactly if no command
ahead is missing, every separator ahead has a word before it, and the commands ahead can
return one after the other, with a listener from some time on; at such an end all
additional commands have been executed, in order. A `stop` of the daemon that has found
the listener waits for as long as the process lives, and no command follows on it. -/
theorem ends_by_request_iff (commandMap : Text → Bool) (returns : Bool → Call → Bool)
    (additionalCommands : List Text) (s : State)
    (h : Reach (step commandMap returns) (init additionalCommands) s) :
    ((∃ t, Reach (step commandMap returns) s t ∧ t.pc = .ended 0) ↔
        s.Stoppable commandMap returns) ∧
      (∀ t, Reach (step commandMap returns) s t → t.pc = .ended 0 →
        t.executed = calls additionalCommands) ∧
      ∀ n call rest, s.pc = .await n call rest → ∀ t, Reach (step commandMap returns) s t →
        (t.pc = .await n call rest ∨ ∃ code, t.pc = .died code) ∧ t.executed = s.executed := by
  have hi := inv_of_reach h
  refine ⟨⟨?_, ?_⟩, ?_, fun n call rest hpc t ht => waiting_stop_stays hi hpc ht⟩
  · rintro ⟨t, ht, hended⟩
    apply stoppable_of_reach hi ht
    rw [State.Stoppable, hended]
    rfl
  · intro hstop
    cases hpc : s.pc with
    | loop words =>
      rw [State.Stoppable, hpc] at hstop
      exact ends_of_loop hpc hstop.1 hstop.2
    | execute call rest =>
      rw [State.Stoppable, hpc] at hstop
      obtain ⟨u, hu, hupc, hpasses⟩ := passes_of_execute commandMap hpc hstop.2
      obtain ⟨t, ht, hended⟩ := ends_of_loop hupc hstop.1 hpasses
      exact ⟨t, hu.trans ht, hended⟩
    | await n call rest | died code =>
      rw [State.Stoppable, hpc] at hstop
      exact hstop.elim
    | receive => exact ends_of_receive hpc
    | exit rc =>
      obtain rfl := hi.exit rc hpc
      refine ⟨{ s with pc := .ended 0 }, .tail .refl trivial (a := .osExit) ?_, rfl⟩
      simp only [step, hpc]
    | ended code =>
      rw [State.Stoppable, hpc] at hstop
      obtain rfl : code = 0 := hstop
      exact ⟨s, .refl, hpc⟩
  · intro t ht hended
    have hexec := (hi.reach ht).executed fun code he => nomatch hended.symm.trans he
    rw [hended] at hexec
    exact (List.append_nil _).symm.trans hexec

section Example

def registered : List Text :=
  ["connect".toList, "add-dialer".toList, "list-dialers".toList, "iptables-script".toList,
    "start-proxy".toList, "list-proxies".toList, "list-rules".toList, "add-rule".toList,
    "add-ssh-key".toList, "status".toList, "stop".toList, "version".toList]

def commandMap (name : Text) : Bool := registered.contains name

/-- `status` ends the process without a listener; two commands take an argument for
granted, the others have nothing in their way. -/
def commandReturns (listening : Bool) (call : Call) : Bool :=
  if call.name = "status".toList then listening
  else if call.name = "start-proxy".toList ∨ call.name = "add-dialer".toList then
    !call.args.isEmpty
  else true

def stopBetween : List Text :=
  ["status".toList, separator, "stop".toList, separator, "status".toList]

/-- No request ends `daemon start-proxy`, nor `daemon status -- stop -- status` from the
state on in which the `stop` waits. -/
theorem stop_between_commands :
    (¬∃ t, Reach (step commandMap commandReturns) (init ["start-proxy".toList]) t ∧
      t.pc = .ended 0) ∧
    ∃ s, Reach (step commandMap commandReturns) (init stopBetween) s ∧
      s.pc = .await 0 ⟨stop, []⟩ ["status".toList] ∧
      ¬∃ t, Reach (step commandMap commandReturns) s t ∧ t.pc = .ended 0 := by
  refine ⟨fun h => ?_, ?_⟩
  · have hstop := (ends_by_request_iff commandMap commandReturns ["start-proxy".toList]
      (init ["start-proxy".toList]) .refl).1.mp h
    exact absurd hstop.2 (by decide)
  · obtain ⟨s, hs, hwait⟩ := reach_of_check (step commandMap commandReturns) (init stopBetween)
      [.turn, .listen, .returns, .turn, .clientStop]
      (fun s => decide (s.pc = .await 0 ⟨stop, []⟩ ["status".toList])) (by decide)
    have hpc := of_decide_eq_true hwait
    refine ⟨s, hs, hpc, fun h => ?_⟩
    have hstop := (ends_by_request_iff commandMap commandReturns stopBetween s hs).1.mp h
    rw [State.Stoppable, hpc] at hstop
    exact hstop

end Example

end SshTunnel.Stopping
