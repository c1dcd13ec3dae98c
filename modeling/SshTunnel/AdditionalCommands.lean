import SshTunnel.Lib.Net
import Mathlib.Data.List.Infix

/-!
# The additional commands of the daemon (`server/server.go:216-230`, `commands/commands.go:43-50`)

What stands behind the flags of the daemon are commands, separated by `--`. The loop
of `Run` cuts the first one off and goes on with the rest. It takes the word before
a separator for granted: without one the slice of the arguments is not valid.
-/

namespace SshTunnel.AdditionalCommands

open Lib.Net (Text)

structure Call where
  name : Text
  args : List Text
  deriving DecidableEq

def separator : Text := "--".toList

inductive Outcome where
  | finished (executed : List Call)
  | panicked (executed : List Call)
  /-- `usage` ends the process. -/
  | exited (executed : List Call)
  deriving DecidableEq

/-- `s[lo:hi]`; `none` is a panic. -/
def slice (s : List Text) (lo hi : ℕ) : Option (List Text) :=
  if lo ≤ hi ∧ hi ≤ s.length then some ((s.take hi).drop lo) else none

/-- The commands that were executed, or `none` if the process has ended. A command
that is registered is assumed to return. -/
def executeCommand (commandMap : Text → Bool) (name : Text) (args : List Text)
    (executed : List Call) : Option (List Call) :=
  if commandMap name then some (executed ++ [⟨name, args⟩]) else none

/-- At most `n` turns of the loop labelled `outer`. -/
def run (commandMap : Text → Bool) : ℕ → List Text → List Call → Option Outcome
  | 0, _, _ => none
  | _ + 1, [], executed => some (.finished executed)
  | n + 1, name :: words, executed =>
    match (name :: words).findIdx? fun a => a = separator with
    | some i =>
      match slice (name :: words) 1 i with
      | none => some (.panicked executed)
      | some args =>
        match executeCommand commandMap name args executed with
        | none => some (.exited executed)
        | some executed' => run commandMap n ((name :: words).drop (i + 1)) executed'
    | none =>
      match executeCommand commandMap name words executed with
      | none => some (.exited executed)
      | some executed' => some (.finished executed')

/-! ### The commands of a vector -/

def callOf : List Text → Option Call
  | [] => none
  | name :: args => some ⟨name, args⟩

/-- The segments between the separators that are not empty, as commands. -/
def calls (additionalCommands : List Text) : List Call :=
  (additionalCommands.splitOn separator).filterMap callOf

/-- Every separator has a word before it that is none. -/
def Separated (additionalCommands : List Text) : Prop :=
  additionalCommands.head? ≠ some separator ∧ ¬[separator, separator] <:+: additionalCommands

instance decidableSeparated (additionalCommands : List Text) :
    Decidable (Separated additionalCommands) := inferInstanceAs (Decidable (_ ∧ _))

section Segments

variable {seg rest : List Text}

theorem calls_nil : calls [] = [] := rfl

theorem calls_last (hseg : separator ∉ seg) : calls seg = (callOf seg).toList := by
  rw [calls, List.splitOn_eq_singleton hseg]
  cases seg <;> rfl

theorem calls_cut (hseg : separator ∉ seg) (rest : List Text) :
    calls (seg ++ separator :: rest) = (callOf seg).toList ++ calls rest := by
  rw [calls, List.splitOn_append_cons_self_of_not_mem hseg, ← List.singleton_append,
    List.filterMap_append, ← calls]
  cases seg <;> rfl

theorem findIdx?_cut (hseg : separator ∉ seg) (rest : List Text) :
    (seg ++ separator :: rest).findIdx? (fun a => a = separator) = some seg.length := by
  rw [List.findIdx?_eq_some_iff_getElem]
  refine ⟨by simp, by simp, fun j hj h => ?_⟩
  rw [List.getElem_append_left hj, decide_eq_true_iff] at h
  exact hseg (h ▸ List.getElem_mem hj)

theorem findIdx?_last (hseg : separator ∉ seg) :
    seg.findIdx? (fun a => a = separator) = none := by
  rw [List.findIdx?_eq_none_iff]
  intro a ha
  exact decide_eq_false fun he => hseg (he ▸ ha)

theorem separated_last (hseg : separator ∉ seg) : Separated seg := by
  refine ⟨fun h => hseg (List.mem_of_head? h), fun h => hseg ?_⟩
  exact h.subset List.mem_cons_self

theorem singleton_prefix : [separator] <+: rest ↔ rest.head? = some separator := by
  cases rest with
  | nil => simp
  | cons a rest => simp [List.cons_prefix_cons, eq_comm]

theorem infix_cut (hseg : separator ∉ seg) :
    [separator, separator] <:+: seg ++ separator :: rest ↔
      rest.head? = some separator ∨ [separator, separator] <:+: rest := by
  induction seg with
  | nil =>
    rw [List.nil_append, List.infix_cons_iff, List.cons_prefix_cons, singleton_prefix]
    exact or_congr_left (and_iff_right rfl)
  | cons a seg ih =>
    have ha : separator ≠ a := fun he => hseg (he ▸ List.mem_cons_self)
    rw [List.cons_append, List.infix_cons_iff, List.cons_prefix_cons,
      ih fun hm => hseg (List.mem_cons_of_mem a hm)]
    exact or_iff_right fun h => ha h.1

/-- Cutting at the first separator leaves a word before it and a separated rest. -/
theorem separated_cut (hseg : separator ∉ seg) :
    Separated (seg ++ separator :: rest) ↔ seg ≠ [] ∧ Separated rest := by
  have hhead : (seg ++ separator :: rest).head? ≠ some separator ↔ seg ≠ [] := by
    cases seg with
    | nil => simp
    | cons a seg =>
      have ha : a ≠ separator := fun he => hseg (he ▸ List.mem_cons_self)
      simp [ha]
  rw [Separated, Separated, hhead, infix_cut hseg, not_or]

end Segments

/-! ### The loop -/

section Loop

variable {commandMap : Text → Bool} {name : Text} {seg words rest : List Text}
  {executed : List Call} {n : ℕ}

theorem run_cut (commandMap : Text → Bool) (hseg : separator ∉ name :: words)
    (rest : List Text) (executed : List Call) (n : ℕ) :
    run commandMap (n + 1) (name :: words ++ separator :: rest) executed =
      match executeCommand commandMap name words executed with
      | none => some (.exited executed)
      | some executed' => run commandMap n rest executed' := by
  have hfind := findIdx?_cut hseg rest
  have hslice : slice (name :: words ++ separator :: rest) 1 (name :: words).length =
      some words := by
    rw [slice, if_pos ⟨by simp, by simp⟩, List.take_left]
    rfl
  have hdrop : (name :: words ++ separator :: rest).drop ((name :: words).length + 1) = rest := by
    rw [← List.drop_drop, List.drop_left]
    rfl
  rw [List.cons_append] at hfind hslice hdrop ⊢
  rw [run, hfind]
  simp only [hslice, hdrop]

theorem run_separator (rest : List Text) (executed : List Call) (n : ℕ) :
    run commandMap (n + 1) (separator :: rest) executed = some (.panicked executed) := by
  have hfind : (separator :: rest).findIdx? (fun a => a = separator) = some 0 :=
    findIdx?_cut List.not_mem_nil rest
  have hslice : slice (separator :: rest) 1 0 = none := if_neg fun h => absurd h.1 (by decide)
  rw [run, hfind]
  simp only [hslice]

theorem run_last (hseg : separator ∉ name :: words) (hname : commandMap name = true)
    (executed : List Call) (n : ℕ) :
    run commandMap (n + 1) (name :: words) executed =
      some (.finished (executed ++ [⟨name, words⟩])) := by
  rw [run, findIdx?_last hseg]
  simp only [executeCommand, hname, if_true]

theorem separated_of_finished {log : List Call}
    (h : run commandMap n words executed = some (.finished log)) : Separated words := by
  induction n generalizing words executed with
  | zero => cases h
  | succ n ih =>
    by_cases hmem : separator ∈ words
    · obtain ⟨seg, rest, rfl, hseg⟩ := List.eq_append_cons_of_mem hmem
      cases seg with
      | nil =>
        rw [List.nil_append, run_separator] at h
        cases h
      | cons name args =>
        rw [run_cut commandMap hseg, executeCommand] at h
        rw [separated_cut hseg]
        cases hname : commandMap name with
        | false => simp [hname] at h
        | true =>
          rw [hname] at h
          exact ⟨List.cons_ne_nil _ _, ih h⟩
    · exact separated_last hmem

/-- As long as there is a command before each separator, one is executed in each turn. -/
theorem finished_of_separated (m : ℕ) (hlen : words.length ≤ m) (hsep : Separated words)
    (hreturn : ∀ call ∈ calls words, commandMap call.name = true) (executed : List Call) :
    run commandMap (m + 1) words executed = some (.finished (executed ++ calls words)) := by
  induction m generalizing words executed with
  | zero =>
    obtain rfl := List.length_eq_zero_iff.mp (Nat.le_zero.mp hlen)
    rw [calls_nil, List.append_nil, run]
  | succ m ih =>
    by_cases hmem : separator ∈ words
    · obtain ⟨seg, rest, rfl, hseg⟩ := List.eq_append_cons_of_mem hmem
      obtain ⟨hne, hrest⟩ := (separated_cut hseg).mp hsep
      rw [calls_cut hseg] at hreturn ⊢
      cases seg with
      | nil => exact absurd rfl hne
      | cons name args =>
        have hname : commandMap name = true :=
          hreturn ⟨name, args⟩ (List.mem_append_left _ (List.mem_singleton_self _))
        have hshort : rest.length ≤ m := by
          rw [List.length_append, List.length_cons, List.length_cons] at hlen
          omega
        rw [run_cut commandMap hseg, executeCommand, if_pos hname]
        dsimp only
        rw [ih hshort hrest fun call hc => hreturn call (List.mem_append_right _ hc),
          List.append_assoc]
        rfl
    · rw [calls_last hmem] at hreturn ⊢
      cases words with
      | nil =>
        rw [run]
        simp [callOf]
      | cons name args =>
        exact run_last hmem (hreturn ⟨name, args⟩ (List.mem_singleton_self _)) executed _

end Loop

/-- The loop executes the commands of a vector, and ends, exactly if every separator
has a word before it. -/
theorem run_executes_iff (commandMap : Text → Bool) (additionalCommands : List Text)
    (hreturn : ∀ call ∈ calls additionalCommands, commandMap call.name = true) :
    (∃ n, run commandMap n additionalCommands [] = some (.finished (calls additionalCommands))) ↔
      Separated additionalCommands := by
  constructor
  · rintro ⟨n, hrun⟩
    exact separated_of_finished hrun
  · intro hsep
    exact ⟨_, finished_of_separated additionalCommands.length le_rfl hsep hreturn []⟩

section Example

def twoCommands : List Text :=
  ["add-dialer".toList, "u@h".toList, separator, "status".toList, separator]

def bothKnown (name : Text) : Bool := name = "add-dialer".toList ∨ name = "status".toList

theorem run_two_commands :
    ∃ n, run bothKnown n twoCommands [] = some (.finished (calls twoCommands)) :=
  (run_executes_iff bothKnown twoCommands (by decide)).mpr (by decide)

/-- A separator in front is no empty segment that is skipped: the daemon panics. -/
theorem run_leading_separator :
    (∀ n, run bothKnown (n + 1) [separator, "status".toList] [] = some (.panicked [])) ∧
      ¬∀ (commandMap : Text → Bool) (args : List Text),
        (∀ call ∈ calls args, commandMap call.name = true) →
          ∃ n, run commandMap n args [] = some (.finished (calls args)) := by
  refine ⟨run_separator _ _, fun hall => ?_⟩
  obtain ⟨n, hrun⟩ := hall bothKnown [separator, "status".toList] (by decide)
  exact absurd (separated_of_finished hrun) (by decide)

end Example

end SshTunnel.AdditionalCommands
