import SshTunnel.AdditionalCommands
import SshTunnel.Lib.Slices

/-!
# The slice behind the additional commands (`server/server.go:216-230`, `commands/connect.go:21-31`)

The loop of `Run` hands each command a part of its own slice, and `connect` filters
its arguments in place: it overwrites the array that holds the commands still to
come. What the loop executes is the same as on lists.
-/

namespace SshTunnel.ArgumentSlices

open Lib.Net (Text)
open Lib.Slices
open AdditionalCommands (Call Outcome separator)

def connect : Text := "connect".toList
def acceptHostKeys : Text := "--accept-host-keys".toList

instance : Inhabited Text := ⟨[]⟩

section Model

variable (g : Growth) (commandMap : Text → Bool)

/-- `filteredArgs` of `cmdConnect.Execute`. -/
def filteredArgs (h : Heap Text) (args : Slice) : Heap Text × Slice :=
  h.filterInPlace g (fun a => decide (a ≠ acceptHostKeys)) args

/-- `ExecuteCommand`; of the commands only `connect` writes to its arguments. -/
def executeCommand (name : Text) (args : Slice) (h : Heap Text) (executed : List Call) :
    Option (Heap Text × List Call) :=
  if commandMap name then
    some (if name = connect then (filteredArgs g h args).1 else h,
      executed ++ [⟨name, h.read args⟩])
  else none

/-- At most `n` turns of the loop labelled `outer`. -/
def run : ℕ → Heap Text → Slice → List Call → Option Outcome
  | 0, _, _, _ => none
  | n + 1, h, additionalCommands, executed =>
    match h.read additionalCommands with
    | [] => some (.finished executed)
    | name :: words =>
      match (name :: words).findIdx? fun a => a = separator with
      | some i =>
        match additionalCommands.sub 1 i, additionalCommands.sub (i + 1) additionalCommands.len with
        | some args, some rest =>
          match executeCommand g commandMap name args h executed with
          | none => some (.exited executed)
          | some (h', executed') => run n h' rest executed'
        | _, _ => some (.panicked executed)
      | none =>
        match additionalCommands.sub 1 additionalCommands.len with
        | none => some (.panicked executed)
        | some args =>
          match executeCommand g commandMap name args h executed with
          | none => some (.exited executed)
          | some (_, executed') => some (.finished executed')

end Model

section Loop

variable {g : Growth} {commandMap : Text → Bool} {h : Heap Text} {s t : Slice}

/-- A command leaves the windows that are disjoint from its arguments as they were. -/
theorem executeCommand_frame {name : Text} {args u : Slice} {executed : List Call}
    {h' : Heap Text} {executed' : List Call} (ha : h.Holds args) (hu : h.Holds u)
    (hd : Disjoint args u) (he : executeCommand g commandMap name args h executed =
      some (h', executed')) :
    h'.Holds u ∧ h'.read u = h.read u := by
  rw [executeCommand, Option.ite_none_right_eq_some] at he
  have hpair := Option.some.inj he.2
  rw [Prod.mk.injEq] at hpair
  obtain ⟨rfl, -⟩ := hpair
  split
  · obtain ⟨hholds, hread⟩ := filterInPlace_frame (g := g)
      (p := fun a => decide (a ≠ acceptHostKeys)) ha hu
    exact ⟨hholds, hread hd⟩
  · exact ⟨hu, rfl⟩

theorem executeCommand_calls (g : Growth) (commandMap : Text → Bool) (h : Heap Text) (name : Text)
    (args : Slice) (executed : List Call) :
    (executeCommand g commandMap name args h executed).map Prod.snd =
      AdditionalCommands.executeCommand commandMap name (h.read args) executed := by
  rw [executeCommand, AdditionalCommands.executeCommand]
  split <;> rfl

theorem run_slice (n : ℕ) (hs : h.Holds s) (executed : List Call) :
    run g commandMap n h s executed =
      AdditionalCommands.run commandMap n (h.read s) executed := by
  induction n generalizing h s executed with
  | zero => rfl
  | succ n ih =>
    have hlen := hs.length
    rw [run]
    cases hread : h.read s with
    | nil => rfl
    | cons name words =>
      rw [hread] at hlen
      rw [AdditionalCommands.run]
      dsimp only
      cases hfind : (name :: words).findIdx? fun a => a = separator with
      | none =>
        have hone : 1 ≤ s.len := by
          rw [← hlen]
          exact Nat.succ_le_succ (Nat.zero_le _)
        have hsub := Slice.sub_eq hone le_rfl
        have hargs := h.read_sub le_rfl hsub
        rw [hread, List.take_of_length_le hlen.le] at hargs
        have hcalls := executeCommand_calls g commandMap h name ⟨s.array, s.offset + 1, s.len - 1,
          s.cap - 1, Nat.sub_le_sub_right s.len_le 1⟩ executed
        rw [hargs, List.drop_one, List.tail_cons] at hcalls
        rw [hsub]
        dsimp only
        rw [← hcalls]
        cases executeCommand g commandMap name _ h executed <;> rfl
      | some i =>
        have hi : i < s.len := by
          rw [← hlen]
          exact (List.findIdx?_eq_some_iff_getElem.mp hfind).1
        have hrest := Slice.sub_eq (Nat.succ_le_of_lt hi) le_rfl
        by_cases hpos : 1 ≤ i
        · have hsub := Slice.sub_eq hpos hi.le
          have hargs := h.read_sub hi.le hsub
          have htail := h.read_sub le_rfl hrest
          have hslice : AdditionalCommands.slice (name :: words) 1 i =
              some (((name :: words).take i).drop 1) :=
            if_pos ⟨hpos, by rw [hlen]; exact hi.le⟩
          rw [hread] at hargs htail
          rw [List.take_of_length_le hlen.le] at htail
          dsimp only
          rw [hsub, hrest, hslice]
          dsimp only
          rw [← hargs, ← executeCommand_calls g commandMap h]
          cases hexec : executeCommand g commandMap name _ h executed with
          | none => rfl
          | some next =>
            obtain ⟨h', executed'⟩ := next
            obtain ⟨hholds, hkept⟩ := executeCommand_frame (hs.sub hsub) (hs.sub hrest)
              (.inr (.inl (by simp only; omega))) hexec
            dsimp only [Option.map_some]
            rw [ih hholds, hkept, htail]
        · have hzero : i = 0 := by omega
          subst hzero
          have hsub : s.sub 1 0 = none := dif_neg fun hle => absurd hle.1 (by decide)
          have hslice : AdditionalCommands.slice (name :: words) 1 0 = none :=
            if_neg fun hle => absurd hle.1 (by decide)
          dsimp only
          rw [hsub, hslice]

end Loop

/-- `os.Args`, of which the additional commands are the end. -/
def osArgs (program additionalCommands : List Text) : Heap Text :=
  ⟨fun _ => program ++ additionalCommands, 1⟩

def commandsOf (program additionalCommands : List Text) : Slice :=
  ⟨0, program.length, additionalCommands.length, additionalCommands.length, le_rfl⟩

theorem osArgs_holds (program additionalCommands : List Text) :
    (osArgs program additionalCommands).Holds (commandsOf program additionalCommands) :=
  ⟨Nat.zero_lt_one, by rw [osArgs, commandsOf, List.length_append]⟩

/-- Although `connect` overwrites its arguments in the array that holds all commands,
the daemon executes what the loop executes on the list of the words; and `connect`
keeps of the words it is given all that are not its flag. -/
theorem run_shared_array (g : Growth) (commandMap : Text → Bool)
    (program additionalCommands : List Text) :
    (∀ n, run g commandMap n (osArgs program additionalCommands)
        (commandsOf program additionalCommands) [] =
      AdditionalCommands.run commandMap n additionalCommands []) ∧
    ∀ lo hi args, (commandsOf program additionalCommands).sub lo hi = some args →
      hi ≤ additionalCommands.length →
        (filteredArgs g (osArgs program additionalCommands) args).1.read
            (filteredArgs g (osArgs program additionalCommands) args).2 =
          ((additionalCommands.take hi).drop lo).filter fun a => a ≠ acceptHostKeys := by
  have hholds := osArgs_holds program additionalCommands
  have hread : (osArgs program additionalCommands).read (commandsOf program additionalCommands) =
      additionalCommands := by
    rw [Heap.read, osArgs, commandsOf, List.drop_left, List.take_length]
  refine ⟨fun n => ?_, fun lo hi args hsub hhi => ?_⟩
  · rw [run_slice n hholds, hread]
  · rw [filteredArgs, filterInPlace_read (hholds.sub hsub),
      Heap.read_sub (osArgs program additionalCommands) hhi hsub, hread]

section Example

def connectThenStatus : List Text := [connect, acceptHostKeys, separator, "status".toList]

/-- `connect` drops its flag, and `status` is still executed. -/
theorem run_connect_then_status :
    run doubling (fun _ => true) 3 (osArgs ["sshtunnel".toList, "daemon".toList] connectThenStatus)
        (commandsOf ["sshtunnel".toList, "daemon".toList] connectThenStatus) [] =
      some (.finished [⟨connect, [acceptHostKeys]⟩, ⟨"status".toList, []⟩]) := by
  rw [(run_shared_array doubling _ _ _).1]
  decide

end Example

end SshTunnel.ArgumentSlices
