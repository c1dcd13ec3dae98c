import SshTunnel.ClientHook.Rounds
import Mathlib.Data.Set.Finite.Lattice
import Mathlib.Order.Interval.Set.Infinite

/-!
# The end of the read loop (`client-hook/client-hook.cpp:194-225`)

The loop stops for a `read` that gives 0, not for one that fails: the byte in `*p`
is then looked at once more, and a carriage return is read over again and again.
-/

namespace SshTunnel.ClientHook

open Lib.Net (Text)
open Lib.Lines

/-- The results of the first `n` reads. -/
def results (f : ℕ → Option Read) (n : ℕ) : List (Option Read) := (List.range n).map f

def Terminates (f : ℕ → Option Read) : Prop := ∃ n h, cleared.run (results f n) = .ended h

/-- The reads give what the stream has, and then 0 or for ever -1. -/
def Stream.Delivers (stream : Stream) (f : ℕ → Option Read) : Prop :=
  results f stream.reads.length = stream.reads.map some ∧
    match stream.ending with
    | .eof => f stream.reads.length = none
    | .silent => False
    | .failing => ∀ n, stream.reads.length ≤ n → f n = some .error

section Results

variable {f : ℕ → Option Read} {n m : ℕ} {h : HttpClient} {as bs reads : List Read}
  {stale : Bool} {u : Text}

theorem results_succ (f : ℕ → Option Read) (n : ℕ) :
    results f (n + 1) = results f n ++ [f n] := by
  rw [results, List.range_succ, List.map_append, List.map_singleton, results]

theorem results_prefix (hle : n ≤ m) : ∃ t, results f m = results f n ++ t := by
  induction m, hle using Nat.le_induction with
  | base => exact ⟨[], (List.append_nil _).symm⟩
  | succ m _ ih =>
    obtain ⟨t, ht⟩ := ih
    exact ⟨t ++ [f m], by rw [results_succ, ht, List.append_assoc]⟩

theorem ended_mono (hrun : cleared.run (results f n) = .ended h) (hle : n ≤ m) :
    cleared.run (results f m) = .ended h := by
  obtain ⟨t, ht⟩ := results_prefix hle
  rw [ht, run_append, hrun]
  rfl

theorem delivered_map (reads : List Read) : delivered (reads.map some) = reads := by
  induction reads with
  | nil => rfl
  | cons r reads ih => rw [List.map_cons, delivered, ih]

theorem delivered_some {rs : List (Option Read)} (hnone : none ∉ rs) :
    (delivered rs).map some = rs := by
  induction rs with
  | nil => rfl
  | cons o rs ih =>
    rw [List.mem_cons, not_or] at hnone
    cases o with
    | none => exact absurd rfl hnone.1
    | some r => rw [delivered, List.map_cons, ih hnone.2]

theorem run_map_ended_iff (reads : List Read) :
    (∃ h, cleared.run (reads.map some) = .ended h) ↔ Stream.Finishes ⟨reads, .silent⟩ := by
  have hending : endingOf (reads.map some) = .silent := by simp [endingOf]
  rw [run_ended_iff cleared_length, delivered_map, hending,
    cleared_loop_returns_iff ⟨reads, .silent⟩]

/-! Reads that fail. -/

theorem effective_append (stale : Bool) (as bs : List Read) :
    effective stale (as ++ bs) =
      effective stale as ++ effective (staleAfter stale (effective stale as)) bs := by
  induction as generalizing stale with
  | nil => rfl
  | cons r as ih => rw [List.cons_append, effective_cons, effective_cons, ih, staleAfter_cons,
      List.cons_append]

theorem effective_errors (stale : Bool) (m : ℕ) :
    effective stale (List.replicate m .error) = List.replicate m (seen stale .error) := by
  induction m generalizing stale with
  | zero => rfl
  | succ m ih =>
    have hstale : decide (seen stale .error = '\r') = stale := by cases stale <;> decide
    rw [List.replicate_succ, effective_cons, hstale, ih, List.replicate_succ]

theorem stored_errors (m : ℕ) :
    stored (List.replicate m (seen stale .error)) =
      if stale then [] else List.replicate m nul := by
  cases stale with
  | true => simp [stored, seen]
  | false => simp [stored, seen, nul]

theorem splitLines_nuls (t : Text) (m : ℕ) :
    (splitLines (t ++ List.replicate m nul)).1 = (splitLines t).1 := by
  rw [splitLines_append]
  simp [nul]

theorem take_nuls (u : Text) (m : ℕ) :
    ∃ k, (u ++ List.replicate m nul).take 1023 = u.take 1023 ++ List.replicate k nul :=
  ⟨_, by rw [List.take_append, List.take_replicate]⟩

/-- Without a carriage return to read over, failing reads fill the buffer. -/
theorem finishes_nuls (stale : Bool) (u : Text) :
    (∃ m, Finishes (u ++ List.replicate m nul) stale .silent) ↔ Finishes u false .failing := by
  have hlines : ∀ m, (splitLines ((u ++ List.replicate m nul).take 1023)).1 =
      (splitLines (u.take 1023)).1 := by
    intro m
    obtain ⟨k, hk⟩ := take_nuls u m
    rw [hk, splitLines_nuls]
  unfold Finishes HeaderEnds
  simp only [hlines, List.length_append, List.length_replicate]
  constructor
  · rintro ⟨m, hends | ⟨hlt, -⟩⟩
    · exact .inl hends
    · exact .inr ⟨hlt, by simp⟩
  · rintro (hends | ⟨hlt, -⟩)
    · exact ⟨0, .inl hends⟩
    · exact ⟨1023, .inr ⟨hlt, .inl (Nat.le_add_left _ _)⟩⟩

theorem finishes_errors (reads : List Read) :
    (∃ m, Stream.Finishes ⟨reads ++ List.replicate m .error, .silent⟩) ↔
      Stream.Finishes ⟨reads, .failing⟩ := by
  simp only [Stream.Finishes, effective_append, effective_errors, stored_append, stored_errors]
  cases staleAfter false (effective false reads) with
  | true => simp [Finishes]
  | false =>
    simp only [Bool.false_eq_true, if_false]
    rw [← finishes_nuls false]
    simp [Finishes]

/-! The two endings. -/

theorem delivered_none (reads : List Read) : delivered (reads.map some ++ [none]) = reads := by
  induction reads with
  | nil => rfl
  | cons r reads ih => rw [List.map_cons, List.cons_append, delivered, ih]

theorem run_none (h : HttpClient) (rs : List (Option Read)) :
    (∃ h', h.run (rs ++ [none]) = .ended h') ∨ h.run (rs ++ [none]) = .undefined := by
  rw [run_append]
  cases h.run rs with
  | running h' => exact .inl ⟨h', rfl⟩
  | ended h' => exact .inl ⟨h', rfl⟩
  | undefined => exact .inr rfl

theorem terminates_eof (hreads : results f reads.length = reads.map some)
    (hend : f reads.length = none) : Terminates f ↔ Stream.Finishes ⟨reads, .eof⟩ := by
  have hlist : results f (reads.length + 1) = reads.map some ++ [none] := by
    rw [results_succ, hreads, hend]
  have hending : endingOf (reads.map some ++ [none]) = .eof := if_pos (by simp)
  have hrun : (∃ h, cleared.run (results f (reads.length + 1)) = .ended h) ↔
      Stream.Finishes ⟨reads, .eof⟩ := by
    rw [hlist, run_ended_iff cleared_length, delivered_none, hending,
      cleared_loop_returns_iff ⟨reads, .eof⟩]
  rw [← hrun]
  refine ⟨?_, fun ⟨h, hh⟩ => ⟨_, h, hh⟩⟩
  rintro ⟨n, h, hh⟩
  rcases run_none cleared (reads.map some) with hended | hundefined
  · rwa [hlist]
  · obtain ⟨t, ht⟩ := results_prefix (f := f) (le_max_right n (reads.length + 1))
    have hmax := ended_mono hh (le_max_left n (reads.length + 1))
    rw [ht, run_append, hlist, hundefined] at hmax
    cases hmax

theorem terminates_failing (reads : List Read) (hreads : results f reads.length = reads.map some)
    (hend : ∀ n, reads.length ≤ n → f n = some .error) :
    Terminates f ↔ Stream.Finishes ⟨reads, .failing⟩ := by
  have hlist : ∀ m, results f (reads.length + m) =
      (reads ++ List.replicate m Read.error).map some := by
    intro m
    induction m with
    | zero => rw [Nat.add_zero, hreads, List.replicate_zero, List.append_nil]
    | succ m ih =>
      rw [← Nat.add_assoc, results_succ, ih, hend _ (Nat.le_add_right _ _),
        List.replicate_succ', ← List.append_assoc, List.map_append, List.map_append,
        List.map_append]
      rfl
  rw [← finishes_errors]
  constructor
  · rintro ⟨n, h, hh⟩
    have hmore := ended_mono hh (Nat.le_add_left n reads.length)
    rw [hlist] at hmore
    exact ⟨n, (run_map_ended_iff _).mp ⟨h, hmore⟩⟩
  · rintro ⟨m, hm⟩
    obtain ⟨h, hh⟩ := (run_map_ended_iff _).mpr hm
    exact ⟨reads.length + m, h, by rw [hlist, hh]⟩

theorem results_length (f : ℕ → Option Read) (n : ℕ) : (results f n).length = n := by
  rw [results, List.length_map, List.length_range]

/-- Finitely many bytes come from a stream that ends or fails for ever. -/
theorem exists_delivers (hfin : {n | ∃ c, f n = some (.byte c)}.Finite) :
    ∃ stream : Stream, stream.Delivers f := by
  by_cases hnone : ∃ n, f n = none
  · have hsome : none ∉ results f (Nat.find hnone) := by
      intro hmem
      obtain ⟨i, hi, hf⟩ := List.mem_map.mp hmem
      exact Nat.find_min hnone (List.mem_range.mp hi) hf
    have hmap := delivered_some hsome
    have hlen : (delivered (results f (Nat.find hnone))).length = Nat.find hnone := by
      rw [← List.length_map some, hmap, results_length]
    refine ⟨⟨delivered (results f (Nat.find hnone)), .eof⟩, ?_, ?_⟩
    · rw [hlen, hmap]
    · rw [hlen]
      exact Nat.find_spec hnone
  · obtain ⟨N, hN⟩ := hfin.bddAbove
    have hsome : none ∉ results f (N + 1) := by
      intro hmem
      obtain ⟨i, -, hf⟩ := List.mem_map.mp hmem
      exact hnone ⟨i, hf⟩
    have hmap := delivered_some hsome
    have hlen : (delivered (results f (N + 1))).length = N + 1 := by
      rw [← List.length_map some, hmap, results_length]
    refine ⟨⟨delivered (results f (N + 1)), .failing⟩, ?_, ?_⟩
    · rw [hlen, hmap]
    · intro n hn
      rw [hlen] at hn
      cases hf : f n with
      | none => exact absurd ⟨n, hf⟩ hnone
      | some r =>
        cases r with
        | error => rfl
        | byte c =>
          have : n ≤ N := hN ⟨c, hf⟩
          omega

end Results

/-- The loop comes to its end exactly with a stream that finishes it: not with a
carriage return before reads that fail for ever. -/
theorem terminates_iff (f : ℕ → Option Read) (hfin : {n | ∃ c, f n = some (.byte c)}.Finite) :
    (∃ stream : Stream, stream.Delivers f) ∧
      ∀ stream : Stream, stream.Delivers f → (Terminates f ↔ stream.Finishes) := by
  refine ⟨exists_delivers hfin, ?_⟩
  rintro ⟨reads, ending⟩ ⟨hreads, hend⟩
  cases ending with
  | eof => exact terminates_eof hreads hend
  | silent => exact absurd hend id
  | failing => exact terminates_failing reads hreads hend

section Example

/-- A carriage return, then nothing but errors. -/
def returnThenErrors : ℕ → Option Read
  | 0 => some (.byte '\r')
  | _ + 1 => some .error

def okText : Text := "HTTP/1.1 200 OK\r\n".toList

def statusThenEnd (n : ℕ) : Option Read := okText[n]?.map .byte

theorem statusThenEnd_finite : {n | ∃ c, statusThenEnd n = some (.byte c)}.Finite := by
  refine (Set.finite_lt_nat okText.length).subset ?_
  rintro n ⟨c, hc⟩
  by_contra hn
  rw [statusThenEnd, List.getElem?_eq_none (Nat.not_lt.mp hn)] at hc
  cases hc

theorem statusThenEnd_terminates : Terminates statusThenEnd :=
  ((terminates_iff statusThenEnd statusThenEnd_finite).2
    ⟨okText.map .byte, .eof⟩ ⟨by decide, by decide⟩).mpr (by decide +kernel)

theorem returnThenErrors_finite : {n | ∃ c, returnThenErrors n = some (.byte c)}.Finite := by
  refine (Set.finite_lt_nat 1).subset ?_
  rintro n ⟨c, hc⟩
  cases n with
  | zero => exact Nat.one_pos
  | succ n => cases hc

theorem return_never_ends : ¬∀ f : ℕ → Option Read,
    {n | ∃ c, f n = some (.byte c)}.Finite → Terminates f := by
  intro hall
  have hends := hall returnThenErrors returnThenErrors_finite
  rw [terminates_failing [.byte '\r'] rfl] at hends
  · revert hends
    decide
  · rintro (_ | n) hn
    · cases hn
    · rfl

end Example

end SshTunnel.ClientHook
