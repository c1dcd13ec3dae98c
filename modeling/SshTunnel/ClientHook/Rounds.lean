import SshTunnel.ClientHook.Request

/-!
# The turns of the read loop (`client-hook/client-hook.cpp:107-124`, `194-249`)

What one turn of the loop of `Request` does with the result of its `read`, and
what a number of turns does. `HttpClient.loop` is the loop as a whole.
-/

namespace SshTunnel.ClientHook

open Lib.Net (Text)
open Lib.Lines

inductive Round where
  | running (h : HttpClient)
  | ended (h : HttpClient)
  | undefined

/-- One turn, for the result of its `read` (`none` is 0), and the condition of the
loop for the next one. -/
def HttpClient.round (h : HttpClient) : Option Read → Round
  | none => .ended h
  | some r =>
    match h.putChar (seen h.stale r) with
    | none => .undefined
    | some h' => if h'.headerEnds || 1023 ≤ h'.buffer.length then .ended h' else .running h'

def HttpClient.run : HttpClient → List (Option Read) → Round
  | h, [] => .running h
  | h, r :: rs =>
    match h.round r with
    | .running h' => h'.run rs
    | .ended h' => .ended h'
    | .undefined => .undefined

/-- What more turns make of it. -/
def Round.andThen (rs : List (Option Read)) : Round → Round
  | .running h => h.run rs
  | .ended h => .ended h
  | .undefined => .undefined

/-- What the loop makes of it. -/
def Round.loop (reads : List Read) (ending : Ending) : Round → Outcome
  | .running h => h.loop reads ending
  | .ended h => .returned h
  | .undefined => .undefined

/-- The bytes and errors before the end of the stream. -/
def delivered : List (Option Read) → List Read
  | [] => []
  | none :: _ => []
  | some r :: rs => r :: delivered rs

def endingOf (rs : List (Option Read)) : Ending := if none ∈ rs then .eof else .silent

/-- What the turns leave in the buffer, but for the NULs in place of separators. -/
def answerText (rs : List (Option Read)) : Text := stored (effective false (delivered rs))

section Turns

variable {s : Text} {c : Char} {stale : Bool} {h h' : HttpClient} {r : Read} {reads : List Read}
  {rs : List (Option Read)} {ending : Ending}

theorem run_cons (h : HttpClient) (r : Option Read) (rs : List (Option Read)) :
    h.run (r :: rs) = (h.round r).andThen rs := by
  rw [HttpClient.run]
  cases h.round r <;> rfl

theorem run_append (h : HttpClient) (as bs : List (Option Read)) :
    h.run (as ++ bs) = (h.run as).andThen bs := by
  induction as generalizing h with
  | nil => rfl
  | cons r as ih =>
    rw [List.cons_append, run_cons, run_cons]
    cases h.round r with
    | running h' => exact ih h'
    | ended h' => rfl
    | undefined => rfl

/-- The state at the start of a turn has room for a byte. -/
theorem round_running (hr : h.round (some r) = .running h') :
    h.putChar (seen h.stale r) = some h' ∧ h'.headerEnds = false ∧ h'.buffer.length < 1023 := by
  rw [HttpClient.round] at hr
  cases hput : h.putChar (seen h.stale r) with
  | none =>
    rw [hput] at hr
    cases hr
  | some k =>
    simp only [hput] at hr
    split at hr
    · cases hr
    · rename_i hend
      cases hr
      rw [Bool.or_eq_true, decide_eq_true_iff, not_or, Bool.not_eq_true, Nat.not_le] at hend
      exact ⟨rfl, hend⟩

theorem loop_cons_round (hlt : h.buffer.length < 1023) (r : Read) (reads : List Read)
    (ending : Ending) : h.loop (r :: reads) ending = (h.round (some r)).loop reads ending := by
  rw [HttpClient.loop, if_neg (Nat.not_le.mpr hlt), HttpClient.round]
  cases h.putChar (seen h.stale r) with
  | none => rfl
  | some h' =>
    cases he : h'.headerEnds with
    | true => simp [he, Round.loop]
    | false =>
      by_cases hfull : 1023 ≤ h'.buffer.length
      · simp [he, hfull, loop_full hfull, Round.loop]
      · simp [he, hfull, Round.loop]

/-- The loop is its turns, one after the other. -/
theorem loop_append (hlt : h.buffer.length < 1023) (as bs : List Read) (ending : Ending) :
    h.loop (as ++ bs) ending = (h.run (as.map some)).loop bs ending := by
  induction as generalizing h with
  | nil => rfl
  | cons r as ih =>
    rw [List.cons_append, loop_cons_round hlt, List.map_cons, run_cons]
    cases hr : h.round (some r) with
    | running h' => exact ih (round_running hr).2.2
    | ended h' => rfl
    | undefined => rfl

theorem loop_nil_eof (h : HttpClient) : h.loop [] .eof = .returned h := by
  unfold HttpClient.loop
  split <;> rfl

theorem loop_nil_silent (hlt : h.buffer.length < 1023) : h.loop [] .silent = .blocked := by
  unfold HttpClient.loop
  exact if_neg (Nat.not_le.mpr hlt)

theorem run_ended_iff (hlt : h.buffer.length < 1023) (rs : List (Option Read)) :
    (∃ h', h.run rs = .ended h') ↔ ∃ h', h.loop (delivered rs) (endingOf rs) = .returned h' := by
  induction rs generalizing h with
  | nil =>
    have hloop : h.loop (delivered []) (endingOf []) = .blocked := loop_nil_silent hlt
    rw [hloop]
    exact iff_of_false (by rintro ⟨h', hh⟩; cases hh) (by rintro ⟨h', hh⟩; cases hh)
  | cons o rs ih =>
    rw [run_cons]
    cases o with
    | none =>
      have hloop : h.loop (delivered (none :: rs)) (endingOf (none :: rs)) = .returned h := by
        rw [delivered, endingOf, if_pos List.mem_cons_self, loop_nil_eof]
      exact iff_of_true ⟨h, rfl⟩ ⟨h, hloop⟩
    | some r =>
      have hending : endingOf (some r :: rs) = endingOf rs := by simp [endingOf]
      rw [delivered, hending, loop_cons_round hlt]
      cases hr : h.round (some r) with
      | running h' => exact ih (round_running hr).2.2
      | ended h' => exact iff_of_true ⟨h', rfl⟩ ⟨h', rfl⟩
      | undefined => exact iff_of_false (by rintro ⟨h', hh⟩; cases hh) (by rintro ⟨h', hh⟩; cases hh)

theorem run_defined_iff (hlt : h.buffer.length < 1023) (rs : List (Option Read)) :
    h.run rs ≠ .undefined ↔ ∃ h', h.loop (delivered rs) .eof = .returned h' := by
  induction rs generalizing h with
  | nil => exact iff_of_true (by rintro hh; cases hh) ⟨h, loop_nil_eof h⟩
  | cons o rs ih =>
    rw [run_cons]
    cases o with
    | none => exact iff_of_true (by rintro hh; cases hh) ⟨h, loop_nil_eof h⟩
    | some r =>
      rw [delivered, loop_cons_round hlt]
      cases hr : h.round (some r) with
      | running h' => exact ih (round_running hr).2.2
      | ended h' => exact iff_of_true (by rintro hh; cases hh) ⟨h', rfl⟩
      | undefined =>
        exact iff_of_false (fun hne => hne rfl) (by rintro ⟨h', hh⟩; cases hh)

theorem cleared_length : cleared.buffer.length < 1023 := Nat.zero_lt_succ 1022

/-! The turn of each kind of byte, in the state after a text. -/

theorem round_return (hopen : HeaderOpen s) (hlt : s.length < 1023)
    (hr : seen stale r = '\r') :
    (stateOf s stale).round (some r) = .running (stateOf s true) := by
  have hput : (stateOf s stale).putChar (seen stale r) = some (stateOf s true) := by
    rw [hr, stateOf, putChar_return, ← stateOf]
  have hlen : ¬1023 ≤ (stateOf s true).buffer.length := by
    rw [stateOf_length]
    exact Nat.not_le.mpr hlt
  rw [HttpClient.round, show (stateOf s stale).stale = stale from rfl, hput]
  simp [headerEnds_of_open hopen, hlen]

theorem round_other (hopen : HeaderOpen s) (hn : seen stale r ≠ '\n')
    (hr : seen stale r ≠ '\r') :
    (stateOf s stale).round (some r) =
      if 1023 ≤ s.length + 1 then .ended (stateOf (s ++ [seen stale r]) false)
      else .running (stateOf (s ++ [seen stale r]) false) := by
  rw [HttpClient.round, show (stateOf s stale).stale = stale from rfl,
    putChar_stateOf_other hn hr]
  simp [headerEnds_of_open ((headerOpen_concat hn).mpr hopen), stateOf_length]

theorem round_newline (hr : seen stale r = '\n') :
    (stateOf s stale).round (some r) =
      if (splitLines s).1.length + 1 < 32 then
        if (stateOf (s ++ ['\n']) false).headerEnds || 1023 ≤ s.length + 1 then
          .ended (stateOf (s ++ ['\n']) false)
        else .running (stateOf (s ++ ['\n']) false)
      else .undefined := by
  rw [HttpClient.round, show (stateOf s stale).stale = stale from rfl, hr,
    putChar_stateOf_newline]
  by_cases h : (splitLines s).1.length + 1 < 32
  · rw [if_pos h, if_pos h]
    simp [stateOf_length]
  · rw [if_neg h, if_neg h]

/-- As long as the header is open and fits, the loop goes on. -/
theorem run_open (s : Text) (stale : Bool) (reads : List Read)
    (hopen : HeaderOpen (s ++ stored (effective stale reads)))
    (hlen : (s ++ stored (effective stale reads)).length < 1023)
    (hlines : (splitLines (s ++ stored (effective stale reads))).1.length < 32) :
    (stateOf s stale).run (reads.map some) =
      .running (stateOf (s ++ stored (effective stale reads))
        (staleAfter stale (effective stale reads))) := by
  induction reads generalizing s stale with
  | nil =>
    rw [effective, stored, List.filter_nil, List.append_nil]
    rfl
  | cons r reads ih =>
    rw [effective_cons] at hopen hlen hlines ⊢
    rw [List.map_cons, run_cons, staleAfter_cons]
    by_cases hr : seen stale r = '\r'
    · have hd : decide (seen stale r = '\r') = true := decide_eq_true hr
      rw [hd, hr, stored_return] at hopen hlen hlines ⊢
      have hlt : s.length < 1023 := by
        rw [List.length_append] at hlen
        omega
      rw [round_return hopen.of_append hlt hr]
      exact ih _ _ hopen hlen hlines
    · have hd : decide (seen stale r = '\r') = false := decide_eq_false hr
      rw [hd, stored_cons hr, ← List.singleton_append, ← List.append_assoc] at hopen hlen hlines ⊢
      have hlt : s.length + 1 < 1023 := by
        rw [List.length_append, List.length_append, List.length_singleton] at hlen
        omega
      have hturn : (stateOf s stale).round (some r) =
          .running (stateOf (s ++ [seen stale r]) false) := by
        by_cases hn : seen stale r = '\n'
        · rw [hn] at hopen hlines ⊢
          have hle := (splitLines_grows (s ++ ['\n'])
            (stored (effective false reads))).length_le
          rw [splitLines_newline, List.length_append, List.length_singleton] at hle
          rw [round_newline hn, if_pos (by omega), headerEnds_of_open hopen.of_append, if_neg]
          rw [Bool.false_or, decide_eq_true_iff]
          omega
        · rw [round_other hopen.of_append.of_append hn hr, if_neg (by omega)]
      rw [hturn]
      exact ih _ _ hopen hlen hlines

theorem effective_bytes (stale : Bool) (cs : Text) : effective stale (cs.map .byte) = cs := by
  induction cs generalizing stale with
  | nil => rfl
  | cons c cs ih =>
    rw [List.map_cons, effective_cons, ih]
    rfl

end Turns

/-! ### The head of an answer -/

/-- Lines, and the empty line that ends a head. -/
def headText (ls : List Text) : Text := (ls.flatMap fun l => l ++ "\r\n".toList) ++ "\r\n".toList

def received (cs : Text) : List (Option Read) := cs.map fun c => some (.byte c)

section Head

variable {ls : List Text} {p : Text}

theorem received_eq (cs : Text) : received cs = (cs.map Read.byte).map some := by
  rw [received, List.map_map]
  rfl

theorem stored_append (s t : Text) : stored (s ++ t) = stored s ++ stored t :=
  List.filter_append s t

theorem stored_lines (ls : List Text) :
    stored (ls.flatMap fun l => l ++ "\r\n".toList) =
      (ls.map stored).flatMap fun l => l ++ ['\n'] := by
  induction ls with
  | nil => rfl
  | cons l ls ih =>
    rw [List.flatMap_cons, stored_append, stored_append, ih, List.map_cons, List.flatMap_cons]
    rfl

theorem splitLines_stored (hnl : ∀ l ∈ ls, '\n' ∉ l) :
    splitLines ((ls.map stored).flatMap fun l => l ++ ['\n']) = (ls.map stored, []) := by
  apply splitLines_flatMap
  intro m hm hin
  obtain ⟨l, hl, rfl⟩ := List.mem_map.mp hm
  exact hnl l hl (List.mem_of_mem_filter hin)

/-- The lines of a head fit into `HttpClient`, and none ends it early. -/
structure HeadFits (ls : List Text) : Prop where
  status : ls ≠ []
  newline : ∀ l ∈ ls, '\n' ∉ l
  nonempty : ∀ l ∈ (ls.map stored).drop 1, emptyKey l = false
  length : (stored (headText ls)).length ≤ 1023
  lines : ls.length + 1 < 32

theorem HeadFits.length_lt (h : HeadFits ls) :
    ((ls.map stored).flatMap fun l => l ++ ['\n']).length < 1023 := by
  have hlen := h.length
  rw [headText, stored_append, stored_lines, List.length_append] at hlen
  exact hlen

theorem HeadFits.open (h : HeadFits ls) :
    HeaderOpen ((ls.map stored).flatMap fun l => l ++ ['\n']) := by
  rw [HeaderOpen, splitLines_stored h.newline]
  exact h.nonempty

/-- Before the last byte of a head the loop goes on. -/
theorem HeadFits.run_body (h : HeadFits ls)
    (hp : p <+: (ls.flatMap fun l => l ++ "\r\n".toList) ++ ['\r']) :
    cleared.run (received p) = .running (stateOf (stored p) (staleAfter false p)) := by
  obtain ⟨t, ht⟩ := hp
  have hstored : stored p ++ stored t = (ls.map stored).flatMap fun l => l ++ ['\n'] := by
    rw [← stored_append, ht, stored_append, stored_lines]
    exact List.append_nil _
  have hopen : HeaderOpen (stored p ++ stored t) := hstored ▸ h.open
  have hgrow := (splitLines_grows (stored p) (stored t)).length_le
  have hlen := h.length_lt
  rw [hstored, splitLines_stored h.newline, List.length_map] at hgrow
  rw [← hstored, List.length_append] at hlen
  have hlines := h.lines
  have hrun := run_open [] false (p.map .byte)
  rw [effective_bytes, List.nil_append] at hrun
  rw [received_eq, cleared_eq, hrun hopen.of_append (by omega) (by omega)]

theorem HeadFits.run (h : HeadFits ls) :
    cleared.run (received (headText ls)) = .ended (ofLines (ls.map stored ++ [[]]) [] false) := by
  have htext : headText ls =
      ((ls.flatMap fun l => l ++ "\r\n".toList) ++ ['\r']) ++ ['\n'] := by
    rw [headText, List.append_assoc]
    rfl
  have hstored : stored ((ls.flatMap fun l => l ++ "\r\n".toList) ++ ['\r']) =
      (ls.map stored).flatMap fun l => l ++ ['\n'] := by
    rw [stored_append, stored_lines]
    exact List.append_nil _
  have hsplit := splitLines_stored h.newline
  have hne : ls.map stored ≠ [] := by simpa using h.status
  have hends : (stateOf (((ls.map stored).flatMap fun l => l ++ ['\n']) ++ ['\n'])
      false).headerEnds = true := by
    rw [headerEnds_newline, lastLine, hsplit]
    exact ⟨hne, rfl⟩
  have hlines := h.lines
  rw [htext, received, List.map_append, ← received, run_append,
    h.run_body (List.prefix_refl _), Round.andThen, hstored, List.map_singleton, run_cons,
    round_newline rfl, hends, hsplit, if_pos (by simpa using hlines), Bool.true_or, if_pos rfl,
    Round.andThen, stateOf, lastLine, splitLines_newline, lastLine, hsplit]

end Head

end SshTunnel.ClientHook
