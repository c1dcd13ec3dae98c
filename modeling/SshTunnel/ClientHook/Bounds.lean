import SshTunnel.ClientHook.Rounds

/-!
# The tables of the http client (`client-hook/client-hook.cpp:107-124`, `194-249`)

Which entries and bytes the turns of the read loop touch, which pointers `GetHeader`
then follows, and when the loop comes to its end. `m_keys` and `m_values` have 32
entries, which `Request` does not check; `GetHeader` does not check for a null
pointer, which a line without a colon has for its value.
-/

namespace SshTunnel.ClientHook

open Lib.Net (Text)
open Lib.Lines

/-! ### What is touched -/

/-- An entry of `m_keys` or `m_values`, or a byte of `m_buffer` that is written. -/
inductive Access where
  | key (i : ℕ)
  | value (i : ℕ)
  | buffer (i : ℕ)
  deriving DecidableEq

def Access.InBounds : Access → Prop
  | .key i => i < 32
  | .value i => i < 32
  | .buffer i => i < 1024

/-- `m_nvalues` behind the switch. -/
def HttpClient.count (h : HttpClient) (c : Char) : ℕ :=
  if c = '\n' then h.nvalues + 1 else h.nvalues

/-- The accesses of the switch with `c` in `*p`. -/
def HttpClient.switched (h : HttpClient) (c : Char) : List Access :=
  if c = '\n' then [.buffer h.buffer.length, .key (h.nvalues + 1)]
  else if c = ':' then
    if h.values h.nvalues = none then
      [.value h.nvalues, .buffer h.buffer.length, .value h.nvalues]
    else [.value h.nvalues]
  else []

def HttpClient.stores (h : HttpClient) : Read → List Access
  | .byte _ => [.buffer h.buffer.length]
  | .error => []

/-- The accesses of a turn: those of `read`, of the switch and of the test behind it. -/
def HttpClient.touched (h : HttpClient) : Option Read → List Access
  | none => []
  | some r =>
    h.stores r ++ h.switched (seen h.stale r) ++
    (if 1 < h.count (seen h.stale r) then [.key (h.count (seen h.stale r) - 1)] else [])

def HttpClient.accesses : HttpClient → List (Option Read) → List Access
  | _, [] => []
  | h, r :: rs =>
    h.touched r ++
      match h.round r with
      | .running h' => h'.accesses rs
      | .ended _ => []
      | .undefined => []

/-- The pointers that `GetHeader` follows at the lines `is`. -/
def HttpClient.follows (h : HttpClient) (key : Text) : List ℕ → List (Option ℕ)
  | [] => []
  | i :: is =>
    h.keys i ::
      if (h.keys i).any fun offset => h.string offset = key then [h.values i]
      else h.follows key is

def HttpClient.dereferenced (h : HttpClient) (key : Text) : List (Option ℕ) :=
  h.follows key (List.range' 1 (h.nvalues - 1))

/-- The read loop stays in its arrays, and after it `GetHeader` follows no null pointer. -/
structure Safe (rs : List (Option Read)) (key : Text) : Prop where
  accesses : ∀ a ∈ cleared.accesses rs, a.InBounds
  pointers : ∀ h, cleared.run rs = .ended h → ∀ e ∈ h.dereferenced key, e ≠ none

/-! ### The lines in the tables -/

/-- The lines behind the status line, up to the one that ends the header. -/
def headerLines : List Text → List Text
  | [] => []
  | l :: ls => if emptyKey l then [l] else l :: headerLines ls

def tableLines (u : Text) : List Text := headerLines ((splitLines (u.take 1023)).1.drop 1)

/-- The header ends, or the buffer does, before there are 32 lines. -/
def TableFits (u : Text) : Prop :=
  HeaderEnds (u.take 1023) ∨ (splitLines (u.take 1023)).1.length < 32

/-- There is an end to the answer: of its header, of the buffer or of the stream. -/
def Complete (rs : List (Option Read)) : Prop :=
  HeaderEnds ((answerText rs).take 1023) ∨ 1023 ≤ (answerText rs).length ∨ none ∈ rs

instance decidableTableFits (u : Text) : Decidable (TableFits u) :=
  inferInstanceAs (Decidable (_ ∨ _))

section Accesses

variable {h h' : HttpClient} {c : Char} {r : Read} {o : Option Read} {rs : List (Option Read)}

theorem putChar_none : h.putChar c = none ↔ c = '\n' ∧ 32 ≤ h.nvalues + 1 := by
  unfold HttpClient.putChar
  by_cases hn : c = '\n'
  · by_cases hlt : h.nvalues + 1 < 32
    · simp [hn, hlt]
      omega
    · simp [hn, hlt]
      omega
  · simp only [hn, if_false, false_and, iff_false]
    split_ifs <;> simp

theorem putChar_nvalues (hp : h.putChar c = some h') : h'.nvalues = h.count c := by
  unfold HttpClient.putChar at hp
  unfold HttpClient.count
  split_ifs at hp ⊢ <;> cases hp <;> rfl

theorem switched_inBounds (hn : h.nvalues < 32) (hlt : h.buffer.length < 1023) :
    (∀ a ∈ h.switched c, a.InBounds) ↔ h.putChar c ≠ none := by
  rw [ne_eq, putChar_none, HttpClient.switched]
  by_cases hc : c = '\n'
  · simp [hc, Access.InBounds]
    omega
  · have hbuf : h.buffer.length < 1024 := by omega
    simp only [hc, if_false, false_and, not_false_eq_true, iff_true]
    split_ifs <;> simp [Access.InBounds, hn, hbuf]

theorem round_undefined : h.round (some r) = .undefined ↔ h.putChar (seen h.stale r) = none := by
  rw [HttpClient.round]
  cases h.putChar (seen h.stale r) with
  | none => simp
  | some h' =>
    simp only [reduceCtorEq, iff_false]
    split <;> simp

theorem touched_inBounds (hn : h.nvalues < 32) (hlt : h.buffer.length < 1023) :
    (∀ a ∈ h.touched o, a.InBounds) ↔ h.round o ≠ .undefined := by
  cases o with
  | none => simp [HttpClient.touched, HttpClient.round]
  | some r =>
    rw [ne_eq, round_undefined, ← ne_eq, ← switched_inBounds hn hlt]
    constructor
    · intro hall a ha
      exact hall a (List.mem_append_left _ (List.mem_append_right _ ha))
    · intro hall a ha
      rw [HttpClient.touched, List.mem_append, List.mem_append] at ha
      rcases ha with (ha | ha) | ha
      · cases r with
        | byte c =>
          obtain rfl := List.mem_singleton.mp ha
          exact Nat.lt_succ_of_lt hlt
        | error => cases ha
      · exact hall a ha
      · split at ha
        · obtain rfl := List.mem_singleton.mp ha
          have hle : h.count (seen h.stale r) ≤ h.nvalues + 1 := by
            unfold HttpClient.count
            split <;> omega
          show h.count (seen h.stale r) - 1 < 32
          omega
        · cases ha

/-- The accesses are in bounds as long as the turns are defined. -/
theorem accesses_inBounds (hn : h.nvalues < 32) (hlt : h.buffer.length < 1023)
    (rs : List (Option Read)) :
    (∀ a ∈ h.accesses rs, a.InBounds) ↔ h.run rs ≠ .undefined := by
  induction rs generalizing h with
  | nil => simp [HttpClient.accesses, HttpClient.run]
  | cons o rs ih =>
    rw [HttpClient.accesses, List.forall_mem_append, touched_inBounds hn hlt, run_cons]
    cases hr : h.round o with
    | running h' =>
      cases o with
      | none => cases hr
      | some r =>
        obtain ⟨hput, -, hlt'⟩ := round_running hr
        have hdef : h.count (seen h.stale r) < 32 := by
          have hsome : h.putChar (seen h.stale r) ≠ none := by simp [hput]
          rw [ne_eq, putChar_none, not_and] at hsome
          unfold HttpClient.count
          split
          · rename_i hc
            exact Nat.not_le.mp (hsome hc)
          · exact hn
        have ih' := ih (by rwa [putChar_nvalues hput]) hlt'
        simpa [Round.andThen] using ih'
    | ended h' => simp [Round.andThen]
    | undefined => simp [Round.andThen]

theorem cleared_accesses (rs : List (Option Read)) :
    (∀ a ∈ cleared.accesses rs, a.InBounds) ↔ TableFits (answerText rs) := by
  rw [accesses_inBounds (Nat.zero_lt_succ 31) cleared_length, run_defined_iff cleared_length,
    cleared_loop_returns_iff ⟨delivered rs, .eof⟩]
  exact or_congr_right (and_iff_left (.inr (.inl rfl)))

theorem cleared_ended_iff (rs : List (Option Read)) :
    (∃ h, cleared.run rs = .ended h) ↔ TableFits (answerText rs) ∧ Complete rs := by
  rw [run_ended_iff cleared_length, cleared_loop_returns_iff ⟨delivered rs, endingOf rs⟩]
  have hending : (endingOf rs = .eof ∨ endingOf rs = .failing ∧
      staleAfter false (effective false (delivered rs)) = false) ↔ none ∈ rs := by
    unfold endingOf
    split <;> simp_all
  rw [Stream.Finishes, Finishes, hending, TableFits, Complete]
  exact or_and_left.trans (by rfl)

end Accesses

section Tables

variable {s key rest : Text} {l : Text} {ls : List Text} {stale : Bool} {h : HttpClient}
  {rs : List (Option Read)}

theorem headerLines_open (hopen : ∀ l ∈ ls, emptyKey l = false) : headerLines ls = ls := by
  induction ls with
  | nil => rfl
  | cons l ls ih =>
    rw [headerLines, hopen l List.mem_cons_self, if_neg Bool.false_ne_true,
      ih fun m hm => hopen m (List.mem_cons_of_mem l hm)]

theorem headerLines_end (hopen : ∀ l ∈ ls, emptyKey l = false) (hl : emptyKey l = true)
    (ms : List Text) : headerLines (ls ++ l :: ms) = ls ++ [l] := by
  induction ls with
  | nil => rw [List.nil_append, headerLines, if_pos hl, List.nil_append]
  | cons m ls ih =>
    rw [List.cons_append, headerLines, hopen m List.mem_cons_self, if_neg Bool.false_ne_true,
      ih fun k hk => hopen k (List.mem_cons_of_mem m hk), List.cons_append]

theorem tableLines_open (hopen : HeaderOpen s) (hlen : s.length ≤ 1023) :
    tableLines s = (splitLines s).1.drop 1 := by
  rw [tableLines, List.take_of_length_le hlen, headerLines_open hopen]

theorem tableLines_full (hopen : HeaderOpen s) (hlen : s.length = 1023) (t : Text) :
    tableLines (s ++ t) = (splitLines s).1.drop 1 := by
  rw [tableLines, ← hlen, List.take_left, headerLines_open hopen]

theorem tableLines_end (hopen : HeaderOpen s) (hlt : s.length < 1023)
    (he : (stateOf (s ++ ['\n']) false).headerEnds = true) (t : Text) :
    tableLines (s ++ '\n' :: t) = ((splitLines s).1 ++ [lastLine s]).drop 1 := by
  rw [headerEnds_newline] at he
  obtain ⟨v, hv⟩ := take_newline hlt t
  obtain ⟨ms, hms⟩ := splitLines_newline_append s v
  have hpos := List.length_pos_iff.mpr he.1
  rw [tableLines, hv, hms, List.drop_append_of_le_length hpos,
    headerLines_end hopen he.2, List.drop_append_of_le_length hpos]

/-- The tables that the loop leaves are those of the lines of the answer. -/
theorem run_ended_lines (hopen : HeaderOpen s) (hlt : s.length < 1023)
    (hrun : (stateOf s stale).run rs = .ended h) :
    ∃ ls rest stale', h = ofLines ls rest stale' ∧
      ls.drop 1 = tableLines (s ++ stored (effective stale (delivered rs))) := by
  induction rs generalizing s stale with
  | nil => cases hrun
  | cons o rs ih =>
    rw [run_cons] at hrun
    cases o with
    | none =>
      cases hrun
      refine ⟨_, _, _, rfl, ?_⟩
      rw [delivered, effective, stored, List.filter_nil, List.append_nil,
        tableLines_open hopen hlt.le]
    | some r =>
      rw [delivered, effective_cons]
      by_cases hr : seen stale r = '\r'
      · rw [round_return hopen hlt hr] at hrun
        rw [decide_eq_true hr, hr, stored_return]
        exact ih hopen hlt hrun
      · rw [decide_eq_false hr, stored_cons hr]
        by_cases hn : seen stale r = '\n'
        · rw [round_newline hn] at hrun
          rw [hn]
          split at hrun
          · cases he : (stateOf (s ++ ['\n']) false).headerEnds with
            | true =>
              rw [he] at hrun
              cases hrun
              refine ⟨_, _, _, rfl, ?_⟩
              rw [tableLines_end hopen hlt he, splitLines_newline]
            | false =>
              have hopen' := headerOpen_newline hopen he
              rw [he, Bool.false_or] at hrun
              rw [← List.singleton_append, ← List.append_assoc]
              split at hrun
              · rename_i hfull
                rw [decide_eq_true_iff] at hfull
                cases hrun
                refine ⟨_, _, _, rfl, ?_⟩
                rw [tableLines_full hopen']
                rw [List.length_append, List.length_singleton]
                omega
              · rename_i hfull
                rw [decide_eq_true_iff] at hfull
                refine ih hopen' ?_ hrun
                rw [List.length_append, List.length_singleton]
                omega
          · cases hrun
        · have hopen' := (headerOpen_concat hn).mpr hopen
          rw [round_other hopen hn hr] at hrun
          rw [← List.singleton_append, ← List.append_assoc]
          split at hrun
          · cases hrun
            refine ⟨_, _, _, rfl, ?_⟩
            rw [tableLines_full hopen']
            rw [List.length_append, List.length_singleton]
            omega
          · refine ih hopen' ?_ hrun
            rw [List.length_append, List.length_singleton]
            omega

theorem values_ofLines {i : ℕ} (hlt : i < ls.length) :
    (ofLines ls rest stale).values i ≠ none ↔ ':' ∈ ls[i] := by
  have hget : (ls ++ [rest])[i]? = some ls[i] := by
    rw [List.getElem?_append_left hlt, List.getElem?_eq_getElem hlt]
  simp [ofLines, hget]

/-- `GetHeader` follows null pointers only at a line without a colon. -/
theorem follows_ne_none (key : Text) (n i : ℕ) (hi : 0 < i) (hn : i + n = ls.length) :
    (∀ e ∈ (ofLines ls rest stale).follows key (List.range' i n), e ≠ none) ↔
      ∀ l, (ls.drop i).find? (fun l => keyText l = key) = some l → ':' ∈ l := by
  induction n generalizing i with
  | zero =>
    rw [List.drop_of_length_le (by omega)]
    simp [HttpClient.follows]
  | succ n ih =>
    have hlt : i < ls.length := by omega
    have hkey : ((ofLines ls rest stale).keys i).any
        (fun offset => (ofLines ls rest stale).string offset = key) =
          decide (keyText ls[i] = key) := by
      rw [keys_ofLines hi hlt, Option.any_some, string_keys hlt]
    have hsome : (ofLines ls rest stale).keys i ≠ none := by simp [keys_ofLines hi hlt]
    rw [List.range'_succ, HttpClient.follows, hkey, List.forall_mem_cons,
      List.drop_eq_getElem_cons hlt, List.find?_cons]
    refine (and_iff_right hsome).trans ?_
    by_cases hk : keyText ls[i] = key
    · simp [hk, values_ofLines hlt]
    · simpa [hk] using ih (i + 1) (by omega) (by omega)

theorem dereferenced_ne_none (key : Text) :
    (∀ e ∈ (ofLines ls rest stale).dereferenced key, e ≠ none) ↔
      ∀ l, (ls.drop 1).find? (fun l => keyText l = key) = some l → ':' ∈ l := by
  rw [HttpClient.dereferenced, show (ofLines ls rest stale).nvalues = ls.length from rfl]
  rcases Nat.eq_zero_or_pos ls.length with hz | hpos
  · obtain rfl := List.length_eq_zero_iff.mp hz
    simp [HttpClient.follows]
  · exact follows_ne_none key (ls.length - 1) 1 Nat.one_pos (by omega)

end Tables

/-- The accesses are safe exactly for an answer whose tables fit, and in which the
first line that `GetHeader` finds for the key has a colon. -/
theorem safe_iff (rs : List (Option Read)) (key : Text) :
    Safe rs key ↔ TableFits (answerText rs) ∧ (Complete rs → ∀ l,
      (tableLines (answerText rs)).find? (fun l => keyText l = key) = some l → ':' ∈ l) := by
  have hlines : ∀ h, cleared.run rs = .ended h →
      ((∀ e ∈ h.dereferenced key, e ≠ none) ↔
        ∀ l, (tableLines (answerText rs)).find? (fun l => keyText l = key) = some l → ':' ∈ l) := by
    intro h hrun
    rw [cleared_eq] at hrun
    obtain ⟨ls, rest, stale, rfl, hls⟩ := run_ended_lines headerOpen_nil (Nat.zero_lt_succ _) hrun
    rw [dereferenced_ne_none, hls, List.nil_append, answerText]
  have hended := cleared_ended_iff rs
  constructor
  · rintro ⟨haccesses, hpointers⟩
    have hfits := (cleared_accesses rs).mp haccesses
    refine ⟨hfits, fun hcomplete => ?_⟩
    obtain ⟨h, hrun⟩ := hended.mpr ⟨hfits, hcomplete⟩
    exact (hlines h hrun).mp (hpointers h hrun)
  · rintro ⟨hfits, hcolon⟩
    refine ⟨(cleared_accesses rs).mpr hfits, fun h hrun => ?_⟩
    exact (hlines h hrun).mpr (hcolon (hended.mp ⟨h, hrun⟩).2)

/-- With a line without a colon, `GetHeader` follows the null pointer of its value. -/
theorem bare_host_unsafe : ¬∀ rs key, Safe rs key := by
  intro hall
  have hpointers := (hall (received "HTTP/1.1 200 OK\r\nHost\r\n\r\n".toList) "Host".toList).pointers
  exact hpointers _ rfl none (by decide +kernel) rfl

end SshTunnel.ClientHook
