import SshTunnel.Lib.Lines
import SshTunnel.Lib.NetText

/-!
# The http client of the hook (`client-hook/client-hook.cpp:91-256`)

`Request` reads the answer byte by byte into its buffer and splits it in place:
a colon and a newline become a NUL, a carriage return is read over. The loop is
followed at the level of the buffer; the state that it is in after a text is then
that of the lines of the text.
-/

namespace SshTunnel.ClientHook

open Lib.Net (Text)
open Lib.Lines

/-- What a `read` of the socket gives: a byte, or -1. -/
inductive Read where
  | byte (c : Char)
  | error
  deriving DecidableEq

/-- What every further `read` gives: 0, nothing that is stored, or -1. -/
inductive Ending where
  | eof
  /-- No byte at all, or carriage returns for ever. -/
  | silent
  | failing
  deriving DecidableEq

structure Stream where
  reads : List Read
  ending : Ending
  deriving DecidableEq

def nul : Char := '\x00'

/-- The members that `Request` writes. `buffer` is what stands before `p`, the rest
of `m_buffer` is zero, but for a carriage return at `p` (`stale`); `keys` and
`values` are offsets. -/
structure HttpClient where
  buffer : Text
  stale : Bool
  keys : ℕ → Option ℕ
  values : ℕ → Option ℕ
  nvalues : ℕ

def cleared : HttpClient := ⟨[], false, fun _ => none, fun _ => none, 0⟩

def HttpClient.memory (h : HttpClient) : Text := h.buffer ++ if h.stale then ['\r'] else []

/-- The switch and the step of `p` with `c` in `*p`; `none` for the write behind
the 32 entries of `m_keys`, which is undefined. -/
def HttpClient.putChar (h : HttpClient) (c : Char) : Option HttpClient :=
  if c = '\n' then
    if h.nvalues + 1 < 32 then
      some { h with
        buffer := h.buffer ++ [nul]
        stale := false
        nvalues := h.nvalues + 1
        keys := Function.update h.keys (h.nvalues + 1) (some (h.buffer.length + 1)) }
    else none
  else if c = ':' then
    if h.values h.nvalues = none then
      some { h with
        buffer := h.buffer ++ [nul]
        stale := false
        values := Function.update h.values h.nvalues (some (h.buffer.length + 2)) }
    else some { h with buffer := h.buffer ++ [c], stale := false }
  else if c = '\r' then some { h with stale := true }
  else some { h with buffer := h.buffer ++ [c], stale := false }

/-- The test at the end of the loop: the line before the current one is empty. -/
def HttpClient.headerEnds (h : HttpClient) : Bool :=
  1 < h.nvalues && (h.keys (h.nvalues - 1)).any fun key => h.memory.getD key nul = nul

/-- What the switch finds in `*p` after a `read`. A failing `read` leaves it as it
is: a zero, or the carriage return that was read over. -/
def seen (stale : Bool) : Read → Char
  | .byte c => c
  | .error => if stale then '\r' else nul

inductive Outcome where
  | returned (h : HttpClient)
  | blocked
  | undefined

/-- The loop of `Request`. If every `read` fails from now on, the rest of the buffer
is left zero, but the loop never comes over a carriage return. -/
def HttpClient.loop : HttpClient → List Read → Ending → Outcome
  | h, [], ending =>
    if 1023 ≤ h.buffer.length then .returned h
    else
      match ending with
      | .eof => .returned h
      | .silent => .blocked
      | .failing =>
        if h.stale then .blocked
        else .returned { h with
          buffer := h.buffer ++ List.replicate (1023 - h.buffer.length) nul }
  | h, r :: reads, ending =>
    if 1023 ≤ h.buffer.length then .returned h
    else
      match h.putChar (seen h.stale r) with
      | none => .undefined
      | some h' => if h'.headerEnds then .returned h' else h'.loop reads ending

/-- The text that is sent: what `snprintf` leaves in the buffer. -/
def requestText (method path hostname : Text) : Text :=
  (method ++ " ".toList ++ path ++ " HTTP/1.1\r\nHost: ".toList ++ hostname ++
    "\r\n\r\n".toList).take 1023

inductive Result where
  | returned (rc : ℤ) (h : HttpClient)
  | blocked
  | undefined

/-- `Request`; `proxy` says what comes back for the text that is sent, or that
there is no connection. -/
def request (proxy : Text → Option Stream) (method path hostname : Text) : Result :=
  match proxy (requestText method path hostname) with
  | none => .returned (-1) cleared
  | some stream =>
    match cleared.loop stream.reads stream.ending with
    | .returned h => .returned 0 h
    | .blocked => .blocked
    | .undefined => .undefined

def HttpClient.string (h : HttpClient) (offset : ℕ) : Text :=
  (h.memory.drop offset).takeWhile (· ≠ nul)

inductive Header where
  | null
  | text (t : Text)
  | undefined
  deriving DecidableEq

/-- `GetHeader`: the value of the first line with the key. -/
def HttpClient.getHeader (h : HttpClient) (key : Text) : Header :=
  match (List.range' 1 (h.nvalues - 1)).find? fun i =>
      (h.keys i).any fun offset => h.string offset = key with
  | none => .null
  | some i =>
    match h.values i with
    | none => .undefined
    | some offset => if h.string offset = [] then .null else .text (h.string offset)

/-! ### The lines behind the buffer -/

/-- A line as it is left in the buffer: its first colon is a NUL. -/
def mask : Text → Text
  | [] => []
  | c :: cs => if c = ':' then nul :: cs else c :: mask cs

def offset (ls : List Text) : ℕ := (ls.map fun l => l.length + 1).sum

def beforeColon (l : Text) : Text := l.takeWhile (· ≠ ':')

/-- The state after the lines `ls` and the beginning `rest` of one more. -/
def ofLines (ls : List Text) (rest : Text) (stale : Bool) : HttpClient where
  buffer := (ls.flatMap fun l => mask l ++ [nul]) ++ mask rest
  stale := stale
  keys i := if 0 < i ∧ i ≤ ls.length then some (offset (ls.take i)) else none
  values i := (ls ++ [rest])[i]?.bind fun l =>
    if ':' ∈ l then some (offset (ls.take i) + (beforeColon l).length + 2) else none
  nvalues := ls.length

section Lines

variable {ls : List Text} {rest l : Text} {stale : Bool}

theorem mask_length (l : Text) : (mask l).length = l.length := by
  induction l with
  | nil => rfl
  | cons c l ih =>
    rw [mask]
    split
    · rfl
    · rw [List.length_cons, List.length_cons, ih]

theorem mask_of_notMem (h : ':' ∉ l) : mask l = l := by
  induction l with
  | nil => rfl
  | cons c l ih =>
    have hc : c ≠ ':' := fun he => h (he ▸ List.mem_cons_self)
    rw [mask, if_neg hc, ih fun hm => h (List.mem_cons_of_mem c hm)]

theorem mask_of_mem (h : ':' ∈ l) (t : Text) : mask (l ++ t) = mask l ++ t := by
  induction l with
  | nil => cases h
  | cons c l ih =>
    by_cases hc : c = ':'
    · rw [List.cons_append, mask, mask, if_pos hc, if_pos hc, List.cons_append]
    · rw [List.cons_append, mask, mask, if_neg hc, if_neg hc, List.cons_append,
        ih ((List.mem_cons.mp h).resolve_left fun he => hc he.symm)]

theorem mask_colon (h : ':' ∉ l) (t : Text) : mask (l ++ ':' :: t) = l ++ nul :: t := by
  induction l with
  | nil => rfl
  | cons c l ih =>
    have hc : c ≠ ':' := fun he => h (he ▸ List.mem_cons_self)
    rw [List.cons_append, mask, if_neg hc, ih fun hm => h (List.mem_cons_of_mem c hm),
      List.cons_append]

theorem mask_concat {c : Char} (hc : c ≠ ':') : mask (l ++ [c]) = mask l ++ [c] := by
  by_cases h : ':' ∈ l
  · exact mask_of_mem h [c]
  · rw [mask_of_notMem h, mask_of_notMem]
    simpa using ⟨h, hc.symm⟩

theorem offset_concat (ls : List Text) (l : Text) :
    offset (ls ++ [l]) = offset ls + l.length + 1 := by
  simp only [offset, List.map_append, List.sum_append, List.map_cons, List.map_nil,
    List.sum_singleton]
  omega

theorem flatMap_length (ls : List Text) :
    (ls.flatMap fun l => mask l ++ [nul]).length = offset ls := by
  induction ls using List.reverseRecOn with
  | nil => rfl
  | append_singleton ls l ih =>
    rw [List.flatMap_append, List.length_append, ih, offset_concat]
    simp [mask_length]
    omega

theorem ofLines_length :
    (ofLines ls rest stale).buffer.length = offset ls + rest.length := by
  rw [ofLines, List.length_append, flatMap_length, mask_length]

theorem beforeColon_of_mem (h : ':' ∈ l) (t : Text) : beforeColon (l ++ t) = beforeColon l := by
  induction l with
  | nil => cases h
  | cons c l ih =>
    by_cases hc : c = ':'
    · simp [beforeColon, hc]
    · have hm : ':' ∈ l := (List.mem_cons.mp h).resolve_left fun he => hc he.symm
      have ih' := ih hm
      unfold beforeColon at ih' ⊢
      simp only [List.cons_append, List.takeWhile_cons, ne_eq, hc, not_false_eq_true, decide_true,
        if_true, ih']

theorem beforeColon_colon (h : ':' ∉ l) (t : Text) : beforeColon (l ++ ':' :: t) = l := by
  have hl : ∀ c ∈ l, decide (c ≠ ':') = true := by
    intro c hc
    have : c ≠ ':' := fun he => h (he ▸ hc)
    simpa using this
  rw [beforeColon, List.takeWhile_append_of_pos hl]
  simp

theorem putChar_newline :
    (ofLines ls rest stale).putChar '\n' =
      if ls.length + 1 < 32 then some (ofLines (ls ++ [rest]) [] false) else none := by
  rw [HttpClient.putChar, if_pos rfl]
  by_cases h : ls.length + 1 < 32
  · rw [if_pos (show (ofLines ls rest stale).nvalues + 1 < 32 from h), if_pos h, ofLines_length]
    refine congrArg some ?_
    simp only [ofLines, HttpClient.mk.injEq]
    refine ⟨by simp [mask], trivial, ?_, ?_, by simp⟩
    · funext i
      rw [Function.update_apply]
      by_cases hi : i = ls.length + 1
      · rw [if_pos hi, hi, if_pos ⟨by omega, by simp⟩, List.take_of_length_le (by simp),
          offset_concat]
      · rw [if_neg hi]
        by_cases hle : 0 < i ∧ i ≤ ls.length
        · rw [if_pos hle, if_pos ⟨hle.1, by rw [List.length_append]; omega⟩,
            List.take_append_of_le_length hle.2]
        · rw [if_neg hle, if_neg]
          rw [List.length_append, List.length_singleton]
          omega
    · funext i
      by_cases hi : i ≤ ls.length
      · have hleft : (ls ++ [rest] ++ [[]])[i]? = (ls ++ [rest])[i]? :=
          List.getElem?_append_left (by simp; omega)
        rw [hleft, List.take_append_of_le_length hi]
      · have hnone : (ls ++ [rest])[i]? = none := List.getElem?_eq_none (by simp; omega)
        rw [hnone, List.getElem?_append_right (by simp; omega)]
        cases i - (ls ++ [rest]).length <;> simp
  · rw [if_neg (show ¬(ofLines ls rest stale).nvalues + 1 < 32 from h), if_neg h]

theorem values_current : (ofLines ls rest stale).values ls.length =
    if ':' ∈ rest then some (offset ls + (beforeColon rest).length + 2) else none := by
  simp [ofLines]

theorem values_other {i : ℕ} (hi : i ≠ ls.length) (rest rest' : Text) (stale stale' : Bool) :
    (ofLines ls rest stale).values i = (ofLines ls rest' stale').values i := by
  simp only [ofLines]
  rcases Nat.lt_or_gt_of_ne hi with hi | hi
  · rw [List.getElem?_append_left hi, List.getElem?_append_left hi]
  · rw [List.getElem?_eq_none (by simp; omega), List.getElem?_eq_none (by simp; omega)]

theorem values_concat {c : Char} (hc : ':' ∈ rest ∨ c ≠ ':') :
    (ofLines ls (rest ++ [c]) stale).values = (ofLines ls rest stale).values := by
  funext i
  by_cases hi : i = ls.length
  · rw [hi, values_current, values_current]
    by_cases h : ':' ∈ rest
    · rw [if_pos (List.mem_append_left _ h), if_pos h, beforeColon_of_mem h]
    · have hcc : ':' ≠ c := (hc.resolve_left h).symm
      rw [if_neg h, if_neg (by simpa using ⟨h, hcc⟩)]
  · exact values_other hi (rest ++ [c]) rest stale stale

theorem values_colon (h : ':' ∉ rest) :
    (ofLines ls (rest ++ [':']) stale).values =
      Function.update (ofLines ls rest stale).values ls.length
        (some (offset ls + rest.length + 2)) := by
  funext i
  rw [Function.update_apply]
  by_cases hi : i = ls.length
  · rw [hi, if_pos rfl, values_current, if_pos (by simp), beforeColon_colon h]
  · rw [if_neg hi]
    exact values_other hi (rest ++ [':']) rest stale stale

theorem putChar_return :
    (ofLines ls rest stale).putChar '\r' = some (ofLines ls rest true) := rfl

theorem putChar_other {c : Char} (hn : c ≠ '\n') (hr : c ≠ '\r') :
    (ofLines ls rest stale).putChar c = some (ofLines ls (rest ++ [c]) false) := by
  rw [HttpClient.putChar, if_neg hn]
  by_cases hc : c = ':'
  · rw [if_pos hc, hc, show (ofLines ls rest stale).nvalues = ls.length from rfl, values_current,
      ofLines_length]
    by_cases h : ':' ∈ rest
    · rw [if_pos h, if_neg (Option.some_ne_none _)]
      refine congrArg some ?_
      rw [HttpClient.mk.injEq]
      refine ⟨?_, rfl, rfl, (values_concat (.inl h)).symm, rfl⟩
      simp only [ofLines, mask_of_mem h, List.append_assoc]
    · rw [if_neg h, if_pos rfl]
      refine congrArg some ?_
      rw [HttpClient.mk.injEq]
      refine ⟨?_, rfl, rfl, (values_colon h).symm, rfl⟩
      simp only [ofLines, mask_colon h [], mask_of_notMem h, List.append_assoc]
  · rw [if_neg hc, if_neg hr]
    refine congrArg some ?_
    rw [HttpClient.mk.injEq]
    refine ⟨?_, rfl, rfl, (values_concat (.inr hc)).symm, rfl⟩
    simp only [ofLines, mask_concat hc, List.append_assoc]

/-- A line that begins with the end of its key. -/
def emptyKey (l : Text) : Bool := l.head?.all fun c => c = ':' || c = nul

theorem mask_head (l t : Text) : (mask l ++ nul :: t).head? = some nul ↔ emptyKey l = true := by
  cases l with
  | nil => simp [mask, emptyKey]
  | cons c l =>
    rw [mask]
    split
    · rename_i hc
      simp [emptyKey, hc]
    · rename_i hc
      simp [emptyKey, hc]

theorem memory_drop (ls ms : List Text) (l rest : Text) (stale : Bool) :
    ∃ t, (ofLines (ls ++ l :: ms) rest stale).memory.drop (offset ls) = mask l ++ nul :: t := by
  refine ⟨(ms.flatMap fun l => mask l ++ [nul]) ++ mask rest ++ if stale then ['\r'] else [], ?_⟩
  rw [← flatMap_length, HttpClient.memory, ofLines, List.flatMap_append, List.flatMap_cons]
  simp only [List.append_assoc, List.drop_left, List.cons_append, List.nil_append]

theorem headerEnds_ofLines :
    (ofLines ls rest stale).headerEnds = true ↔
      1 < ls.length ∧ ∃ l, ls.getLast? = some l ∧ emptyKey l = true := by
  induction ls using List.reverseRecOn with
  | nil => simp [HttpClient.headerEnds, ofLines]
  | append_singleton ls l _ =>
    obtain ⟨t, ht⟩ := memory_drop ls [] l rest stale
    have hn : (ofLines (ls ++ [l]) rest stale).nvalues = ls.length + 1 := by simp [ofLines]
    have hlen : (ls ++ [l]).length = ls.length + 1 := by simp
    rw [HttpClient.headerEnds, Bool.and_eq_true, decide_eq_true_iff, hn, hlen]
    refine and_congr_right fun hlt => ?_
    have hk : (ofLines (ls ++ [l]) rest stale).keys ls.length = some (offset ls) := by
      simp only [ofLines]
      rw [if_pos ⟨by omega, by simp⟩, List.take_left]
    have hhead : (ofLines (ls ++ [l]) rest stale).memory[offset ls]? = some nul ↔
        emptyKey l = true := by
      rw [← mask_head l t, ← ht, List.head?_drop]
    have hsome : (ofLines (ls ++ [l]) rest stale).memory[offset ls]? ≠ none := by
      rw [← List.head?_drop, ht]
      simp
    rw [Nat.add_sub_cancel, hk, List.getLast?_concat, Option.any_some, decide_eq_true_iff,
      List.getD_eq_getElem?_getD]
    simp only [Option.some.injEq, exists_eq_left', ← hhead]
    cases hm : (ofLines (ls ++ [l]) rest stale).memory[offset ls]? with
    | none => exact absurd hm hsome
    | some c => simp

/-! What `GetHeader` finds. -/

def keyText (l : Text) : Text := (mask l).takeWhile (· ≠ nul)

def valueText (l : Text) : Text :=
  ((mask l).drop ((beforeColon l).length + 2)).takeWhile (· ≠ nul)

theorem takeWhile_nul (s t : Text) :
    (s ++ nul :: t).takeWhile (· ≠ nul) = s.takeWhile (· ≠ nul) := by
  induction s with
  | nil => rfl
  | cons c s ih =>
    rw [List.cons_append, List.takeWhile_cons, List.takeWhile_cons, ih]

theorem string_key (pre post : List Text) :
    (ofLines (pre ++ l :: post) rest stale).string (offset pre) = keyText l := by
  obtain ⟨t, ht⟩ := memory_drop pre post l rest stale
  rw [HttpClient.string, ht, takeWhile_nul, keyText]

theorem string_value (pre post : List Text) (hl : (beforeColon l).length + 2 ≤ l.length) :
    (ofLines (pre ++ l :: post) rest stale).string (offset pre + (beforeColon l).length + 2) =
      valueText l := by
  obtain ⟨t, ht⟩ := memory_drop pre post l rest stale
  rw [HttpClient.string, Nat.add_assoc, ← List.drop_drop, ht,
    List.drop_append_of_le_length (by rwa [mask_length]), takeWhile_nul, valueText]

theorem keys_ofLines {i : ℕ} (hi : 0 < i) (hlt : i < ls.length) :
    (ofLines ls rest stale).keys i = some (offset (ls.take i)) := if_pos ⟨hi, hlt.le⟩

theorem string_keys {i : ℕ} (hlt : i < ls.length) :
    (ofLines ls rest stale).string (offset (ls.take i)) = keyText ls[i] := by
  have hsplit : ls = ls.take i ++ ls[i] :: ls.drop (i + 1) := by
    rw [List.getElem_cons_drop, List.take_append_drop]
  have hkey : (ofLines (ls.take i ++ ls[i] :: ls.drop (i + 1)) rest stale).string
      (offset (ls.take i)) = keyText ls[i] := string_key _ _
  rwa [← hsplit] at hkey

/-- `GetHeader` finds the first line behind the status line that has the key. -/
theorem getHeader_ofLines {pre post : List Text} {key : Text} (hpre : pre ≠ [])
    (hbefore : ∀ m ∈ pre.drop 1, keyText m ≠ key) (hkey : keyText l = key) (hc : ':' ∈ l)
    (hl : (beforeColon l).length + 2 ≤ l.length) :
    (ofLines (pre ++ l :: post) rest stale).getHeader key =
      if valueText l = [] then .null else .text (valueText l) := by
  have hpos := List.length_pos_iff.mpr hpre
  have hlen : (pre ++ l :: post).length = pre.length + post.length + 1 := by simp; omega
  have hfind : (List.range' 1 ((ofLines (pre ++ l :: post) rest stale).nvalues - 1)).find?
      (fun i => ((ofLines (pre ++ l :: post) rest stale).keys i).any fun offset =>
        (ofLines (pre ++ l :: post) rest stale).string offset = key) = some pre.length := by
    rw [List.find?_range'_eq_some]
    refine ⟨?_, ?_, ?_⟩
    · rw [keys_ofLines hpos (by omega), List.take_left, Option.any_some, string_key, hkey]
      exact decide_eq_true rfl
    · rw [List.mem_range'_1, show (ofLines (pre ++ l :: post) rest stale).nvalues =
        (pre ++ l :: post).length from rfl]
      omega
    · intro j hj hlt
      rw [keys_ofLines (by omega) (by omega), Option.any_some, string_keys (by omega),
        Bool.not_eq_true', decide_eq_false_iff_not, List.getElem_append_left hlt]
      apply hbefore
      rw [List.mem_drop_iff_getElem]
      exact ⟨j - 1, by omega, by congr 1; omega⟩
  have hvalue : (ofLines (pre ++ l :: post) rest stale).values pre.length =
      some (offset pre + (beforeColon l).length + 2) := by
    simp only [ofLines, List.append_assoc, List.cons_append]
    rw [List.getElem?_append_right le_rfl, Nat.sub_self, List.getElem?_cons_zero,
      Option.bind_some, if_pos hc, List.take_left]
  rw [HttpClient.getHeader, hfind]
  simp only [hvalue, string_value pre post hl]

end Lines

/-! ### The loop over a text -/

/-- The state after the text `s`, without the carriage returns in it. -/
def stateOf (s : Text) (stale : Bool) : HttpClient := ofLines (splitLines s).1 (lastLine s) stale

def HeaderOpen (s : Text) : Prop := ∀ l ∈ (splitLines s).1.drop 1, emptyKey l = false

/-- What the switch finds in `*p`, read by read. -/
def effective : Bool → List Read → Text
  | _, [] => []
  | stale, r :: reads => seen stale r :: effective (seen stale r = '\r') reads

def stored (cs : Text) : Text := cs.filter (· ≠ '\r')

def staleAfter (stale : Bool) (cs : Text) : Bool :=
  (cs.getLast?.map fun c => decide (c = '\r')).getD stale

def HeaderEnds (t : Text) : Prop := ∃ l ∈ ((splitLines t).1.drop 1).take 30, emptyKey l = true

/-- The loop ends when `u` comes in: with a line that ends the header, or before
there are too many lines with a full buffer or at the end of the stream. -/
def Finishes (u : Text) (stale : Bool) (ending : Ending) : Prop :=
  HeaderEnds (u.take 1023) ∨
    (splitLines (u.take 1023)).1.length < 32 ∧
      (1023 ≤ u.length ∨ ending = .eof ∨ ending = .failing ∧ stale = false)

def Stream.Finishes (stream : Stream) : Prop :=
  ClientHook.Finishes (stored (effective false stream.reads))
    (staleAfter false (effective false stream.reads)) stream.ending

instance decidableHeaderEnds (t : Text) : Decidable (HeaderEnds t) :=
  List.decidableBEx (fun l => emptyKey l = true) (((splitLines t).1.drop 1).take 30)

instance decidableFinishes (u : Text) (stale : Bool) (ending : Ending) :
    Decidable (Finishes u stale ending) :=
  inferInstanceAs (Decidable (_ ∨ _))

instance decidableStreamFinishes (stream : Stream) : Decidable stream.Finishes :=
  inferInstanceAs (Decidable (ClientHook.Finishes _ _ _))

section Loop

variable {s t u cs : Text} {c : Char} {stale : Bool} {h : HttpClient} {reads : List Read}
  {ending : Ending}

theorem offset_splitLines (s : Text) : offset (splitLines s).1 + (lastLine s).length = s.length := by
  induction s using List.reverseRecOn with
  | nil => rfl
  | append_singleton s c ih =>
    by_cases hc : c = '\n'
    · rw [hc, lastLine, splitLines_newline, offset_concat]
      simp
      omega
    · rw [lastLine, splitLines_concat hc]
      simp
      omega

theorem stateOf_length : (stateOf s stale).buffer.length = s.length := by
  rw [stateOf, ofLines_length, offset_splitLines]

theorem putChar_stateOf_newline :
    (stateOf s stale).putChar '\n' =
      if (splitLines s).1.length + 1 < 32 then some (stateOf (s ++ ['\n']) false) else none := by
  rw [stateOf, putChar_newline, stateOf, lastLine, lastLine, splitLines_newline, lastLine]

theorem putChar_stateOf_other (hn : c ≠ '\n') (hr : c ≠ '\r') :
    (stateOf s stale).putChar c = some (stateOf (s ++ [c]) false) := by
  rw [stateOf, putChar_other hn hr, stateOf, lastLine, lastLine, splitLines_concat hn, lastLine]

theorem HeaderOpen.of_append (h : HeaderOpen (s ++ t)) : HeaderOpen s := by
  intro l hl
  exact h l (List.IsPrefix.subset ((splitLines_grows s t).drop 1) hl)

theorem headerOpen_concat (hc : c ≠ '\n') : HeaderOpen (s ++ [c]) ↔ HeaderOpen s := by
  rw [HeaderOpen, splitLines_concat hc, HeaderOpen]

theorem headerEnds_of_open (h : HeaderOpen s) : (stateOf s stale).headerEnds = false := by
  rw [← Bool.not_eq_true, stateOf, headerEnds_ofLines]
  rintro ⟨hlt, l, hl, he⟩
  have hm : l ∈ (splitLines s).1.drop 1 := by
    apply List.mem_of_getLast?
    rw [List.getLast?_drop, if_neg (by omega), hl]
  rw [h l hm] at he
  cases he

theorem headerEnds_newline :
    (stateOf (s ++ ['\n']) stale).headerEnds = true ↔
      (splitLines s).1 ≠ [] ∧ emptyKey (lastLine s) = true := by
  rw [stateOf, headerEnds_ofLines, splitLines_newline, List.getLast?_concat, List.length_append,
    List.length_singleton, ← List.length_pos_iff]
  simp

theorem headerOpen_newline (h : HeaderOpen s)
    (he : (stateOf (s ++ ['\n']) stale).headerEnds = false) : HeaderOpen (s ++ ['\n']) := by
  rw [← Bool.not_eq_true, headerEnds_newline, not_and, Bool.not_eq_true] at he
  intro l hl
  rw [splitLines_newline] at hl
  by_cases hne : (splitLines s).1 = []
  · rw [hne] at hl
    cases hl
  · rw [List.drop_append_of_le_length (List.length_pos_iff.mpr hne), List.mem_append,
      List.mem_singleton] at hl
    rcases hl with hl | rfl
    · exact h l hl
    · exact he hne

theorem effective_cons (r : Read) : effective stale (r :: reads) =
    seen stale r :: effective (seen stale r = '\r') reads := rfl

theorem stored_return : stored ('\r' :: cs) = stored cs := rfl

theorem stored_cons (hr : c ≠ '\r') : stored (c :: cs) = c :: stored cs := by
  rw [stored, List.filter_cons_of_pos (by simpa using hr), stored]

theorem staleAfter_cons : staleAfter stale (c :: cs) = staleAfter (c = '\r') cs := by
  rw [staleAfter, staleAfter]
  cases cs with
  | nil => rfl
  | cons d cs =>
    rw [List.getLast?_cons_cons, List.getLast?_eq_getLast_of_ne_nil (List.cons_ne_nil d cs)]
    rfl

theorem loop_full (hfull : 1023 ≤ h.buffer.length) : h.loop reads ending = .returned h := by
  unfold HttpClient.loop
  cases reads with
  | nil => exact if_pos hfull
  | cons r reads => exact if_pos hfull

theorem loop_nil (hlt : s.length < 1023) :
    (∃ h, (stateOf s stale).loop [] ending = .returned h) ↔
      ending = .eof ∨ ending = .failing ∧ stale = false := by
  unfold HttpClient.loop
  rw [if_neg (by rw [stateOf_length]; omega)]
  cases ending with
  | eof => simp
  | silent => simp
  | failing => cases stale <;> simp [stateOf, ofLines]

theorem loop_cons (hlt : s.length < 1023) (r : Read) :
    (stateOf s stale).loop (r :: reads) ending =
      match (stateOf s stale).putChar (seen stale r) with
      | none => .undefined
      | some h => if h.headerEnds then .returned h else h.loop reads ending := by
  rw [HttpClient.loop, if_neg (by rw [stateOf_length]; omega)]
  rfl

/-! What one byte does to the loop. -/

theorem loop_return (hopen : HeaderOpen s) (hlt : s.length < 1023) {r : Read}
    (hr : seen stale r = '\r') :
    (stateOf s stale).loop (r :: reads) ending = (stateOf s true).loop reads ending := by
  rw [loop_cons hlt, hr, stateOf, putChar_return, ← stateOf]
  simp only [headerEnds_of_open hopen, Bool.false_eq_true, if_false]

theorem loop_other (hopen : HeaderOpen s) (hlt : s.length < 1023) {r : Read}
    (hc : seen stale r = c) (hn : c ≠ '\n') (hr : c ≠ '\r') :
    (stateOf s stale).loop (r :: reads) ending = (stateOf (s ++ [c]) false).loop reads ending := by
  rw [loop_cons hlt, hc, putChar_stateOf_other hn hr]
  simp only [headerEnds_of_open ((headerOpen_concat hn).mpr hopen), Bool.false_eq_true, if_false]

theorem loop_newline (hlt : s.length < 1023) {r : Read} (hr : seen stale r = '\n') :
    (stateOf s stale).loop (r :: reads) ending =
      if (splitLines s).1.length + 1 < 32 then
        if (stateOf (s ++ ['\n']) false).headerEnds then .returned (stateOf (s ++ ['\n']) false)
        else (stateOf (s ++ ['\n']) false).loop reads ending
      else .undefined := by
  rw [loop_cons hlt, hr, putChar_stateOf_newline]
  by_cases h : (splitLines s).1.length + 1 < 32
  · rw [if_pos h, if_pos h]
  · rw [if_neg h, if_neg h]

/-! When the loop ends. -/

theorem splitLines_newline_append (s t : Text) :
    ∃ ls, (splitLines (s ++ '\n' :: t)).1 = (splitLines s).1 ++ lastLine s :: ls := by
  obtain ⟨ls, hls⟩ := splitLines_grows (s ++ ['\n']) t
  rw [splitLines_newline, List.append_assoc, List.append_assoc] at hls
  exact ⟨ls, hls.symm⟩

theorem take_newline (hlt : s.length < 1023) (t : Text) :
    ∃ v, (s ++ '\n' :: t).take 1023 = s ++ '\n' :: v := by
  obtain ⟨k, hk⟩ : ∃ k, 1023 - s.length = k + 1 := ⟨1022 - s.length, by omega⟩
  exact ⟨t.take k, by rw [List.take_append, List.take_of_length_le (by omega), hk,
    List.take_succ_cons]⟩

theorem finishes_of_full (hlen : s.length = 1023) (hlines : (splitLines s).1.length < 32) :
    Finishes (s ++ t) stale ending := by
  have htake : (s ++ t).take 1023 = s := by rw [← hlen, List.take_left]
  refine .inr ⟨?_, .inl ?_⟩
  · rwa [htake]
  · rw [List.length_append]
    omega

theorem finishes_of_open (hopen : HeaderOpen s) (hlt : s.length < 1023)
    (hlines : (splitLines s).1.length < 32) :
    Finishes s stale ending ↔ ending = .eof ∨ ending = .failing ∧ stale = false := by
  rw [Finishes, List.take_of_length_le (by omega)]
  constructor
  · rintro (⟨l, hl, he⟩ | ⟨-, hfull | h⟩)
    · rw [hopen l (List.mem_of_mem_take hl)] at he
      cases he
    · omega
    · exact h
  · intro h
    exact .inr ⟨hlines, .inr h⟩

theorem finishes_of_headerEnds (hlt : s.length < 1023)
    (hlines : (splitLines s).1.length + 1 < 32) {stale' : Bool}
    (he : (stateOf (s ++ ['\n']) stale').headerEnds = true) :
    Finishes (s ++ '\n' :: t) stale ending := by
  rw [headerEnds_newline] at he
  obtain ⟨v, hv⟩ := take_newline hlt t
  obtain ⟨ls, hls⟩ := splitLines_newline_append s v
  refine .inl ⟨lastLine s, ?_, he.2⟩
  have hpos := List.length_pos_iff.mpr he.1
  have hk : 30 - ((splitLines s).1.drop 1).length = (30 - (splitLines s).1.length) + 1 := by
    rw [List.length_drop]
    omega
  rw [hv, hls, List.drop_append_of_le_length hpos, List.take_append, hk, List.take_succ_cons]
  exact List.mem_append_right _ List.mem_cons_self

theorem not_finishes_of_lines (hopen : HeaderOpen s) (hlt : s.length < 1023)
    (hlines : (splitLines s).1.length = 31) : ¬Finishes (s ++ '\n' :: t) stale ending := by
  obtain ⟨v, hv⟩ := take_newline hlt t
  obtain ⟨ls, hls⟩ := splitLines_newline_append s v
  rintro (⟨l, hl, he⟩ | ⟨hlt32, -⟩)
  · rw [hv, hls, List.drop_append_of_le_length (by omega),
      List.take_append_of_le_length (by rw [List.length_drop]; omega)] at hl
    rw [hopen l (List.mem_of_mem_take hl)] at he
    cases he
  · rw [hv, hls, List.length_append, List.length_cons] at hlt32
    omega

/-- The loop ends exactly with the texts of `Finishes`. -/
theorem loop_returns_iff (hopen : HeaderOpen s) (hlen : s.length ≤ 1023)
    (hlines : (splitLines s).1.length < 32) :
    (∃ h, (stateOf s stale).loop reads ending = .returned h) ↔
      Finishes (s ++ stored (effective stale reads)) (staleAfter stale (effective stale reads))
        ending := by
  induction reads generalizing s stale with
  | nil =>
    rcases Nat.lt_or_eq_of_le hlen with hlt | heq
    · have happend : s ++ stored (effective stale []) = s := List.append_nil s
      rw [loop_nil hlt, happend, finishes_of_open hopen hlt hlines]
      rfl
    · exact iff_of_true ⟨_, loop_full (by rw [stateOf_length, heq])⟩
        (finishes_of_full heq hlines)
  | cons r reads ih =>
    rcases Nat.lt_or_eq_of_le hlen with hlt | heq
    · rw [effective_cons, staleAfter_cons]
      by_cases hr : seen stale r = '\r'
      · have hd : decide (seen stale r = '\r') = true := decide_eq_true hr
        rw [loop_return hopen hlt hr, hd, hr, stored_return, ih hopen hlen hlines]
      · have hd : decide (seen stale r = '\r') = false := decide_eq_false hr
        rw [hd, stored_cons hr]
        by_cases hn : seen stale r = '\n'
        · rw [loop_newline hlt hn, hn]
          by_cases h32 : (splitLines s).1.length + 1 < 32
          · rw [if_pos h32]
            cases he : (stateOf (s ++ ['\n']) false).headerEnds with
            | true =>
              rw [if_pos rfl]
              exact iff_of_true ⟨_, rfl⟩ (finishes_of_headerEnds hlt h32 he)
            | false =>
              rw [if_neg Bool.false_ne_true, ih (headerOpen_newline hopen he)
                (by rw [List.length_append, List.length_singleton]; omega)
                (by rwa [splitLines_newline, List.length_append, List.length_singleton]),
                List.append_assoc, List.singleton_append]
          · rw [if_neg h32]
            refine iff_of_false ?_ (not_finishes_of_lines hopen hlt (by omega))
            rintro ⟨h, hh⟩
            cases hh
        · rw [loop_other hopen hlt rfl hn hr, ih ((headerOpen_concat hn).mpr hopen)
            (by rw [List.length_append, List.length_singleton]; omega)
            (by rwa [splitLines_concat hn]), List.append_assoc, List.singleton_append]
    · exact iff_of_true ⟨_, loop_full (by rw [stateOf_length, heq])⟩
        (finishes_of_full heq hlines)

theorem cleared_eq : cleared = stateOf [] false := by
  rw [cleared, stateOf, ofLines, HttpClient.mk.injEq]
  refine ⟨rfl, rfl, ?_, ?_, rfl⟩
  · funext i
    rw [if_neg]
    rintro ⟨hpos, hle⟩
    exact absurd hpos (Nat.not_lt.mpr hle)
  · funext i
    cases i <;> rfl

theorem headerOpen_nil : HeaderOpen [] := fun _ hl => absurd hl List.not_mem_nil

theorem cleared_loop_returns_iff (stream : Stream) :
    (∃ h, cleared.loop stream.reads stream.ending = .returned h) ↔ stream.Finishes := by
  rw [cleared_eq, loop_returns_iff headerOpen_nil (Nat.zero_le _) (by decide)]
  rfl

end Loop

end SshTunnel.ClientHook
