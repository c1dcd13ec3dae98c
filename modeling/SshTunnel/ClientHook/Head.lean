import SshTunnel.ClientHook.Rounds

/-!
# The head of an answer (`client-hook/client-hook.cpp:173-249`)

`Request` has read the head of a well-formed answer when it returns, and nothing of
what comes behind it. `GetHeader` then finds the lines of the head.
-/

namespace SshTunnel.ClientHook

open Lib.Net (Text)
open Lib.Lines

def Plain (t : Text) : Prop := ∀ c ∈ t, c ≠ '\r' ∧ c ≠ '\n' ∧ c ≠ nul

instance decidablePlain (t : Text) : Decidable (Plain t) :=
  List.decidableBAll (fun c => c ≠ '\r' ∧ c ≠ '\n' ∧ c ≠ nul) t

structure HeaderLine where
  key : Text
  value : Text
  key_ne_nil : key ≠ []
  key_plain : Plain key
  key_colon : ':' ∉ key
  value_plain : Plain value

def HeaderLine.text (line : HeaderLine) : Text := line.key ++ ':' :: ' ' :: line.value

section HeaderLine

variable {line : HeaderLine} {l : Text}

theorem keyText_colon (hc : ':' ∉ l) (hn : nul ∉ l) (t : Text) : keyText (l ++ ':' :: t) = l := by
  have hall : ∀ c ∈ l, decide (c ≠ nul) = true := by
    intro c hm
    have : c ≠ nul := fun he => hn (he ▸ hm)
    simpa using this
  rw [keyText, mask_colon hc, takeWhile_nul]
  exact List.takeWhile_eq_self_iff.mpr hall

theorem HeaderLine.keyText_text (line : HeaderLine) : keyText line.text = line.key :=
  keyText_colon line.key_colon (fun h => (line.key_plain _ h).2.2 rfl) _

theorem HeaderLine.beforeColon_text (line : HeaderLine) : beforeColon line.text = line.key :=
  beforeColon_colon line.key_colon _

theorem HeaderLine.valueText_text (line : HeaderLine) : valueText line.text = line.value := by
  have hall : ∀ c ∈ line.value, decide (c ≠ nul) = true := by
    intro c hm
    have : c ≠ nul := (line.value_plain c hm).2.2
    simpa using this
  have hdrop : (line.key ++ nul :: ' ' :: line.value).drop (line.key.length + 2) = line.value := by
    rw [← List.drop_drop, List.drop_left]
    rfl
  rw [valueText, line.beforeColon_text, HeaderLine.text, mask_colon line.key_colon, hdrop]
  exact List.takeWhile_eq_self_iff.mpr hall

theorem HeaderLine.text_plain (line : HeaderLine) : Plain line.text := by
  intro c hc
  rw [HeaderLine.text, List.mem_append, List.mem_cons, List.mem_cons] at hc
  rcases hc with hc | rfl | rfl | hc
  · exact line.key_plain c hc
  · decide
  · decide
  · exact line.value_plain c hc

theorem HeaderLine.emptyKey_text (line : HeaderLine) : emptyKey line.text = false := by
  obtain ⟨c, cs, hk⟩ := List.exists_cons_of_ne_nil line.key_ne_nil
  have hm : c ∈ line.key := by
    rw [hk]
    exact List.mem_cons_self
  have hc : c ≠ ':' := fun he => line.key_colon (he ▸ hm)
  rw [HeaderLine.text, hk]
  simp [emptyKey, hc, (line.key_plain c hm).2.2]

theorem stored_plain (h : Plain l) : stored l = l := by
  rw [stored, List.filter_eq_self]
  intro c hc
  simpa using (h c hc).1

end HeaderLine

structure Head where
  status : Text
  headers : List HeaderLine
  status_newline : '\n' ∉ status

def Head.lines (head : Head) : List Text := head.status :: head.headers.map HeaderLine.text

def Head.text (head : Head) : Text := headText head.lines

structure Head.Fits (head : Head) : Prop where
  headers : head.headers.length ≤ 29
  length : (stored head.text).length ≤ 1023

/-- The value of the first line with the key, if it has one. -/
def Head.lookup (head : Head) (key : Text) : Header :=
  match head.headers.find? fun line => line.key = key with
  | none => .null
  | some line => if line.value = [] then .null else .text line.value

section Head

variable {head : Head} {ls pre post : List Text} {l key rest : Text} {stale : Bool}

theorem Head.stored_headers (head : Head) :
    (head.lines.map stored).drop 1 = head.headers.map HeaderLine.text := by
  rw [Head.lines, List.map_cons, List.drop_one, List.tail_cons, List.map_map]
  exact List.map_congr_left fun line _ => stored_plain line.text_plain

theorem Head.Fits.headFits (h : head.Fits) : HeadFits head.lines where
  status := List.cons_ne_nil _ _
  newline l hl hin := by
    rw [Head.lines, List.mem_cons, List.mem_map] at hl
    rcases hl with rfl | ⟨line, -, rfl⟩
    · exact head.status_newline hin
    · exact (line.text_plain _ hin).2.1 rfl
  nonempty l hl := by
    rw [head.stored_headers, List.mem_map] at hl
    obtain ⟨line, -, rfl⟩ := hl
    exact line.emptyKey_text
  length := h.length
  lines := by
    have := h.headers
    rw [Head.lines, List.length_cons, List.length_map]
    omega

theorem Head.lines_eq (head : Head) :
    head.lines.map stored ++ [[]] =
      stored head.status :: (head.headers.map HeaderLine.text ++ [[]]) := by
  rw [← head.stored_headers, Head.lines, List.map_cons, List.cons_append, List.drop_one,
    List.tail_cons]

theorem getHeader_null (h : ∀ m ∈ ls.drop 1, keyText m ≠ key) :
    (ofLines ls rest stale).getHeader key = .null := by
  have hfind : (List.range' 1 ((ofLines ls rest stale).nvalues - 1)).find?
      (fun i => ((ofLines ls rest stale).keys i).any fun offset =>
        (ofLines ls rest stale).string offset = key) = none := by
    rw [List.find?_eq_none]
    intro i hi
    rw [List.mem_range'_1, show (ofLines ls rest stale).nvalues = ls.length from rfl] at hi
    rw [keys_ofLines (by omega) (by omega), Option.any_some, string_keys (by omega),
      decide_eq_true_iff]
    apply h
    rw [List.mem_drop_iff_getElem]
    exact ⟨i - 1, by omega, by congr 1; omega⟩
  rw [HttpClient.getHeader, hfind]

theorem Head.getHeader (head : Head) (hkey : key ≠ []) :
    (ofLines (head.lines.map stored ++ [[]]) [] false).getHeader key = head.lookup key := by
  rw [head.lines_eq, Head.lookup]
  cases hf : head.headers.find? fun line => line.key = key with
  | none =>
    refine getHeader_null fun m hm => ?_
    rw [List.drop_one, List.tail_cons, List.mem_append, List.mem_map, List.mem_singleton] at hm
    rcases hm with ⟨line, hline, rfl⟩ | rfl
    · rw [line.keyText_text]
      simpa using List.find?_eq_none.mp hf line hline
    · exact fun he => hkey he.symm
  | some line =>
    obtain ⟨hk, before, after, hsplit, hbefore⟩ := List.find?_eq_some_iff_append.mp hf
    rw [decide_eq_true_iff] at hk
    have hlines : stored head.status :: (head.headers.map HeaderLine.text ++ [[]]) =
        (stored head.status :: before.map HeaderLine.text) ++
          line.text :: (after.map HeaderLine.text ++ [[]]) := by
      rw [hsplit, List.map_append, List.map_cons, List.append_assoc]
      rfl
    rw [hlines, getHeader_ofLines (List.cons_ne_nil _ _), line.valueText_text]
    · intro m hm
      obtain ⟨line', hline', rfl⟩ := List.mem_map.mp hm
      rw [line'.keyText_text]
      simpa using hbefore line' hline'
    · rw [line.keyText_text, hk]
    · exact List.mem_append_right _ List.mem_cons_self
    · rw [line.beforeColon_text, HeaderLine.text, List.length_append]
      simp

theorem Head.loop (head : Head) (hfits : head.Fits) (rest : List Read) (ending : Ending) :
    cleared.loop (head.text.map .byte ++ rest) ending =
      .returned (ofLines (head.lines.map stored ++ [[]]) [] false) := by
  have hrun := hfits.headFits.run
  rw [received_eq] at hrun
  rw [loop_append cleared_length, Head.text, hrun]
  rfl

theorem concat_of_proper {s t : Text} {c : Char} (hp : s <+: t ++ [c]) (hne : s ≠ t ++ [c]) :
    s <+: t :=
  (List.prefix_concat_iff.mp hp).resolve_left hne

end Head

/-- `Request` reads a head to its last byte and no further, and `GetHeader` then
gives the value of the first line with the key. -/
theorem request_reads_head (head : Head) (hfits : head.Fits) (payload : List Read)
    (ending : Ending) (proxy : Text → Option Stream) (method path hostname : Text)
    (hp : proxy (requestText method path hostname) =
      some ⟨head.text.map .byte ++ payload, ending⟩) :
    (∀ p, p <+: head.text → p ≠ head.text → ∃ h, cleared.run (received p) = .running h) ∧
      ∃ h, cleared.run (received head.text) = .ended h ∧
        request proxy method path hostname = .returned 0 h ∧
        ∀ key, key ≠ [] → h.getHeader key = head.lookup key := by
  have hhead := hfits.headFits
  refine ⟨fun p hprefix hne => ?_, _, hhead.run, ?_, fun key hkey => head.getHeader hkey⟩
  · have htext : head.text =
        ((head.lines.flatMap fun l => l ++ "\r\n".toList) ++ ['\r']) ++ ['\n'] := by
      rw [Head.text, headText, List.append_assoc]
      rfl
    rw [htext] at hprefix hne
    exact ⟨_, hhead.run_body (concat_of_proper hprefix hne)⟩
  · have hrun := hhead.run
    rw [received_eq] at hrun
    rw [request, hp]
    simp only [Head.text, loop_append cleared_length, hrun, Round.loop]

section Example

def dateLine : HeaderLine where
  key := "Date".toList
  value := "Thu, 01 Jan 1970 00:00:00 GMT".toList
  key_ne_nil := by decide
  key_plain := by decide
  key_colon := by decide
  value_plain := by decide

def emptyLine : HeaderLine where
  key := "Via".toList
  value := []
  key_ne_nil := by decide
  key_plain := by decide
  key_colon := by decide
  value_plain := by decide

def sampleHead : Head where
  status := "HTTP/1.1 200 OK".toList
  headers := [emptyLine, dateLine]
  status_newline := by decide

theorem sampleHead_fits : sampleHead.Fits := ⟨by decide, by decide⟩

def helloPayload : List Read := "hello".toList.map .byte

theorem request_reads_sample :
    ∃ h, cleared.run (received sampleHead.text) = .ended h ∧
      request (fun _ => some ⟨sampleHead.text.map .byte ++ helloPayload, .eof⟩) "CONNECT".toList
        "*".toList "db:22".toList = .returned 0 h ∧
      ∀ key, key ≠ [] → h.getHeader key = sampleHead.lookup key :=
  (request_reads_head sampleHead sampleHead_fits helloPayload .eof
    (fun _ => some ⟨sampleHead.text.map .byte ++ helloPayload, .eof⟩) "CONNECT".toList
    "*".toList "db:22".toList rfl).2

end Example

end SshTunnel.ClientHook
