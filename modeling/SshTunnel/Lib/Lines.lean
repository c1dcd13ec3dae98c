import Mathlib.Data.List.Induction

/-!
# Files of lines

A text as its complete lines and an unfinished rest, the lines that Go's
`bufio.ScanLines` makes of it, and reading entries from lines with a parser that
may find nothing in a line. What is appended to a text without a newline goes
into the unfinished rest.
-/

namespace SshTunnel.Lib.Lines

def consLine (c : Char) (p : List (List Char) × List Char) : List (List Char) × List Char :=
  if c = '\n' then ([] :: p.1, p.2)
  else
    match p.1 with
    | [] => ([], c :: p.2)
    | l :: ls => ((c :: l) :: ls, p.2)

/-- The lines that are ended by a newline, and what follows the last newline. -/
def splitLines : List Char → List (List Char) × List Char
  | [] => ([], [])
  | c :: cs => consLine c (splitLines cs)

def lastLine (s : List Char) : List Char := (splitLines s).2

def dropCR (l : List Char) : List Char := if l.getLast? = some '\r' then l.dropLast else l

/-- The lines of `bufio.ScanLines`: an empty rest is not a line. -/
def scanLines (s : List Char) : List (List Char) :=
  match splitLines s with
  | (ls, rest) => (if rest = [] then ls else ls ++ [rest]).map dropCR

theorem splitLines_of_notMem {t : List Char} (ht : '\n' ∉ t) : splitLines t = ([], t) := by
  induction t with
  | nil => rfl
  | cons c t ih =>
    have hc : c ≠ '\n' := fun h => ht (h ▸ List.mem_cons_self)
    rw [splitLines, ih fun h => ht (List.mem_cons_of_mem c h), consLine, if_neg hc]

theorem splitLines_append {t : List Char} (ht : '\n' ∉ t) (s : List Char) :
    splitLines (s ++ t) = ((splitLines s).1, lastLine s ++ t) := by
  unfold lastLine
  induction s with
  | nil => exact splitLines_of_notMem ht
  | cons c s ih =>
    rw [List.cons_append, splitLines, ih, splitLines, consLine, consLine]
    rcases splitLines s with ⟨_ | ⟨l, ls⟩, rest⟩ <;> split <;> rfl

theorem splitLines_newline (s : List Char) :
    splitLines (s ++ ['\n']) = ((splitLines s).1 ++ [lastLine s], []) := by
  unfold lastLine
  induction s with
  | nil => rfl
  | cons c s ih =>
    rw [List.cons_append, splitLines, ih, splitLines, consLine, consLine]
    rcases splitLines s with ⟨_ | ⟨l, ls⟩, rest⟩ <;> split <;> rfl

theorem splitLines_concat {c : Char} (hc : c ≠ '\n') (s : List Char) :
    splitLines (s ++ [c]) = ((splitLines s).1, lastLine s ++ [c]) :=
  splitLines_append (by simpa using hc.symm) s

theorem splitLines_grows (s t : List Char) : (splitLines s).1 <+: (splitLines (s ++ t)).1 := by
  induction t using List.reverseRecOn with
  | nil => exact (List.append_nil s).symm ▸ List.prefix_rfl
  | append_singleton t c ih =>
    rw [← List.append_assoc]
    by_cases hc : c = '\n'
    · rw [hc, splitLines_newline]
      exact ih.trans (List.prefix_append _ _)
    · rw [splitLines_concat hc]
      exact ih

theorem splitLines_flatMap {ls : List (List Char)} (h : ∀ l ∈ ls, '\n' ∉ l) :
    splitLines (ls.flatMap fun l => l ++ ['\n']) = (ls, []) := by
  induction ls using List.reverseRecOn with
  | nil => rfl
  | append_singleton ls l ih =>
    have hl : '\n' ∉ l := h l (by simp)
    have hls := ih fun m hm => h m (List.mem_append_left _ hm)
    rw [List.flatMap_append, List.flatMap_singleton, ← List.append_assoc, splitLines_newline,
      lastLine, splitLines_append hl, lastLine, hls, List.nil_append]

theorem lastLine_notMem (s : List Char) : '\n' ∉ lastLine s := by
  unfold lastLine
  induction s with
  | nil => exact List.not_mem_nil
  | cons c s ih =>
    rw [splitLines, consLine]
    split
    · exact ih
    · rename_i hc
      rcases h : splitLines s with ⟨_ | ⟨l, ls⟩, rest⟩
      · rw [h] at ih
        simp only [List.mem_cons, not_or]
        exact ⟨fun he => hc he.symm, ih⟩
      · rw [h] at ih
        exact ih

theorem dropCR_append {l t : List Char} (ht : t ≠ []) (hcr : t.getLast? ≠ some '\r') :
    dropCR (l ++ t) = l ++ t := by
  have hlast : (l ++ t).getLast? = t.getLast? := by
    rw [List.getLast?_append]
    cases h : t.getLast? with
    | none => exact absurd (List.getLast?_eq_none_iff.mp h) ht
    | some c => rfl
  rw [dropCR, hlast, if_neg hcr]

/-- A line printed at the end of a text is joined to its unfinished rest. -/
theorem scanLines_append {s t : List Char} (hnl : '\n' ∉ t) (ht : t ≠ [])
    (hcr : t.getLast? ≠ some '\r') :
    scanLines (s ++ t ++ ['\n']) = (splitLines s).1.map dropCR ++ [lastLine s ++ t] := by
  unfold scanLines
  rw [splitLines_newline, lastLine, splitLines_append hnl]
  simp [dropCR_append ht hcr]

theorem scanLines_eq (s : List Char) :
    scanLines s = (splitLines s).1.map dropCR ++
      if lastLine s = [] then [] else [dropCR (lastLine s)] := by
  unfold scanLines lastLine
  rcases splitLines s with ⟨ls, rest⟩
  by_cases h : rest = [] <;> simp [h]

section Read

variable {ε α : Type} (parse : List Char → Except ε (Option α))

def readLines : List (List Char) → Except ε (List α)
  | [] => .ok []
  | l :: ls =>
    match parse l with
    | .error err => .error err
    | .ok e => (readLines ls).map (e.toList ++ ·)

theorem readLines_append (ls ms : List (List Char)) :
    readLines parse (ls ++ ms) =
      (readLines parse ls).bind fun es => (readLines parse ms).map (es ++ ·) := by
  induction ls with
  | nil =>
    rw [List.nil_append]
    cases readLines parse ms <;> rfl
  | cons l ls ih =>
    rw [List.cons_append, readLines, readLines, ih]
    cases parse l with
    | error err => rfl
    | ok e =>
      cases readLines parse ls with
      | error err => rfl
      | ok es =>
        cases readLines parse ms with
        | error err => rfl
        | ok fs => simp [Except.map, Except.bind]

theorem readLines_singleton (l : List Char) :
    readLines parse [l] = (parse l).map Option.toList := by
  rw [readLines]
  cases parse l with
  | error err => rfl
  | ok e => simp [readLines, Except.map]

/-- What was read of a text is what its complete lines give and its rest. -/
theorem readLines_scanLines {s : List Char} {es : List α}
    (h : readLines parse (scanLines s) = .ok es) :
    ∃ fs gs, readLines parse ((splitLines s).1.map dropCR) = .ok fs ∧ es = fs ++ gs ∧
      (lastLine s = [] ∧ gs = [] ∨
        lastLine s ≠ [] ∧ ∃ e, parse (dropCR (lastLine s)) = .ok e ∧ gs = e.toList) := by
  rw [scanLines_eq, readLines_append] at h
  cases hf : readLines parse ((splitLines s).1.map dropCR) with
  | error err =>
    rw [hf] at h
    cases h
  | ok fs =>
    rw [hf] at h
    by_cases hl : lastLine s = []
    · rw [if_pos hl] at h
      cases h
      exact ⟨fs, [], rfl, rfl, .inl ⟨hl, rfl⟩⟩
    · rw [if_neg hl] at h
      simp only [Except.bind, readLines_singleton] at h
      cases hp : parse (dropCR (lastLine s)) with
      | error err =>
        rw [hp] at h
        cases h
      | ok e =>
        rw [hp] at h
        cases h
        exact ⟨fs, e.toList, rfl, rfl, .inr ⟨hl, e, rfl, rfl⟩⟩

end Read

end SshTunnel.Lib.Lines
