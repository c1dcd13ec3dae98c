import Mathlib.Data.List.Chain
import SshTunnel.Lib.NetText

/-!
# JSON texts (Go's package `encoding/json`)

Values, the text that `Marshal` writes for them and the value that is read from a
text. A text is cut into tokens by a machine that reads one character at a time, and
the tokens are put together by a machine with a stack. How deep a text may be nested
is not limited.
-/

namespace SshTunnel.Lib.Json

open Net (Text hexVal hexDigit decText)

/-! ### Values -/

/-- The places in a number. -/
inductive NumState where
  | start
  | neg
  | zero
  | int
  | dot
  | frac
  | exp
  | expSign
  | expDigits
  | bad
  deriving DecidableEq

def NumState.next : NumState → Char → NumState
  | .start, c =>
    if c = '-' then .neg else if c = '0' then .zero else if c.isDigit then .int else .bad
  | .neg, c => if c = '0' then .zero else if c.isDigit then .int else .bad
  | .zero, c => if c = '.' then .dot else if c = 'e' || c = 'E' then .exp else .bad
  | .int, c =>
    if c.isDigit then .int
    else if c = '.' then .dot
    else if c = 'e' || c = 'E' then .exp
    else .bad
  | .dot, c => if c.isDigit then .frac else .bad
  | .frac, c => if c.isDigit then .frac else if c = 'e' || c = 'E' then .exp else .bad
  | .exp, c =>
    if c = '+' || c = '-' then .expSign else if c.isDigit then .expDigits else .bad
  | .expSign, c | .expDigits, c => if c.isDigit then .expDigits else .bad
  | .bad, _ => .bad

def NumState.accepts : NumState → Bool
  | .zero | .int | .frac | .expDigits => true
  | _ => false

def validNumber (t : Text) : Bool := (t.foldl NumState.next .start).accepts

structure Number where
  text : Text
  valid : validNumber text = true
  deriving DecidableEq

inductive Value where
  | null
  | bool (b : Bool)
  | num (n : Number)
  | str (t : Text)
  | arr (xs : List Value)
  | obj (fields : List (Text × Value))

/-! ### Tokens -/

inductive Token where
  | lbrace
  | rbrace
  | lbracket
  | rbracket
  | colon
  | comma
  | str (t : Text)
  | num (t : Text)
  | word (t : Text)
  deriving DecidableEq

def hexText4 (n : ℕ) : Text :=
  [hexDigit (n / 4096 % 16), hexDigit (n / 256 % 16), hexDigit (n / 16 % 16), hexDigit (n % 16)]

/-- The characters that are written as a code: those that html gives a meaning too. -/
def coded (c : Char) : Bool :=
  c.toNat < 32 || c = '<' || c = '>' || c = '&' || c.toNat = 0x2028 || c.toNat = 0x2029

def escapeChar (c : Char) : Text :=
  if c = '"' then ['\\', '"']
  else if c = '\\' then ['\\', '\\']
  else if c = '\n' then ['\\', 'n']
  else if c = '\r' then ['\\', 'r']
  else if c = '\t' then ['\\', 't']
  else if c.toNat = 8 then ['\\', 'b']
  else if c.toNat = 12 then ['\\', 'f']
  else if coded c then '\\' :: 'u' :: hexText4 c.toNat
  else [c]

def Token.text : Token → Text
  | .lbrace => ['\x7b']
  | .rbrace => ['\x7d']
  | .lbracket => ['[']
  | .rbracket => [']']
  | .colon => [':']
  | .comma => [',']
  | .str t => '"' :: t.flatMap escapeChar ++ ['"']
  | .num t | .word t => t

/-! ### Reading tokens -/

/-- A character of a string, or the code of an escape. -/
inductive CodeUnit where
  | char (c : Char)
  | code (n : ℕ)

def surrogate (n : ℕ) : Bool := 0xd800 ≤ n && n < 0xe000

def replacement : Char := Char.ofNat 0xfffd

/-- The text of a string: two codes may be the halves of one character. The first
argument is a half whose other half has not come yet. -/
def decodeUnits : Option ℕ → List CodeUnit → Text
  | none, [] => []
  | some _, [] => [replacement]
  | none, .char c :: us => c :: decodeUnits none us
  | some _, .char c :: us => replacement :: c :: decodeUnits none us
  | none, .code n :: us =>
    if surrogate n then decodeUnits (some n) us else Char.ofNat n :: decodeUnits none us
  | some m, .code n :: us =>
    if m < 0xdc00 ∧ 0xdc00 ≤ n ∧ n < 0xe000 then
      Char.ofNat (0x10000 + (m - 0xd800) * 1024 + (n - 0xdc00)) :: decodeUnits none us
    else if surrogate n then replacement :: decodeUnits (some n) us
    else replacement :: Char.ofNat n :: decodeUnits none us

inductive Lexer where
  | between
  | str (units : List CodeUnit)
  | escape (units : List CodeUnit)
  /-- Inside a code: the digits read and their value. -/
  | code (units : List CodeUnit) (k n : ℕ)
  | num (t : Text)
  | word (t : Text)

def isSpace (c : Char) : Bool := c = ' ' || c = '\t' || c = '\r' || c = '\n'

def isNumChar (c : Char) : Bool := c.isDigit || c ∈ "+-.eE".toList

def punctuation : List (Char × Token) :=
  [('\x7b', .lbrace), ('\x7d', .rbrace), ('[', .lbracket), (']', .rbracket), (':', .colon),
    (',', .comma)]

def escapes : List (Char × Char) :=
  [('"', '"'), ('\\', '\\'), ('/', '/'), ('b', Char.ofNat 8), ('f', Char.ofNat 12), ('n', '\n'),
    ('r', '\r'), ('t', '\t')]

/-- A character between the tokens; `next` reads what follows it. -/
def beginToken (c : Char) (next : Lexer → Option (List Token)) : Option (List Token) :=
  if isSpace c then next .between
  else
    match punctuation.lookup c with
    | some token => (next .between).map (token :: ·)
    | none =>
      if c = '"' then next (.str [])
      else if c.isDigit || c = '-' then next (.num [c])
      else if c.isLower then next (.word [c])
      else none

def lex : Lexer → Text → Option (List Token)
  | .between, [] => some []
  | .num t, [] => some [.num t]
  | .word t, [] => some [.word t]
  | _, [] => none
  | .between, c :: cs => beginToken c fun l => lex l cs
  | .str units, c :: cs =>
    if c = '"' then (lex .between cs).map (.str (decodeUnits none units) :: ·)
    else if c = '\\' then lex (.escape units) cs
    else if c.toNat < 32 then none
    else lex (.str (units ++ [.char c])) cs
  | .escape units, c :: cs =>
    if c = 'u' then lex (.code units 0 0) cs
    else
      match escapes.lookup c with
      | some d => lex (.str (units ++ [.char d])) cs
      | none => none
  | .code units k n, c :: cs =>
    match hexVal c with
    | none => none
    | some d =>
      if k = 3 then lex (.str (units ++ [.code (n * 16 + d)])) cs
      else lex (.code units (k + 1) (n * 16 + d)) cs
  | .num t, c :: cs =>
    if isNumChar c then lex (.num (t ++ [c])) cs
    else (beginToken c fun l => lex l cs).map (.num t :: ·)
  | .word t, c :: cs =>
    if c.isLower then lex (.word (t ++ [c])) cs
    else (beginToken c fun l => lex l cs).map (.word t :: ·)

/-! ### Putting tokens together -/

/-- A value is being read as an element or as the value of a key. -/
inductive Frame where
  | arr (done : List Value)
  | obj (done : List (Text × Value)) (key : Text)

inductive Place where
  | value
  | element
  | firstKey
  | key (done : List (Text × Value))
  | colon (done : List (Text × Value)) (key : Text)
  | after (v : Value)

def atom : Token → Option Value
  | .str t => some (.str t)
  | .num t => if h : validNumber t = true then some (.num ⟨t, h⟩) else none
  | .word t =>
    if t = "null".toList then some .null
    else if t = "true".toList then some (.bool true)
    else if t = "false".toList then some (.bool false)
    else none
  | _ => none

/-- A token where a value begins; `next` reads what follows it. -/
def beginValue (stack : List Frame) (t : Token) (next : List Frame → Place → Option Value) :
    Option Value :=
  match t with
  | .lbracket => next stack .element
  | .lbrace => next stack .firstKey
  | t => (atom t).bind fun v => next stack (.after v)

/-- Behind a value inside an array or an object, or behind the text. -/
def endValue (stack : List Frame) (v : Value) (t : Token)
    (next : List Frame → Place → Option Value) : Option Value :=
  match stack, t with
  | .arr done :: stack, .comma => next (.arr (done ++ [v]) :: stack) .value
  | .arr done :: stack, .rbracket => next stack (.after (.arr (done ++ [v])))
  | .obj done key :: stack, .comma => next stack (.key (done ++ [(key, v)]))
  | .obj done key :: stack, .rbrace => next stack (.after (.obj (done ++ [(key, v)])))
  | _, _ => none

def build : List Frame → Place → List Token → Option Value
  | stack, p, [] =>
    match stack, p with
    | [], .after v => some v
    | _, _ => none
  | stack, p, t :: ts =>
    match p with
    | .value => beginValue stack t fun stack p => build stack p ts
    | .element =>
      if t = .rbracket then build stack (.after (.arr [])) ts
      else beginValue (.arr [] :: stack) t fun stack p => build stack p ts
    | .firstKey =>
      match t with
      | .rbrace => build stack (.after (.obj [])) ts
      | .str key => build stack (.colon [] key) ts
      | _ => none
    | .key done =>
      match t with
      | .str key => build stack (.colon done key) ts
      | _ => none
    | .colon done key => if t = .colon then build (.obj done key :: stack) .value ts else none
    | .after v => endValue stack v t fun stack p => build stack p ts

def parse (t : Text) : Option Value := (lex .between t).bind (build [] .value)

/-! ### Writing -/

mutual

def tokens : Value → List Token
  | .null => [.word "null".toList]
  | .bool b => [.word (if b then "true".toList else "false".toList)]
  | .num n => [.num n.text]
  | .str t => [.str t]
  | .arr [] => [.lbracket, .rbracket]
  | .arr (x :: xs) => .lbracket :: (tokens x ++ elements xs)
  | .obj [] => [.lbrace, .rbrace]
  | .obj ((key, v) :: fields) => .lbrace :: .str key :: .colon :: (tokens v ++ members fields)

def elements : List Value → List Token
  | [] => [.rbracket]
  | x :: xs => .comma :: (tokens x ++ elements xs)

def members : List (Text × Value) → List Token
  | [] => [.rbrace]
  | (key, v) :: fields => .comma :: .str key :: .colon :: (tokens v ++ members fields)

end

/-- `Marshal`. -/
def render (v : Value) : Text := (tokens v).flatMap Token.text

/-! ### Reading what is written -/

section Lex

variable {c : Char} {t : Text} {rest : Text} {units : List CodeUnit}

theorem hexVal_hexDigit_mod (n : ℕ) : hexVal (hexDigit (n % 16)) = some (n % 16) :=
  Net.hexVal_hexDigit ⟨n % 16, Nat.mod_lt n (by decide)⟩

theorem lex_code (n : ℕ) (hn : n < 65536) :
    lex (.code units 0 0) (hexText4 n ++ rest) = lex (.str (units ++ [.code n])) rest := by
  have hsum : (((0 * 16 + n / 4096 % 16) * 16 + n / 256 % 16) * 16 + n / 16 % 16) * 16 + n % 16 =
      n := by omega
  simp only [hexText4, List.cons_append, List.nil_append, lex, hexVal_hexDigit_mod]
  simp only [Nat.reduceAdd, Nat.reduceEqDiff, if_false, if_true, hsum]

/-- What the reader keeps of a character. -/
def unitOf (c : Char) : CodeUnit :=
  if coded c ∧ c ∉ ['\n', '\r', '\t', Char.ofNat 8, Char.ofNat 12] then .code c.toNat else .char c

theorem char_of_toNat {n : ℕ} (h : c.toNat = n) : c = Char.ofNat n := by
  rw [← h, Char.ofNat_toNat]

/-- An escape with one letter. -/
theorem lex_escape {d : Char} (hc : (c, d) ∈ escapes) :
    lex (.str units) ('\\' :: c :: rest) = lex (.str (units ++ [.char d])) rest := by
  simp only [escapes, List.mem_cons, Prod.mk.injEq, List.not_mem_nil, or_false] at hc
  rcases hc with ⟨rfl, rfl⟩ | ⟨rfl, rfl⟩ | ⟨rfl, rfl⟩ | ⟨rfl, rfl⟩ | ⟨rfl, rfl⟩ | ⟨rfl, rfl⟩ |
    ⟨rfl, rfl⟩ | ⟨rfl, rfl⟩ <;> rfl

theorem coded_lt (h : coded c = true) :
    c.toNat < 128 ∨ c.toNat = 0x2028 ∨ c.toNat = 0x2029 := by
  simp only [coded, Bool.or_eq_true, decide_eq_true_eq] at h
  rcases h with ((((h | rfl) | rfl) | rfl) | h) | h
  · omega
  · decide
  · decide
  · decide
  · exact .inr (.inl h)
  · exact .inr (.inr h)

theorem lex_escapeChar (c : Char) :
    lex (.str units) (escapeChar c ++ rest) = lex (.str (units ++ [unitOf c])) rest := by
  unfold escapeChar
  split
  · rename_i h
    subst h
    exact lex_escape (by decide)
  split
  · rename_i h
    subst h
    exact lex_escape (by decide)
  split
  · rename_i h
    subst h
    exact lex_escape (by decide)
  split
  · rename_i h
    subst h
    exact lex_escape (by decide)
  split
  · rename_i h
    subst h
    exact lex_escape (by decide)
  split
  · rename_i h
    rw [char_of_toNat h]
    exact lex_escape (by decide)
  split
  · rename_i h
    rw [char_of_toNat h]
    exact lex_escape (by decide)
  split
  · rename_i h1 h2 h3 h4 h5 h6 h7 hcoded
    have hunit : unitOf c = .code c.toNat := by
      have h8 : c ≠ Char.ofNat 8 := fun h => h6 (by rw [h]; rfl)
      have h12 : c ≠ Char.ofNat 12 := fun h => h7 (by rw [h]; rfl)
      rw [unitOf, if_pos]
      exact ⟨hcoded, by simp [h3, h4, h5, h8, h12]⟩
    have hlt := coded_lt hcoded
    rw [hunit]
    exact lex_code c.toNat (by omega)
  · rename_i h1 h2 h3 h4 h5 h6 h7 hcoded
    have hunit : unitOf c = .char c := by
      rw [unitOf, if_neg fun h => hcoded h.1]
    have hlow : ¬c.toNat < 32 := by
      intro h
      simp [coded, h] at hcoded
    simp only [List.cons_append, List.nil_append, lex, if_neg h1, if_neg h2, if_neg hlow, hunit]

theorem decodeUnits_unitOf (t : Text) : decodeUnits none (t.map unitOf) = t := by
  induction t with
  | nil => rfl
  | cons c t ih =>
    by_cases h : coded c ∧ c ∉ ['\n', '\r', '\t', Char.ofNat 8, Char.ofNat 12]
    · have hlt := coded_lt h.1
      have hsurrogate : surrogate c.toNat = false := by
        simp only [surrogate, Bool.and_eq_false_iff, decide_eq_false_iff_not]
        omega
      rw [List.map_cons, unitOf, if_pos h, decodeUnits, hsurrogate, if_neg Bool.false_ne_true,
        Char.ofNat_toNat, ih]
    · rw [List.map_cons, unitOf, if_neg h, decodeUnits, ih]

theorem lex_chars (t : Text) :
    lex (.str units) (t.flatMap escapeChar ++ rest) = lex (.str (units ++ t.map unitOf)) rest := by
  induction t generalizing units with
  | nil => rw [List.flatMap_nil, List.map_nil, List.nil_append, List.append_nil]
  | cons c t ih =>
    rw [List.flatMap_cons, List.append_assoc, lex_escapeChar, ih, List.append_assoc, List.map_cons,
      List.singleton_append]

/-- A string is read up to its closing quote. -/
theorem lex_str (t : Text) :
    lex .between ((Token.str t).text ++ rest) = (lex .between rest).map (.str t :: ·) := by
  have hquote : lex (.str (t.map unitOf)) ('"' :: rest) =
      (lex .between rest).map (.str t :: ·) := by
    rw [lex, if_pos rfl, decodeUnits_unitOf]
  have hbegin : ∀ cs, lex .between ('"' :: cs) = lex (.str []) cs := fun cs => rfl
  change lex .between ('"' :: (t.flatMap escapeChar ++ ['"'] ++ rest)) = _
  rw [hbegin, List.append_assoc, lex_chars]
  exact hquote

/-- The characters that a number or a word can go on with. -/
def goesOn (t : Text) (p : Char → Bool) : Prop := ∃ c, t.head? = some c ∧ p c = true

theorem lex_num (cs : Text) (hcs : cs.all isNumChar = true) (hrest : ¬goesOn rest isNumChar) :
    lex (.num t) (cs ++ rest) = (lex .between rest).map (.num (t ++ cs) :: ·) := by
  induction cs generalizing t with
  | nil =>
    rw [List.nil_append, List.append_nil]
    cases rest with
    | nil => rfl
    | cons d rest =>
      have hd : ¬isNumChar d = true := fun h => hrest ⟨d, rfl, h⟩
      exact if_neg hd
  | cons c cs ih =>
    rw [List.all_cons, Bool.and_eq_true] at hcs
    obtain ⟨hc, hcs⟩ := hcs
    rw [List.cons_append, lex, if_pos hc, ih hcs, List.append_assoc, List.singleton_append]

theorem lex_word (cs : Text) (hcs : cs.all Char.isLower = true)
    (hrest : ¬goesOn rest Char.isLower) :
    lex (.word t) (cs ++ rest) = (lex .between rest).map (.word (t ++ cs) :: ·) := by
  induction cs generalizing t with
  | nil =>
    rw [List.nil_append, List.append_nil]
    cases rest with
    | nil => rfl
    | cons d rest =>
      have hd : ¬d.isLower = true := fun h => hrest ⟨d, rfl, h⟩
      exact if_neg hd
  | cons c cs ih =>
    rw [List.all_cons, Bool.and_eq_true] at hcs
    obtain ⟨hc, hcs⟩ := hcs
    rw [List.cons_append, lex, if_pos hc, ih hcs, List.append_assoc, List.singleton_append]

end Lex

section Numbers

variable {c : Char} {t : Text}

theorem next_bad (s : NumState) (h : isNumChar c = false) : s.next c = .bad := by
  simp only [isNumChar, Bool.or_eq_false_iff, decide_eq_false_iff_not] at h
  obtain ⟨hdigit, hother⟩ := h
  have hne : c ≠ '-' ∧ c ≠ '0' ∧ c ≠ '.' ∧ c ≠ 'e' ∧ c ≠ 'E' ∧ c ≠ '+' := by
    refine ⟨?_, ?_, ?_, ?_, ?_, ?_⟩ <;> rintro rfl
    · exact hother (by decide)
    · cases hdigit
    · exact hother (by decide)
    · exact hother (by decide)
    · exact hother (by decide)
    · exact hother (by decide)
  cases s <;> simp [NumState.next, hdigit, hne]

theorem foldl_bad (t : Text) : t.foldl NumState.next .bad = .bad := by
  induction t with
  | nil => rfl
  | cons c t ih => exact ih

theorem isNumChar_of_accepts {s : NumState} (h : (t.foldl NumState.next s).accepts = true) :
    t.all isNumChar = true := by
  induction t generalizing s with
  | nil => rfl
  | cons c t ih =>
    rw [List.foldl_cons] at h
    cases hc : isNumChar c with
    | true =>
      rw [List.all_cons, hc, ih h]
      rfl
    | false =>
      rw [next_bad s hc, foldl_bad] at h
      cases h

/-- A number begins with a digit or a minus sign. -/
theorem validNumber_cons (h : validNumber t = true) :
    ∃ c cs, t = c :: cs ∧ (c.isDigit || decide (c = '-')) = true ∧ cs.all isNumChar = true := by
  cases t with
  | nil => cases h
  | cons c cs =>
    refine ⟨c, cs, rfl, ?_, isNumChar_of_accepts h⟩
    cases hc : c.isDigit || decide (c = '-') with
    | true => rfl
    | false =>
      simp only [Bool.or_eq_false_iff, decide_eq_false_iff_not] at hc
      have hzero : c ≠ '0' := by
        rintro rfl
        cases hc.1
      rw [validNumber, List.foldl_cons, NumState.next, if_neg hc.2, if_neg hzero,
        if_neg (by simp [hc.1]), foldl_bad] at h
      cases h

theorem foldl_decText {n : ℕ} (hn : 0 < n) :
    (decText n).foldl NumState.next .start = .int := by
  induction n using Nat.strongRecOn with
  | ind n ih =>
    by_cases hlt : n < 10
    · rw [Net.decText_of_lt hlt]
      interval_cases n <;> rfl
    · have hdigit : (Nat.digitChar (n % 10)).isDigit = true := by
        have hmod : n % 10 < 10 := Nat.mod_lt n (by decide)
        interval_cases n % 10 <;> rfl
      rw [Net.decText_step (by omega), List.foldl_append, ih (n / 10) (by omega) (by omega)]
      simp [NumState.next, hdigit]

theorem validNumber_decText (n : ℕ) : validNumber (decText n) = true := by
  by_cases hn : n = 0
  · rw [hn]
    decide
  · rw [validNumber, foldl_decText (by omega)]
    rfl

end Numbers

section Tokens

variable {rest : Text} {ts : List Token} {t : Token}

def Token.isWord : Token → Bool
  | .num _ | .word _ => true
  | _ => false

def Token.Readable : Token → Prop
  | .num t => validNumber t = true
  | .word t => t ≠ [] ∧ t.all Char.isLower = true
  | _ => True

/-- A number or a word is not followed by another one. -/
structure Readable (ts : List Token) : Prop where
  each : ∀ t ∈ ts, t.Readable
  apart : ts.IsChain fun a b => a.isWord = true → b.isWord = false

theorem beginToken_num {c : Char} (hc : (c.isDigit || decide (c = '-')) = true)
    (next : Lexer → Option (List Token)) : beginToken c next = next (.num [c]) := by
  have hne : ∀ d : Char, (d.isDigit || decide (d = '-')) = false → c ≠ d := by
    rintro d hd rfl
    rw [hc] at hd
    cases hd
  have hspace : isSpace c = false := by
    simp [isSpace, hne ' ' (by decide), hne '\t' (by decide), hne '\r' (by decide),
      hne '\n' (by decide)]
  have hlookup : punctuation.lookup c = none := by
    rw [List.lookup_eq_none_iff]
    intro p hp
    have hall : ∀ p ∈ punctuation, (p.1.isDigit || decide (p.1 = '-')) = false := by decide
    simpa using hne p.1 (hall p hp)
  rw [beginToken, hspace, hlookup, if_neg Bool.false_ne_true]
  simp only [if_neg (hne '"' (by decide)), hc, if_true]

theorem beginToken_word {c : Char} (hc : c.isLower = true)
    (next : Lexer → Option (List Token)) : beginToken c next = next (.word [c]) := by
  have hne : ∀ d : Char, d.isLower = false → c ≠ d := by
    rintro d hd rfl
    rw [hc] at hd
    cases hd
  have hspace : isSpace c = false := by
    simp [isSpace, hne ' ' (by decide), hne '\t' (by decide), hne '\r' (by decide),
      hne '\n' (by decide)]
  have hlookup : punctuation.lookup c = none := by
    rw [List.lookup_eq_none_iff]
    intro p hp
    have hall : ∀ p ∈ punctuation, p.1.isLower = false := by decide
    simpa using hne p.1 (hall p hp)
  have hdigit : (c.isDigit || decide (c = '-')) = false := by
    have hlow : 97 ≤ c.toNat := by
      have hbounds : (decide (97 ≤ c.val) && decide (c.val ≤ 122)) = true := hc
      exact UInt32.le_iff_toNat_le.mp (of_decide_eq_true (Bool.and_eq_true_iff.mp hbounds).1)
    simp only [Bool.or_eq_false_iff, decide_eq_false_iff_not, hne '-' (by decide),
      not_false_eq_true, and_true, Char.isDigit, Bool.and_eq_false_iff, UInt32.le_iff_toNat_le]
    refine .inr fun hle => ?_
    have h9 : c.toNat ≤ 57 := hle
    omega
  rw [beginToken, hspace, hlookup, if_neg Bool.false_ne_true]
  simp only [if_neg (hne '"' (by decide)), hdigit, Bool.false_eq_true, if_false, hc, if_true]

theorem lex_token (ht : t.Readable)
    (hrest : t.isWord = true → ¬goesOn rest isNumChar ∧ ¬goesOn rest Char.isLower) :
    lex .between (t.text ++ rest) = (lex .between rest).map (t :: ·) := by
  cases t with
  | str t => exact lex_str t
  | num t =>
    obtain ⟨c, cs, rfl, hc, hcs⟩ := validNumber_cons ht
    have hbegin : lex .between (c :: cs ++ rest) = lex (.num [c]) (cs ++ rest) :=
      beginToken_num hc _
    exact hbegin.trans (lex_num cs hcs (hrest rfl).1)
  | word t =>
    obtain ⟨hne, hlower⟩ := ht
    cases t with
    | nil => exact (hne rfl).elim
    | cons c cs =>
      rw [List.all_cons, Bool.and_eq_true] at hlower
      have hbegin : lex .between (c :: cs ++ rest) = lex (.word [c]) (cs ++ rest) :=
        beginToken_word hlower.1 _
      exact hbegin.trans (lex_word cs hlower.2 (hrest rfl).2)
  | _ => rfl

/-- What follows a number or a word does not go on with it. -/
theorem not_goesOn (h : t.isWord = false) {p : Char → Bool}
    (hp : "\x7b\x7d[]:,\"".toList.any p = false) : ¬goesOn (t.text ++ rest) p := by
  rintro ⟨c, hc, hpc⟩
  have hmem : c ∈ "\x7b\x7d[]:,\"".toList := by
    cases t with
    | num t => cases h
    | word t => cases h
    | str t =>
      cases hc
      decide
    | _ =>
      cases hc
      decide
  exact List.any_eq_false.mp hp c hmem hpc

theorem lex_tokens (h : Readable ts) : lex .between (ts.flatMap Token.text) = some ts := by
  induction ts with
  | nil => rfl
  | cons t ts ih =>
    have htail : Readable ts :=
      ⟨fun s hs => h.each s (List.mem_cons_of_mem _ hs), h.apart.tail⟩
    rw [List.flatMap_cons, lex_token (h.each t List.mem_cons_self), ih htail, Option.map_some]
    intro hword
    cases ts with
    | nil => exact ⟨fun ⟨c, hc, _⟩ => (by cases hc), fun ⟨c, hc, _⟩ => by cases hc⟩
    | cons b ts =>
      have hb : b.isWord = false := (List.isChain_cons_cons.mp h.apart).1 hword
      rw [List.flatMap_cons]
      exact ⟨not_goesOn hb (by decide), not_goesOn hb (by decide)⟩

end Tokens

/-! ### Values and their tokens -/

section Values

variable {rest : List Token} {t : Token}

theorem Readable.cons (h : Readable rest) (ht : t.Readable)
    (hapart : t.isWord = true → ∀ b ∈ rest.head?, b.isWord = false) : Readable (t :: rest) := by
  refine ⟨List.forall_mem_cons.mpr ⟨ht, h.each⟩, List.isChain_cons.mpr ⟨?_, h.apart⟩⟩
  intro b hb hword
  exact hapart hword b hb

theorem Readable.punct (h : Readable rest) (ht : t.Readable) (hword : t.isWord = false) :
    Readable (t :: rest) := by
  apply h.cons ht
  intro hw
  rw [hword] at hw
  cases hw

/-- What follows a value. -/
def Follows (rest : List Token) : Prop := Readable rest ∧ ∀ b ∈ rest.head?, b.isWord = false

theorem Follows.punct (h : Readable rest) (ht : t.Readable) (hword : t.isWord = false) :
    Follows (t :: rest) := by
  refine ⟨h.punct ht hword, ?_⟩
  intro b hb
  cases hb
  exact hword

mutual

theorem tokens_readable : ∀ (v : Value) {rest : List Token}, Follows rest →
    Readable (tokens v ++ rest)
  | .null, _, h => h.1.cons ⟨by decide, by decide⟩ fun _ => h.2
  | .bool true, _, h => h.1.cons ⟨by decide, by decide⟩ fun _ => h.2
  | .bool false, _, h => h.1.cons ⟨by decide, by decide⟩ fun _ => h.2
  | .num n, _, h => h.1.cons n.valid fun _ => h.2
  | .str _, _, h => h.1.punct trivial rfl
  | .arr [], _, h => Readable.punct (h.1.punct (t := .rbracket) trivial rfl) trivial rfl
  | .arr (x :: xs), _, h => by
    have hrest := tokens_readable x (elements_follow xs h.1)
    rw [tokens, List.cons_append, List.append_assoc]
    exact hrest.punct trivial rfl
  | .obj [], _, h => Readable.punct (h.1.punct (t := .rbrace) trivial rfl) trivial rfl
  | .obj ((key, v) :: fields), _, h => by
    have hrest := tokens_readable v (members_follow fields h.1)
    rw [tokens, List.cons_append, List.cons_append, List.cons_append, List.append_assoc]
    have hcolon := hrest.punct (t := .colon) trivial rfl
    have hkey := hcolon.punct (t := .str key) trivial rfl
    exact hkey.punct trivial rfl

theorem elements_follow : ∀ (xs : List Value) {rest : List Token}, Readable rest →
    Follows (elements xs ++ rest)
  | [], _, h => Follows.punct h trivial rfl
  | x :: xs, _, h => by
    have hrest := tokens_readable x (elements_follow xs h)
    rw [elements, List.cons_append, List.append_assoc]
    exact Follows.punct hrest trivial rfl

theorem members_follow : ∀ (fields : List (Text × Value)) {rest : List Token}, Readable rest →
    Follows (members fields ++ rest)
  | [], _, h => Follows.punct h trivial rfl
  | (key, v) :: fields, _, h => by
    have hrest := tokens_readable v (members_follow fields h)
    rw [members, List.cons_append, List.cons_append, List.cons_append, List.append_assoc]
    have hcolon := hrest.punct (t := .colon) trivial rfl
    have hkey := hcolon.punct (t := .str key) trivial rfl
    exact Follows.punct hkey trivial rfl

end

/-- An element is read as a value. -/
theorem build_element (v : Value) (stack : List Frame) :
    build stack .element (tokens v ++ rest) =
      build (.arr [] :: stack) .value (tokens v ++ rest) := by
  cases v with
  | arr xs => cases xs <;> rfl
  | obj fields =>
    cases fields with
    | nil => rfl
    | cons f fields => rfl
  | _ => rfl

mutual

theorem build_tokens : ∀ (v : Value) (stack : List Frame) (rest : List Token),
    build stack .value (tokens v ++ rest) = build stack (.after v) rest
  | .null, _, _ => rfl
  | .bool true, _, _ => rfl
  | .bool false, _, _ => rfl
  | .num n, stack, rest => by
    have hatom : atom (.num n.text) = some (.num n) := by
      rw [atom, dif_pos n.valid]
    change ((atom (.num n.text)).bind fun v => build stack (.after v) rest) = _
    rw [hatom, Option.bind_some]
  | .str _, _, _ => rfl
  | .arr [], _, _ => rfl
  | .arr (x :: xs), stack, rest => by
    have hbegin : build stack .value (.lbracket :: (tokens x ++ (elements xs ++ rest))) =
        build stack .element (tokens x ++ (elements xs ++ rest)) := rfl
    rw [tokens, List.cons_append, List.append_assoc, hbegin, build_element, build_tokens x,
      build_elements xs]
    rfl
  | .obj [], _, _ => rfl
  | .obj ((key, v) :: fields), stack, rest => by
    have hbegin : build stack .value (.lbrace :: .str key :: .colon ::
          (tokens v ++ (members fields ++ rest))) =
        build (.obj [] key :: stack) .value (tokens v ++ (members fields ++ rest)) := rfl
    rw [tokens, List.cons_append, List.cons_append, List.cons_append, List.append_assoc, hbegin,
      build_tokens v, build_members fields]
    rfl

theorem build_elements : ∀ (xs : List Value) (done : List Value) (x : Value) (stack : List Frame)
    (rest : List Token), build (.arr done :: stack) (.after x) (elements xs ++ rest) =
      build stack (.after (.arr (done ++ x :: xs))) rest
  | [], _, _, _, _ => rfl
  | y :: xs, done, x, stack, rest => by
    have hcomma : build (.arr done :: stack) (.after x) (.comma ::
          (tokens y ++ (elements xs ++ rest))) =
        build (.arr (done ++ [x]) :: stack) .value (tokens y ++ (elements xs ++ rest)) := rfl
    rw [elements, List.cons_append, List.append_assoc, hcomma, build_tokens y, build_elements xs,
      List.append_assoc, List.singleton_append]

theorem build_members : ∀ (fields : List (Text × Value)) (done : List (Text × Value))
    (key : Text) (v : Value) (stack : List Frame) (rest : List Token),
    build (.obj done key :: stack) (.after v) (members fields ++ rest) =
      build stack (.after (.obj (done ++ (key, v) :: fields))) rest
  | [], _, _, _, _, _ => rfl
  | (key', w) :: fields, done, key, v, stack, rest => by
    have hcomma : build (.obj done key :: stack) (.after v) (.comma :: .str key' :: .colon ::
          (tokens w ++ (members fields ++ rest))) =
        build (.obj (done ++ [(key, v)]) key' :: stack) .value
          (tokens w ++ (members fields ++ rest)) := rfl
    rw [members, List.cons_append, List.cons_append, List.cons_append, List.append_assoc, hcomma,
      build_tokens w, build_members fields, List.append_assoc, List.singleton_append]

end

/-- What is written is read back. -/
theorem parse_render (v : Value) : parse (render v) = some v := by
  have hfollows : Follows [] := ⟨⟨by simp, .nil⟩, by simp⟩
  have hreadable := tokens_readable v hfollows
  have hbuild := build_tokens v [] []
  rw [List.append_nil] at hreadable hbuild
  rw [parse, render, lex_tokens hreadable, Option.bind_some, hbuild]
  rfl

end Values

end SshTunnel.Lib.Json
