import SshTunnel.Lib.Net

/-!
# Texts of a host and a port (Go's packages `net` and `net/url`)

`net.SplitHostPort` with the texts of its errors, and `URL.Hostname` and `URL.Port`,
which split the same texts in another way.
-/

namespace SshTunnel.Lib.HostPort

open Net (Text)

/-! ### Separators -/

/-- What has no separator and begins a text, begins what stands in front of one. -/
theorem prefix_of_append_cons {α : Type} {c : α} {p s t : List α} (hc : c ∉ p)
    (h : p <+: s ++ c :: t) : p <+: s := by
  rcases Nat.lt_or_ge s.length p.length with hlt | hge
  · have hmiddle : s ++ [c] <+: s ++ c :: t := ⟨t, by simp⟩
    have hsub := List.prefix_of_prefix_length_le hmiddle h
      (by rwa [List.length_append, List.length_singleton])
    exact absurd (hsub.subset (by simp)) hc
  · exact List.prefix_of_prefix_length_le h (List.prefix_append s _) hge

/-- What stands before and behind the last `c`. -/
def cutLast (c : Char) : Text → Option (Text × Text)
  | [] => none
  | d :: s =>
    match cutLast c s with
    | some (before, after) => some (d :: before, after)
    | none => if d = c then some ([], s) else none

section CutLast

variable {c : Char} {s before after : Text}

theorem cutLast_none : cutLast c s = none ↔ c ∉ s := by
  induction s with
  | nil => simp [cutLast]
  | cons d s ih =>
    rw [cutLast, List.mem_cons, not_or, ← ih]
    cases cutLast c s with
    | some r => simp
    | none =>
      by_cases h : d = c
      · simp [h]
      · simp [h, Ne.symm h]

theorem cutLast_append (h : c ∉ after) (before : Text) :
    cutLast c (before ++ c :: after) = some (before, after) := by
  induction before with
  | nil => rw [List.nil_append, cutLast, cutLast_none.mpr h, if_pos rfl]
  | cons d before ih => rw [List.cons_append, cutLast, ih]

theorem cutLast_some (h : cutLast c s = some (before, after)) :
    s = before ++ c :: after ∧ c ∉ after := by
  induction s generalizing before with
  | nil => cases h
  | cons d s ih =>
    rw [cutLast] at h
    cases hs : cutLast c s with
    | some r =>
      simp only [hs] at h
      cases h
      obtain ⟨rfl, hafter⟩ := ih hs
      exact ⟨rfl, hafter⟩
    | none =>
      simp only [hs] at h
      split at h
      · rename_i hd
        cases h
        exact ⟨by rw [hd, List.nil_append], cutLast_none.mp hs⟩
      · cases h

end CutLast

/-! ### Package `net` -/

/-- The text of an `AddrError`. -/
def addrError (addr why : Text) : Text :=
  if addr = [] then why else "address ".toList ++ addr ++ ": ".toList ++ why

def missingPort : Text := "missing port in address".toList
def tooManyColons : Text := "too many colons in address".toList

/-- The text between the first character and the first `]`, and what stands behind it. -/
def bracketed (s : Text) : Text × Text :=
  ((s.takeWhile (· ≠ ']')).drop 1, (s.dropWhile (· ≠ ']')).drop 1)

def splitHostPort (hostport : Text) : Except Text (Text × Text) :=
  match cutLast ':' hostport with
  | none => .error (addrError hostport missingPort)
  | some (before, port) =>
    if hostport.head? = some '[' then
      let (host, rest) := bracketed hostport
      if ']' ∉ hostport then .error (addrError hostport "missing ']' in address".toList)
      else if rest = [] then .error (addrError hostport missingPort)
      else if before.length + rest.length = hostport.length then
        if '[' ∈ hostport.drop 1 then
          .error (addrError hostport "unexpected '[' in address".toList)
        else if ']' ∈ rest then .error (addrError hostport "unexpected ']' in address".toList)
        else .ok (host, port)
      else if rest.head? = some ':' then .error (addrError hostport tooManyColons)
      else .error (addrError hostport missingPort)
    else if ':' ∈ before then .error (addrError hostport tooManyColons)
    else if '[' ∈ hostport then .error (addrError hostport "unexpected '[' in address".toList)
    else if ']' ∈ hostport then .error (addrError hostport "unexpected ']' in address".toList)
    else .ok (before, port)

/-- A text without the characters that have a meaning for `splitHostPort`. -/
def Bare (t : Text) : Prop := ':' ∉ t ∧ '[' ∉ t ∧ ']' ∉ t

def Unbracketed (t : Text) : Prop := '[' ∉ t ∧ ']' ∉ t

instance decidableUnbracketed (t : Text) : Decidable (Unbracketed t) :=
  inferInstanceAs (Decidable (_ ∧ _))

instance decidableBare (t : Text) : Decidable (Bare t) := inferInstanceAs (Decidable (_ ∧ _))

def literal (host : Text) : Text := '[' :: host ++ [']']

section Split

variable {s host port : Text}

theorem splitHostPort_bare (hhost : Bare host) (hport : Bare port) :
    splitHostPort (host ++ ':' :: port) = .ok (host, port) := by
  have hhead : (host ++ ':' :: port).head? ≠ some '[' := by
    cases host with
    | nil => simp
    | cons c host =>
      intro h
      exact hhost.2.1 (List.mem_of_head? h)
  have hopen : '[' ∉ host ++ ':' :: port := by simp [hhost.2.1, hport.2.1]
  have hclose : ']' ∉ host ++ ':' :: port := by simp [hhost.2.2, hport.2.2]
  rw [splitHostPort, cutLast_append hport.1]
  simp only [if_neg hhead, if_neg hhost.1, if_neg hopen, if_neg hclose]

theorem takeWhile_literal (h : ']' ∉ host) (rest : Text) :
    ('[' :: host ++ ']' :: rest).takeWhile (· ≠ ']') = '[' :: host := by
  rw [List.takeWhile_append_of_pos]
  · simp
  · intro c hc
    have hne : c ≠ ']' := by
      rintro rfl
      rcases List.mem_cons.mp hc with hc | hc
      · cases hc
      · exact h hc
    simpa using hne

theorem bracketed_literal (h : ']' ∉ host) (rest : Text) :
    bracketed ('[' :: host ++ ']' :: rest) = (host, rest) := by
  have htake := takeWhile_literal h rest
  have hdrop : ('[' :: host ++ ']' :: rest).dropWhile (· ≠ ']') = ']' :: rest := by
    have happend := List.takeWhile_append_dropWhile
      (p := fun c => decide (c ≠ ']')) (l := '[' :: host ++ ']' :: rest)
    rw [htake] at happend
    exact List.append_cancel_left happend
  rw [bracketed, htake, hdrop]
  rfl

theorem splitHostPort_literal (hhost : Unbracketed host) (hport : Bare port) :
    splitHostPort (literal host ++ ':' :: port) = .ok (host, port) := by
  have hs : literal host ++ ':' :: port = '[' :: host ++ ']' :: (':' :: port) := by
    rw [literal, List.append_assoc]
    rfl
  have hopen : '[' ∉ (literal host ++ ':' :: port).drop 1 := by
    rw [hs]
    simp [hhost.1, hport.2.1]
  have hclose : ']' ∈ literal host ++ ':' :: port := by simp [literal]
  have hlen : (literal host).length + (':' :: port).length =
      (literal host ++ ':' :: port).length := List.length_append.symm
  have hrest : ']' ∉ ':' :: port := by simp [hport.2.2]
  rw [splitHostPort, cutLast_append hport.1]
  rw [show bracketed (literal host ++ ':' :: port) = (host, ':' :: port) by
    rw [hs, bracketed_literal hhost.2]]
  simp only [if_pos (show (literal host ++ ':' :: port).head? = some '[' from rfl),
    if_neg (not_not.mpr hclose), if_neg (List.cons_ne_nil ':' port), if_pos hlen, if_neg hopen,
    if_neg hrest]

theorem bracketed_append {s : Text} (hhead : s.head? = some '[') (hclose : ']' ∈ s) :
    s = '[' :: (bracketed s).1 ++ ']' :: (bracketed s).2 ∧ ']' ∉ (bracketed s).1 := by
  obtain ⟨before, after, rfl, hbefore⟩ := List.eq_append_cons_of_mem hclose
  cases before with
  | nil => cases hhead
  | cons c before =>
    cases hhead
    have hnot : ']' ∉ before := fun h => hbefore (List.mem_cons_of_mem '[' h)
    rw [bracketed_literal hnot]
    exact ⟨rfl, hnot⟩

/-- The texts that are split, and what they are split into. -/
theorem splitHostPort_ok {s : Text} (h : splitHostPort s = .ok (host, port)) :
    Bare port ∧ (Bare host ∧ s = host ++ ':' :: port ∨
      Unbracketed host ∧ s = literal host ++ ':' :: port) := by
  unfold splitHostPort at h
  cases hcut : cutLast ':' s with
  | none =>
    simp only [hcut] at h
    cases h
  | some r =>
    obtain ⟨before, after⟩ := r
    obtain ⟨hs, hafter⟩ := cutLast_some hcut
    simp only [hcut] at h
    split_ifs at h with hhead hclose hrest hlen hopen hclose' hrest' hcolon hopen hclose
    · obtain ⟨rfl, rfl⟩ := Prod.mk.inj (Except.ok.inj h)
      obtain ⟨hbracket, hname⟩ := bracketed_append hhead hclose
      have hliteral : literal (bracketed s).1 ++ (bracketed s).2 = before ++ ':' :: after := by
        rw [← hs, literal, List.append_assoc]
        exact hbracket.symm
      have hlength : (literal (bracketed s).1).length = before.length := by
        have hsum := congrArg List.length hliteral
        rw [← hs, List.length_append] at hsum
        omega
      obtain ⟨hbefore, hrest⟩ := List.append_inj hliteral hlength
      rw [hbracket, List.cons_append, List.drop_one, List.tail_cons, hrest] at hopen
      rw [hrest] at hclose'
      simp only [List.mem_append, List.mem_cons, not_or] at hopen hclose'
      exact ⟨⟨hafter, hopen.2.2.2, hclose'.2⟩, .inr ⟨⟨hopen.1, hname⟩, by rw [hbefore, hs]⟩⟩
    · cases h
      rw [hs] at hopen hclose
      simp only [List.mem_append, List.mem_cons, not_or] at hopen hclose
      exact ⟨⟨hafter, hopen.2.2, hclose.2.2⟩, .inl ⟨⟨hcolon, hopen.1, hclose.1⟩, hs⟩⟩

end Split

/-! ### Package `net/url` -/

def validOptionalPort : Text → Bool
  | [] => true
  | c :: cs => c = ':' && cs.all Char.isDigit

def stripBrackets (host : Text) : Text :=
  if host.head? = some '[' ∧ host.getLast? = some ']' then (host.drop 1).dropLast else host

/-- `splitHostPort` of package `net/url`: a port that is not numeric is none. -/
def splitURLHost (hostPort : Text) : Text × Text :=
  match cutLast ':' hostPort with
  | some (before, port) =>
    if validOptionalPort (':' :: port) then (stripBrackets before, port)
    else (stripBrackets hostPort, [])
  | none => (stripBrackets hostPort, [])

def hostname (host : Text) : Text := (splitURLHost host).1

def port (host : Text) : Text := (splitURLHost host).2

/-- A name or an IPv4 address, or something in brackets. -/
def HostName (t : Text) : Prop := Bare t ∨ ∃ m, Unbracketed m ∧ t = literal m

/-- A host name, alone or with a port that is not empty. -/
def Dialable (host : Text) : Prop :=
  HostName host ∨ ∃ name port, host = name ++ ':' :: port ∧ HostName name ∧ port ≠ [] ∧
    ∀ c ∈ port, c.isDigit = true

section URL

variable {host name p t : Text}

theorem digits_bare (h : ∀ c ∈ p, c.isDigit = true) : Bare p := by
  refine ⟨fun hm => ?_, fun hm => ?_, fun hm => ?_⟩ <;> exact absurd (h _ hm) (by decide)

theorem validOptionalPort_iff :
    validOptionalPort (':' :: p) = true ↔ ∀ c ∈ p, c.isDigit = true := by
  simp [validOptionalPort]

theorem stripBrackets_literal (m : Text) : stripBrackets (literal m) = m := by
  have hlast : (literal m).getLast? = some ']' := List.getLast?_concat
  rw [stripBrackets, if_pos ⟨rfl, hlast⟩]
  simp [literal]

theorem stripBrackets_bare (h : Bare t) : stripBrackets t = t :=
  if_neg fun hb => h.2.1 (List.mem_of_head? hb.1)

/-- `SplitHostPort` finds the host of `Hostname` in front of a port exactly if it is
a host name. -/
theorem splitHostPort_strip_iff (hp : Bare p) :
    splitHostPort (name ++ ':' :: p) = .ok (stripBrackets name, p) ↔ HostName name := by
  constructor
  · intro h
    obtain ⟨-, ⟨hbare, hs⟩ | ⟨hunbracketed, hs⟩⟩ := splitHostPort_ok h
    · have hname := List.append_cancel_right hs
      rw [← hname] at hbare
      exact .inl hbare
    · exact .inr ⟨_, hunbracketed, List.append_cancel_right hs⟩
  · rintro (h | ⟨m, hm, rfl⟩)
    · rw [stripBrackets_bare h, splitHostPort_bare h hp]
    · rw [stripBrackets_literal, splitHostPort_literal hm hp]

theorem cutLast_unique {c : Char} {l l' r r' : Text} (h : l ++ c :: r = l' ++ c :: r')
    (hr : c ∉ r) (hr' : c ∉ r') : l = l' ∧ r = r' := by
  have hcut := cutLast_append hr l
  rw [h, cutLast_append hr' l'] at hcut
  cases hcut
  exact ⟨rfl, rfl⟩

theorem not_hostName_of_last {l r : Text} {c : Char} (hc : c ≠ ']')
    (hlast : (l ++ ':' :: r).getLast? = some c) : ¬HostName (l ++ ':' :: r) := by
  rintro (h | ⟨m, -, hm⟩)
  · exact h.1 (by simp)
  · rw [hm, literal, List.getLast?_concat] at hlast
    exact hc (Option.some.inj hlast).symm

theorem not_dialable_empty (l : Text) : ¬Dialable (l ++ [':']) := by
  rintro (h | ⟨name, p, hs, -, hne, hp⟩)
  · exact not_hostName_of_last (c := ':') (by decide) List.getLast?_concat h
  · exact hne (cutLast_unique hs List.not_mem_nil (digits_bare hp).1).2.symm

theorem dialable_port_iff {l : Text} (hne : p ≠ []) (hp : ∀ c ∈ p, c.isDigit = true) :
    Dialable (l ++ ':' :: p) ↔ HostName l := by
  constructor
  · rintro (h | ⟨name, q, hs, hname, -, hq⟩)
    · obtain ⟨q, c, rfl⟩ := List.eq_nil_or_concat p |>.resolve_left hne
      have hc : c ≠ ']' := by
        rintro rfl
        exact absurd (hp ']' (by simp)) (by decide)
      refine absurd h (not_hostName_of_last hc ?_)
      rw [List.concat_eq_append, ← List.cons_append, ← List.append_assoc, List.getLast?_concat]
    · obtain ⟨rfl, -⟩ := cutLast_unique hs (digits_bare hp).1 (digits_bare hq).1
      exact hname
  · intro h
    exact .inr ⟨l, p, rfl, h, hne, hp⟩

theorem dialable_other_iff (h : ∀ l r, host = l ++ ':' :: r → ¬∀ c ∈ r, c.isDigit = true) :
    Dialable host ↔ HostName host := by
  refine ⟨?_, .inl⟩
  rintro (hname | ⟨name, p, hs, -, -, hp⟩)
  · exact hname
  · exact absurd hp (h name p hs)

/-- With a default port where there is none, the host of a url is split back exactly
if it is dialable. -/
theorem splitHostPort_default_iff (host d : Text) (hd : Bare d) :
    splitHostPort (if port host = [] then host ++ ':' :: d else host) =
      .ok (hostname host, if port host = [] then d else port host) ↔ Dialable host := by
  unfold port hostname splitURLHost
  cases hcut : cutLast ':' host with
  | none =>
    have hcolon := cutLast_none.mp hcut
    rw [if_pos rfl, if_pos rfl, splitHostPort_strip_iff hd, dialable_other_iff]
    rintro l r rfl
    exact absurd (by simp) hcolon
  | some r =>
    obtain ⟨l, p⟩ := r
    obtain ⟨rfl, hp⟩ := cutLast_some hcut
    by_cases hdigits : ∀ c ∈ p, c.isDigit = true
    · simp only [if_pos (validOptionalPort_iff.mpr hdigits)]
      by_cases hne : p = []
      · subst hne
        rw [if_pos rfl, if_pos rfl]
        refine iff_of_false (fun h => ?_) (not_dialable_empty l)
        obtain ⟨-, ⟨hbare, hs⟩ | ⟨-, hs⟩⟩ := splitHostPort_ok h
        · rw [← List.append_cancel_right hs] at hbare
          exact hbare.1 (by simp)
        · have hlast := congrArg List.getLast? (List.append_cancel_right hs)
          rw [List.getLast?_concat, literal, List.getLast?_concat] at hlast
          exact absurd hlast (by decide)
      · rw [if_neg hne, if_neg hne, splitHostPort_strip_iff (digits_bare hdigits),
          dialable_port_iff hne hdigits]
    · have hvalid : ¬validOptionalPort (':' :: p) = true := fun h =>
        hdigits (validOptionalPort_iff.mp h)
      simp only [if_neg hvalid, if_true]
      rw [splitHostPort_strip_iff hd, dialable_other_iff]
      intro l' r hs hr
      obtain ⟨-, rfl⟩ := cutLast_unique hs hp (digits_bare hr).1
      exact hdigits hr

end URL

end SshTunnel.Lib.HostPort
