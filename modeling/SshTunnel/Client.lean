import SshTunnel.Control

/-!
# The connect command (`commands/connect.go:33-90`)

The loop of `cmdConnect.Execute`: what the client does with a response. The
first request is empty; the answers of the user are parameters.
-/

namespace SshTunnel.Client

open Lib.Net (Text)
open Control (ConnectStatus ConnectIn ConnectOut)

/-- `unicode.IsSpace`. -/
def isSpace (c : Char) : Bool :=
  c ∈ ['\t', '\n', '\x0b', '\x0c', '\r', ' ', '\u0085', '\u00a0', '\u1680', '\u2028', '\u2029',
    '\u202f', '\u205f', '\u3000'] || ('\u2000' ≤ c && c ≤ '\u200a')

def trimSpace (s : Text) : Text := ((s.dropWhile isSpace).reverse.dropWhile isSpace).reverse

/-- The answer at the host key prompt is an acceptance. `strings.ToLower` maps no
other character to one of `yes`. -/
def isYes (line : Text) : Bool :=
  trimSpace (line.map Char.toLower) ∈ ["yes".toList, "y".toList]

/-- The flag of the command and the input of its user: `passphrase` is `none` when
the prompt fails, `line` when reading the answer does. -/
structure User where
  acceptHostKeys : Bool
  passphrase : Option Text
  line : Option Text

def User.accepts (user : User) : Bool := user.acceptHostKeys || user.line.any isYes

inductive Next where
  | request (inp : ConnectIn)
  | exit (code : ℕ)
  | fail
  deriving DecidableEq

def firstRequest : ConnectIn := ⟨[], none⟩

/-- One round of the loop after a response. -/
def next (user : User) (out : ConnectOut) : Next :=
  match out.status with
  | .failed => .exit 1
  | .succeeded => .exit 0
  | .needPassphrase =>
    match user.passphrase with
    | some p => .request ⟨p, none⟩
    | none => .fail
  | .unknownHostKey =>
    if user.acceptHostKeys then .request ⟨[], some true⟩
    else if user.line.any isYes then .request ⟨[], some true⟩
    else .exit 1
  | _ => .request ⟨[], none⟩

/-- A client accepts only in reply to a response that asks, and never sends a
passphrase with it. -/
theorem next_request {user : User} {out : ConnectOut} {inp : ConnectIn}
    (h : next user out = .request inp) :
    inp.acceptHostKey = none ∨
      out.status = .unknownHostKey ∧ inp = ⟨[], some true⟩ := by
  unfold next at h
  split at h
  · cases h
  · cases h
  · split at h <;> cases h
    exact .inl rfl
  · rename_i hst
    split at h
    · cases h
      exact .inr ⟨hst, rfl⟩
    · split at h <;> cases h
      exact .inr ⟨hst, rfl⟩
  · cases h
    exact .inl rfl

/-- At a host key prompt the client sends an acceptance, or nothing. -/
theorem next_unknownHostKey {user : User} {out : ConnectOut} (h : out.status = .unknownHostKey) :
    next user out = if user.accepts then .request ⟨[], some true⟩ else .exit 1 := by
  simp only [next, h, User.accepts, Bool.or_eq_true]
  by_cases hf : user.acceptHostKeys = true <;> simp [hf]

example : isYes "  Yes\n".toList = true := by decide

end SshTunnel.Client
