import SshTunnel.Connector.State
import SshTunnel.IptablesScript

/-!
# Dialers (`dialer/dialer.go`, `rules/rules.go:85-96`)

The rules and the dialers are two tables, joined by the name of a dialer when a
connection is dialled. What the daemon does not decide itself is a parameter:
name resolution, the dialers' own `Dial`, the parsers of urls and keys, and
whether the known hosts file can be loaded.
-/

namespace SshTunnel.Dialers

open Lib.Net (Text IP)
open Connector (SSHAddress PublicKey)
open Rules (RuleSet Rule Route defaultRuleSet serverAddRule)
open IptablesScript (direct)

/-- `net/url.URL`, as far as it is read. -/
structure URL where
  scheme : Text
  username : Text
  host : Text
  port : Text

/-- The fields of `SSHDialer` that the control requests write. -/
structure SSHDialer where
  addresses : List SSHAddress
  user : Text
  signers : List PublicKey

/-- The implementation behind a name: the pointer `sshDialer` at the time, which
is nil when `NewSSHDialer` failed, or a dialer of its own for a socks5 address. -/
inductive Impl where
  | ssh (allocated : Bool)
  | socks5 (addr : Text)
  deriving DecidableEq

structure DialerInfo where
  name : Text
  type : Text
  destination : Text
  impl : Impl

/-- What a call of `Dial` gives. -/
inductive DialResult (Conn : Type) where
  | returned (conn : Option Conn) (err : Option Text)
  | panicked

structure Env (Conn : Type) where
  resolveTCPAddr : Text → Text → Option IP
  netDial : Text → Text → DialResult Conn
  sshDial : SSHDialer → Text → Text → DialResult Conn
  socks5Dial : Text → Text → Text → DialResult Conn
  newSocks5Dialer : Text → Except Text Unit
  parseURL : Text → Option URL
  parseEncryptedPrivateKey : Text → Text → Except Text PublicKey

/-- The package variables of `dialer` and `rules`. -/
structure State where
  dialers : Text → Option DialerInfo
  sshDialer : Option SSHDialer
  rules : RuleSet

def init : State := ⟨fun _ => none, none, defaultRuleSet⟩

def default : Text := "default".toList
def ssh : Text := "ssh".toList

inductive Outcome where
  | ok
  | error (err : Text)
  | panicked
  deriving DecidableEq

section Requests

variable {Conn : Type} (env : Env Conn)

def State.register (s : State) (name : Text) (info : DialerInfo) : State :=
  { s with dialers := Function.update s.dialers name (some info) }

/-- `makeSSHDialer`; `loads` says whether `NewSSHDialer` can load the known hosts. -/
def State.makeSSHDialer (loads : Bool) (s : State) : State :=
  if s.sshDialer.isSome then s
  else
    let s' := { s with sshDialer := if loads then some ⟨[], [], []⟩ else none }
    let info : DialerInfo := ⟨default, ssh, "...".toList, .ssh loads⟩
    if (s'.dialers default).isSome then s'.register ssh info else s'.register default info

def notSSHText (uri : Text) : Text := "'".toList ++ uri ++ "' is not a valid ssh url".toList

/-- The address that `SSHDialer.AddDialer` reads from its argument. -/
def sshAddress (uri : Text) : Except Text SSHAddress :=
  let uri := if "://".toList <:+: uri then uri else "ssh://".toList ++ uri
  match env.parseURL uri with
  | some url =>
    if url.scheme = ssh then
      .ok ⟨url.username, if url.port = [] then url.host ++ ":22".toList else url.host⟩
    else .error (notSSHText uri)
  | none => .error (notSSHText uri)

/-- The calls of `SSHDialer.AddDialer` on the pointer, whose errors are dropped;
`none` when one of them dereferences nil. -/
def addAddresses : Option SSHDialer → List Text → Option (Option SSHDialer)
  | d, [] => some d
  | d, uri :: uris =>
    match sshAddress env uri, d with
    | .error _, d => addAddresses d uris
    | .ok _, none => none
    | .ok a, some d => addAddresses (some { d with
        addresses := d.addresses ++ [a]
        user := if d.user = [] then a.user else d.user }) uris

def addDialer (loads : Bool) (dialerName uri : Text) (s : State) : State × Outcome :=
  let dialerName := if dialerName = [] then default else dialerName
  if "socks5://".toList <+: uri then
    match env.newSocks5Dialer (uri.drop 9) with
    | .error err => (s, .error err)
    | .ok _ =>
      (s.register dialerName ⟨dialerName, "socks5".toList, uri, .socks5 (uri.drop 9)⟩, .ok)
  else
    let s' := s.makeSSHDialer loads
    match addAddresses env s'.sshDialer (uri.splitOn ',') with
    | none => (s', .panicked)
    | some d =>
      ({ s' with sshDialer := d }.register dialerName ⟨dialerName, ssh, uri, .ssh d.isSome⟩, .ok)

def addSSHKey (loads : Bool) (encodedKey passPhrase : Text) (s : State) : State × Outcome :=
  let s' := s.makeSSHDialer loads
  match env.parseEncryptedPrivateKey encodedKey passPhrase, s'.sshDialer with
  | .error err, _ => (s', .error err)
  | .ok _, none => (s', .panicked)
  | .ok signer, some d =>
    ({ s' with sshDialer := some { d with signers := d.signers ++ [signer] } }, .ok)

inductive Request where
  | addRule (rule : Control.Rule)
  | addDialer (uri : Text)
  | addSSHKey (encodedKey passPhrase : Text)

/-- A request, and whether the known hosts can be loaded when it comes. -/
structure Call where
  request : Request
  loads : Bool

def State.handle (s : State) (c : Call) : State × Outcome :=
  match c.request with
  | .addRule rule =>
    match serverAddRule s.rules rule with
    | (rules, none) => ({ s with rules := rules }, .ok)
    | (rules, some err) => ({ s with rules := rules }, .error err)
  | .addDialer uri => addDialer env c.loads default uri s
  | .addSSHKey encodedKey passPhrase => addSSHKey env c.loads encodedKey passPhrase s

def after (calls : List Call) : State := calls.foldl (fun s c => (s.handle env c).1) init

def Succeed (calls : List Call) : Prop :=
  ∀ pre c post, calls = pre ++ c :: post → ((after env pre).handle env c).2 = .ok

end Requests

section Dial

variable {Conn : Type} (env : Env Conn)

/-- Who opens the connection of `RuleSet.Dial`. -/
inductive Via where
  | netDial
  | impl (i : Impl)
  | nobody
  deriving DecidableEq

def State.via (s : State) (network addr : Text) : Via :=
  match s.rules.dial env.resolveTCPAddr network addr with
  | .netDial => .netDial
  | .dialer name =>
    match s.dialers name with
    | some info => .impl info.impl
    | none => .nobody

/-- `RuleSet.Dial` with `dialer.Dial`; the method of a nil `SSHDialer` takes the
lock of nil. -/
def State.dial (s : State) (network addr : Text) : DialResult Conn :=
  match s.via env network addr with
  | .netDial => env.netDial network addr
  | .nobody => .returned none none
  | .impl (.socks5 a) => env.socks5Dial a network addr
  | .impl (.ssh false) => .panicked
  | .impl (.ssh true) =>
    match s.sshDialer with
    | some d => env.sshDial d network addr
    | none => .panicked

def State.matching (s : State) (network addr : Text) : Option Rule :=
  (env.resolveTCPAddr network addr).bind s.rules.firstRule

end Dial

def DialResult.Answered {Conn : Type} (r : DialResult Conn) : Prop :=
  ∃ conn err, r = .returned conn err ∧ (conn ≠ none ∨ err ≠ none)

/-- The dialers themselves give a connection or an error. -/
structure Env.Answers {Conn : Type} (env : Env Conn) : Prop where
  netDial : ∀ network addr, (env.netDial network addr).Answered
  sshDial : ∀ d network addr, (env.sshDial d network addr).Answered
  socks5Dial : ∀ a network addr, (env.socks5Dial a network addr).Answered

/-- The name is in the table, and not with the nil pointer of a failed `NewSSHDialer`. -/
def State.Registered (s : State) (name : Text) : Prop :=
  ∃ info, s.dialers name = some info ∧ info.impl ≠ .ssh false

/-- `RuleSet.Dial` answers, and a rule for `direct` has it dial directly. -/
def Proper {Conn : Type} (env : Env Conn) (s : State) (network addr : Text) : Prop :=
  (s.dial env network addr).Answered ∧
    ∀ r, s.matching env network addr = some r → r.dialer = direct →
      s.via env network addr = .netDial

/-- What holds of the two tables after every sequence of requests. -/
structure State.Sound (s : State) : Prop where
  named : ∀ name info, s.dialers name = some info → name = default ∨ name = ssh
  allocated : ∀ name info, s.dialers name = some info → info.impl = .ssh true →
    s.sshDialer.isSome = true

section Tables

variable {Conn : Type} {env : Env Conn} {s : State}

theorem State.Sound.register (hs : s.Sound) {name : Text} {info : DialerInfo}
    (hn : name = default ∨ name = ssh) (hi : info.impl = .ssh true → s.sshDialer.isSome = true) :
    (s.register name info).Sound := by
  have hcases : ∀ name' info', (s.register name info).dialers name' = some info' →
      name' = name ∧ info' = info ∨ s.dialers name' = some info' := by
    intro name' info' h
    simp only [State.register, Function.update_apply] at h
    split at h
    · rename_i he
      exact .inl ⟨he, (Option.some.inj h).symm⟩
    · exact .inr h
  refine ⟨fun name' info' h => ?_, fun name' info' h himpl => ?_⟩
  · rcases hcases name' info' h with ⟨rfl, -⟩ | h
    · exact hn
    · exact hs.named name' info' h
  · rcases hcases name' info' h with ⟨-, rfl⟩ | h
    · exact hi himpl
    · exact hs.allocated name' info' h himpl

theorem State.Sound.setSSHDialer (hs : s.Sound) {d : Option SSHDialer}
    (hd : s.sshDialer.isSome = true → d.isSome = true) : { s with sshDialer := d }.Sound :=
  ⟨hs.named, fun name info h hi => hd (hs.allocated name info h hi)⟩

theorem makeSSHDialer_sound (hs : s.Sound) (loads : Bool) : (s.makeSSHDialer loads).Sound := by
  unfold State.makeSSHDialer
  split
  · exact hs
  · rename_i hnone
    have hs' := hs.setSSHDialer (d := if loads then some ⟨[], [], []⟩ else none)
      fun h => (hnone h).elim
    dsimp only
    split
    · refine hs'.register (.inr rfl) fun hi => ?_
      cases hi
      rfl
    · refine hs'.register (.inl rfl) fun hi => ?_
      cases hi
      rfl

theorem addAddresses_isSome {d d' : Option SSHDialer} {uris : List Text}
    (h : addAddresses env d uris = some d') : d'.isSome = d.isSome := by
  induction uris generalizing d with
  | nil =>
    cases h
    rfl
  | cons uri uris ih =>
    simp only [addAddresses] at h
    split at h
    · exact ih h
    · cases h
    · have hsome := ih h
      exact hsome

theorem addDialer_sound (hs : s.Sound) (loads : Bool) (uri : Text) :
    (addDialer env loads default uri s).1.Sound := by
  have hname : (if default = [] then default else default) = default := if_neg (by decide)
  simp only [addDialer, hname]
  split
  · split
    · exact hs
    · exact hs.register (.inl rfl) fun hi => by cases hi
  · have hs' := makeSSHDialer_sound hs loads
    split
    · exact hs'
    · rename_i d hd
      refine (hs'.setSSHDialer fun h => ?_).register (.inl rfl) fun hi => ?_
      · rw [addAddresses_isSome hd]
        exact h
      · cases hi' : d.isSome with
        | true => rfl
        | false =>
          rw [hi'] at hi
          cases hi

theorem addSSHKey_sound (hs : s.Sound) (loads : Bool) (encodedKey passPhrase : Text) :
    (addSSHKey env loads encodedKey passPhrase s).1.Sound := by
  have hs' := makeSSHDialer_sound hs loads
  simp only [addSSHKey]
  split
  · exact hs'
  · exact hs'
  · exact hs'.setSSHDialer fun _ => rfl

theorem handle_sound (hs : s.Sound) (c : Call) : (s.handle env c).1.Sound := by
  unfold State.handle
  split
  · split <;> exact ⟨hs.named, hs.allocated⟩
  · exact addDialer_sound hs c.loads _
  · exact addSSHKey_sound hs c.loads _ _

theorem after_sound (calls : List Call) : (after env calls).Sound := by
  induction calls using List.reverseRecOn with
  | nil => exact ⟨fun _ _ h => (by cases h), fun _ _ h => (by cases h)⟩
  | append_singleton calls c ih =>
    rw [after, List.foldl_concat]
    exact handle_sound ih c

/-! The requests for dialers and keys leave the rules alone. -/

theorem makeSSHDialer_rules (s : State) (loads : Bool) :
    (s.makeSSHDialer loads).rules = s.rules := by
  unfold State.makeSSHDialer
  split
  · rfl
  · dsimp only
    split <;> rfl

theorem addDialer_rules (s : State) (loads : Bool) (dialerName uri : Text) :
    (addDialer env loads dialerName uri s).1.rules = s.rules := by
  simp only [addDialer]
  split
  · split <;> rfl
  · split <;> exact makeSSHDialer_rules s loads

theorem addSSHKey_rules (s : State) (loads : Bool) (encodedKey passPhrase : Text) :
    (addSSHKey env loads encodedKey passPhrase s).1.rules = s.rules := by
  simp only [addSSHKey]
  split <;> exact makeSSHDialer_rules s loads

theorem registered_names (hs : s.Sound) {name : Text} (h : s.Registered name) :
    name = default ∨ name = ssh := by
  obtain ⟨info, hinfo, -⟩ := h
  exact hs.named name info hinfo

theorem via_matching (network addr : Text) :
    s.via env network addr =
      match s.matching env network addr with
      | none => .netDial
      | some r =>
        match s.dialers r.dialer with
        | some info => .impl info.impl
        | none => .nobody := by
  simp only [State.via, State.matching, RuleSet.dial]
  cases env.resolveTCPAddr network addr with
  | none => rfl
  | some ip =>
    simp only [Option.bind_some]
    cases s.rules.firstRule ip <;> rfl

theorem dial_answered_iff (henv : env.Answers) (hs : s.Sound) (network addr : Text) :
    (s.dial env network addr).Answered ↔
      ∀ r, s.matching env network addr = some r → s.Registered r.dialer := by
  have hnot : ¬(DialResult.returned none none : DialResult Conn).Answered := by
    rintro ⟨conn, err, he, hsome⟩
    cases he
    simp at hsome
  have hpanic : ¬(DialResult.panicked : DialResult Conn).Answered := by
    rintro ⟨conn, err, he, -⟩
    cases he
  unfold State.dial
  rw [via_matching]
  cases hm : s.matching env network addr with
  | none => simp [henv.netDial]
  | some r =>
    simp only [Option.some.injEq, forall_eq']
    cases hd : s.dialers r.dialer with
    | none => simp [hnot, State.Registered, hd]
    | some info =>
      have hreg : s.Registered r.dialer ↔ info.impl ≠ .ssh false := by
        simp [State.Registered, hd]
      rw [hreg]
      dsimp only
      cases hi : info.impl with
      | socks5 a => simp [henv.socks5Dial]
      | ssh allocated =>
        cases allocated with
        | false => simp [hpanic]
        | true =>
          obtain ⟨d, hd'⟩ := Option.isSome_iff_exists.mp (hs.allocated _ _ hd hi)
          simp [hd', henv.sshDial]

end Tables

/-- After every sequence of requests `RuleSet.Dial` answers for an address, and
dials directly where a rule says so, exactly when the first rule for it, if there
is one, names a registered dialer; `direct` never is one. -/
theorem dial_proper_iff {Conn : Type} (env : Env Conn) (henv : env.Answers) (calls : List Call)
    (network addr : Text) :
    (Proper env (after env calls) network addr ↔
      ∀ r, (after env calls).matching env network addr = some r →
        (after env calls).Registered r.dialer) ∧
    ∀ name, (after env calls).Registered name → name = default ∨ name = ssh := by
  have hs : (after env calls).Sound := after_sound calls
  refine ⟨⟨fun h => (dial_answered_iff henv hs network addr).mp h.1, fun h => ?_⟩,
    fun name => registered_names hs⟩
  refine ⟨(dial_answered_iff henv hs network addr).mpr h, fun r hr hdirect => ?_⟩
  rcases registered_names hs (h r hr) with hn | hn <;> rw [hdirect] at hn <;>
    exact absurd hn (by decide)

section Example

def sampleEnv : Env Unit where
  resolveTCPAddr := fun _ addr => if addr = "10.1.2.3:443".toList then some [10, 1, 2, 3] else none
  netDial := fun _ _ => .returned (some ()) none
  sshDial := fun _ _ _ => .returned (some ()) none
  socks5Dial := fun _ _ _ => .returned (some ()) none
  newSocks5Dialer := fun _ => .ok ()
  parseURL := fun uri =>
    if uri = "ssh://u@h:22".toList then
      some ⟨"ssh".toList, "u".toList, "h:22".toList, "22".toList⟩
    else none
  parseEncryptedPrivateKey := fun _ _ => .error "ssh: no key found".toList

theorem sampleEnv_answers : sampleEnv.Answers :=
  ⟨fun _ _ => ⟨some (), none, rfl, by simp⟩, fun _ _ _ => ⟨some (), none, rfl, by simp⟩,
    fun _ _ _ => ⟨some (), none, rfl, by simp⟩⟩

/-- A rule for `direct` is accepted, and the dial gives neither a connection nor
an error. -/
theorem direct_rule_dials_nothing :
    ¬∀ (env : Env Unit) (calls : List Call) (network addr : Text), env.Answers →
      Succeed env calls → Proper env (after env calls) network addr := by
  intro hall
  have hok : Succeed sampleEnv [⟨.addRule ⟨"10.0.0.0/8".toList, direct⟩, true⟩] := by
    intro pre c post he
    cases pre with
    | nil =>
      cases he
      decide
    | cons c' pre => simp at he
  have hproper := hall sampleEnv _ "tcp".toList "10.1.2.3:443".toList sampleEnv_answers hok
  have hnothing : (after sampleEnv [⟨.addRule ⟨"10.0.0.0/8".toList, direct⟩, true⟩]).via sampleEnv
      "tcp".toList "10.1.2.3:443".toList = .nobody := by decide
  obtain ⟨⟨conn, err, he, hsome⟩, -⟩ := hproper
  rw [State.dial, hnothing] at he
  cases he
  simp at hsome

def tunnelled : List Call :=
  [⟨.addDialer "u@h:22".toList, true⟩, ⟨.addRule ⟨"10.0.0.0/8".toList, []⟩, true⟩]

theorem tunnelled_proper :
    Proper sampleEnv (after sampleEnv tunnelled) "tcp".toList "10.1.2.3:443".toList ∧
      (after sampleEnv tunnelled).via sampleEnv "tcp".toList "10.1.2.3:443".toList =
        .impl (.ssh true) := by
  refine ⟨(dial_proper_iff sampleEnv sampleEnv_answers tunnelled _ _).1.mpr fun r hr => ?_,
    by decide⟩
  have hrule : (after sampleEnv tunnelled).matching sampleEnv "tcp".toList
      "10.1.2.3:443".toList = some ⟨⟨[10, 0, 0, 0], [255, 0, 0, 0]⟩, "default".toList⟩ := by decide
  rw [hrule] at hr
  cases hr
  exact ⟨⟨default, ssh, "u@h:22".toList, .ssh true⟩, rfl, by decide⟩

end Example

end SshTunnel.Dialers
