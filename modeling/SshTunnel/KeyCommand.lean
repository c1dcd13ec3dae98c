import SshTunnel.Rest

/-!
# The add-ssh-key command (`commands/shhkey.go`)

The loop that asks for a passphrase until the key can be read with it, and the request
that follows. The command drops the error of the request, also where the daemon has no
`SSHDialer` to add the key to.
-/

namespace SshTunnel.KeyCommand

open Connector (PublicKey)
open Lib.Net (Text)
open Rest (ServerEnv ServerState clientCall server)

/-- The arguments, what reading the file gives, what the prompts return, and whether the
daemon can load the known hosts when the request comes. -/
structure Invocation where
  args : List Text
  readFile : Except Text Text
  prompts : List (Except Text Text)
  loads : Bool

inductive Outcome where
  | returned (err : Option Text)
  | exited (code : ℕ)
  | panicked (err : Text)
  /-- A prompt waits for an answer. -/
  | asking
  deriving DecidableEq

/-- The errors of a wrong or missing passphrase, told by their texts. -/
def asksAgain (err : Text) : Bool :=
  "bcrypt_pbkdf:".toList.isPrefixOf err || err = "sshkeys: Invalid Passphrase".toList ||
    err = "ssh: this private key is passphrase protected".toList

/-- The loop with `CheckSSHKey`; without a passphrase it is over with another outcome. -/
def unlock (checkSSHKey : Text → Option Text) (allowInteractive : Bool) (passPhrase : Text)
    (prompts : List (Except Text Text)) : Except Outcome Text :=
  match checkSSHKey passPhrase with
  | none => .ok passPhrase
  | some err =>
    if !asksAgain err then .error (.panicked err)
    else if !allowInteractive then .error (.exited 1)
    else
      match prompts with
      | [] => .error .asking
      | .error err :: _ => .error (.returned (some err))
      | .ok passPhrase :: prompts => unlock checkSSHKey allowInteractive passPhrase prompts

section Execute

variable {Conn : Type} (env : ServerEnv Conn)

def checkSSHKey (encodedKey passPhrase : Text) : Option Text :=
  match env.dialers.parseEncryptedPrivateKey encodedKey passPhrase with
  | .ok _ => none
  | .error err => some err

def execute (inv : Invocation) (s : ServerState) : ServerState × Outcome :=
  match inv.args with
  | [] => (s, .returned none)
  | _ :: args =>
    match inv.readFile with
    | .error err => (s, .panicked err)
    | .ok encodedKey =>
      let passPhrase := args.headD []
      match unlock (checkSSHKey env encodedKey) (passPhrase = []) passPhrase inv.prompts with
      | .error outcome => (s, outcome)
      | .ok passPhrase =>
        let env := { env with loads := inv.loads }
        ((clientCall (server env) (.addSSHKey encodedKey passPhrase) s).1, .returned none)

def after (invs : List Invocation) (s : ServerState) : ServerState :=
  invs.foldl (fun s inv => (execute env inv s).1) s

/-! ### The key that an invocation adds -/

/-- The passphrases that are typed before a prompt ends with an error. -/
def typed : List (Except Text Text) → List Text
  | .ok passPhrase :: prompts => passPhrase :: typed prompts
  | _ => []

/-- A passphrase of the command line is the only one. -/
def attempts (passPhrase : Text) (prompts : List (Except Text Text)) : List Text :=
  if passPhrase = [] then [] :: typed prompts else [passPhrase]

def turnedDown (encodedKey passPhrase : Text) : Bool :=
  (checkSSHKey env encodedKey passPhrase).any asksAgain

/-- The first passphrase that is not turned down reads the key, or it cannot be read. -/
def opened (encodedKey : Text) (passPhrases : List Text) : Option PublicKey :=
  (passPhrases.dropWhile (turnedDown env encodedKey)).head?.bind fun passPhrase =>
    (env.dialers.parseEncryptedPrivateKey encodedKey passPhrase).toOption

def Invocation.key (inv : Invocation) : Option PublicKey :=
  match inv.args with
  | [] => none
  | _ :: args =>
    inv.readFile.toOption.bind fun encodedKey =>
      opened env encodedKey (attempts (args.headD []) inv.prompts)

/-- The request of the run makes the `SSHDialer`, if the daemon has none. -/
def Invocation.makesDialer (inv : Invocation) : Bool := (inv.key env).isSome && inv.loads

/-- The keys that the daemon gets: none until it has an `SSHDialer`. -/
def added (has : Bool) (invs : List Invocation) : List PublicKey :=
  (if has then invs else invs.dropWhile fun inv => !inv.makesDialer env).filterMap (·.key env)

def hasDialer (s : ServerState) : Bool := s.dialers.sshDialer.isSome

def signers (s : ServerState) : List PublicKey :=
  match s.dialers.sshDialer with
  | some d => d.signers
  | none => []

end Execute

/-! ### The loop -/

section Loop

variable {Conn : Type} {env : ServerEnv Conn} {encodedKey passPhrase : Text}

theorem checkSSHKey_none {key : PublicKey}
    (h : env.dialers.parseEncryptedPrivateKey encodedKey passPhrase = .ok key) :
    checkSSHKey env encodedKey passPhrase = none := by
  rw [checkSSHKey, h]

theorem checkSSHKey_some {err : Text}
    (h : env.dialers.parseEncryptedPrivateKey encodedKey passPhrase = .error err) :
    checkSSHKey env encodedKey passPhrase = some err := by
  rw [checkSSHKey, h]

theorem opened_ok {key : PublicKey} (rest : List Text)
    (h : env.dialers.parseEncryptedPrivateKey encodedKey passPhrase = .ok key) :
    opened env encodedKey (passPhrase :: rest) = some key := by
  have hdown : turnedDown env encodedKey passPhrase = false := by
    rw [turnedDown, checkSSHKey_none h]
    rfl
  rw [opened, List.dropWhile_cons_of_neg (by simp [hdown]), List.head?_cons, Option.bind_some, h]
  rfl

theorem opened_error {err : Text} (rest : List Text)
    (h : env.dialers.parseEncryptedPrivateKey encodedKey passPhrase = .error err) :
    opened env encodedKey (passPhrase :: rest) =
      if asksAgain err then opened env encodedKey rest else none := by
  have hdown : turnedDown env encodedKey passPhrase = asksAgain err := by
    rw [turnedDown, checkSSHKey_some h]
    rfl
  cases hask : asksAgain err with
  | true =>
    rw [opened, List.dropWhile_cons_of_pos (hdown.trans hask)]
    rfl
  | false =>
    rw [opened, List.dropWhile_cons_of_neg (by simp [hdown, hask]), List.head?_cons,
      Option.bind_some, h]
    rfl

/-- The loop ended with a passphrase that reads the key, or no attempt reads it. -/
def Settles (env : ServerEnv Conn) (encodedKey : Text) (passPhrases : List Text) :
    Except Outcome Text → Prop
  | .ok p => ∃ key, env.dialers.parseEncryptedPrivateKey encodedKey p = .ok key ∧
      opened env encodedKey passPhrases = some key
  | .error _ => opened env encodedKey passPhrases = none

theorem unlock_turnedDown {err : Text} {allowInteractive : Bool}
    {prompts : List (Except Text Text)}
    (h : env.dialers.parseEncryptedPrivateKey encodedKey passPhrase = .error err)
    (hask : asksAgain err = true) :
    unlock (checkSSHKey env encodedKey) allowInteractive passPhrase prompts =
      if !allowInteractive then .error (.exited 1)
      else
        match prompts with
        | [] => .error .asking
        | .error err :: _ => .error (.returned (some err))
        | .ok passPhrase :: prompts =>
          unlock (checkSSHKey env encodedKey) allowInteractive passPhrase prompts := by
  rw [unlock.eq_def, checkSSHKey_some h]
  dsimp only
  rw [hask]
  rfl

/-- Only a passphrase that is turned down is asked for again. -/
theorem settles_of_turnedDown {allowInteractive : Bool} {prompts : List (Except Text Text)}
    {rest : List Text}
    (h : ∀ err, env.dialers.parseEncryptedPrivateKey encodedKey passPhrase = .error err →
      asksAgain err = true → Settles env encodedKey (passPhrase :: rest)
        (unlock (checkSSHKey env encodedKey) allowInteractive passPhrase prompts)) :
    Settles env encodedKey (passPhrase :: rest)
      (unlock (checkSSHKey env encodedKey) allowInteractive passPhrase prompts) := by
  cases hparse : env.dialers.parseEncryptedPrivateKey encodedKey passPhrase with
  | ok key =>
    rw [unlock.eq_def, checkSSHKey_none hparse]
    exact ⟨key, hparse, opened_ok rest hparse⟩
  | error err =>
    cases hask : asksAgain err with
    | true => exact h err hparse hask
    | false =>
      have hopened := opened_error rest hparse
      rw [hask, if_neg Bool.false_ne_true] at hopened
      rw [unlock.eq_def, checkSSHKey_some hparse]
      dsimp only
      rw [hask]
      exact hopened

theorem unlock_settles (env : ServerEnv Conn) (encodedKey passPhrase : Text)
    (allowInteractive : Bool) (prompts : List (Except Text Text)) :
    Settles env encodedKey (passPhrase :: if allowInteractive then typed prompts else [])
      (unlock (checkSSHKey env encodedKey) allowInteractive passPhrase prompts) := by
  induction prompts generalizing passPhrase with
  | nil =>
    apply settles_of_turnedDown
    intro err hparse hask
    have hopened := opened_error [] hparse
    rw [hask, if_pos rfl] at hopened
    rw [unlock_turnedDown hparse hask]
    cases allowInteractive with
    | false => exact hopened
    | true => exact hopened
  | cons answer prompts ih =>
    apply settles_of_turnedDown
    intro err hparse hask
    rw [unlock_turnedDown hparse hask]
    cases allowInteractive with
    | false =>
      have hopened := opened_error [] hparse
      rw [hask, if_pos rfl] at hopened
      exact hopened
    | true =>
      cases answer with
      | error err' =>
        have hopened := opened_error [] hparse
        rw [hask, if_pos rfl] at hopened
        exact hopened
      | ok next =>
        have hopened := opened_error (next :: typed prompts) hparse
        rw [hask, if_pos rfl] at hopened
        have hnext : Settles env encodedKey (next :: typed prompts)
            (unlock (checkSSHKey env encodedKey) true next prompts) := ih next
        change Settles env encodedKey (passPhrase :: next :: typed prompts)
          (unlock (checkSSHKey env encodedKey) true next prompts)
        unfold Settles at hnext ⊢
        rw [hopened]
        exact hnext

end Loop

/-! ### The keys of the daemon -/

section Daemon

variable {Conn : Type} (env : ServerEnv Conn) {s : ServerState} {inv : Invocation}

theorem clientCall_addSSHKey (encodedKey passPhrase : Text) (s : ServerState) :
    (clientCall (server env) (.addSSHKey encodedKey passPhrase) s).1 =
      { s with dialers := (Dialers.addSSHKey env.dialers env.loads encodedKey passPhrase
        s.dialers).1 } := by
  have hserver : (server env (.addSSHKey encodedKey passPhrase) s).1 = { s with
      dialers := (Dialers.addSSHKey env.dialers env.loads encodedKey passPhrase s.dialers).1 } :=
    rfl
  rw [clientCall, Rest.serveRequest_stub (server env) s (by simp), ← hserver]
  rcases server env (.addSSHKey encodedKey passPhrase) s with ⟨s', result⟩
  cases result with
  | returned v err => rfl
  | panicked => rfl

/-- `makeSSHDialer` makes one without keys, if it can and there is none. -/
theorem makeSSHDialer_signers (s : ServerState) (loads : Bool) :
    (s.dialers.makeSSHDialer loads).sshDialer.map (·.signers) =
      if hasDialer s || loads then some (signers s) else none := by
  unfold Dialers.State.makeSSHDialer hasDialer signers
  cases hd : s.dialers.sshDialer with
  | some d => simp [hd]
  | none =>
    rw [if_neg (by simp)]
    dsimp only
    cases loads <;> split <;> rfl

/-- What runs of the command have changed, whatever has become of the table of dialers. -/
structure Keys (s t : ServerState) (has : Bool) (keys : List PublicKey) : Prop where
  dialer : hasDialer t = has
  signers : signers t = signers s ++ keys
  rules : t.dialers.rules = s.dialers.rules
  proxies : t.proxies = s.proxies

theorem keys_refl (s : ServerState) : Keys s s (hasDialer s) [] :=
  ⟨rfl, (List.append_nil _).symm, rfl, rfl⟩

theorem keys_trans {t u : ServerState} {has has' : Bool} {keys more : List PublicKey}
    (h : Keys s t has keys) (h' : Keys t u has' more) : Keys s u has' (keys ++ more) where
  dialer := h'.dialer
  signers := by rw [h'.signers, h.signers, List.append_assoc]
  rules := h'.rules.trans h.rules
  proxies := h'.proxies.trans h.proxies

/-- The key of the request is added exactly if there is an `SSHDialer`, old or new. -/
theorem keys_request (s : ServerState) {encodedKey passPhrase : Text} {key : PublicKey}
    (hparse : env.dialers.parseEncryptedPrivateKey encodedKey passPhrase = .ok key) :
    Keys s (clientCall (server env) (.addSSHKey encodedKey passPhrase) s).1
      (hasDialer s || env.loads) (if hasDialer s || env.loads then [key] else []) := by
  have hmade := makeSSHDialer_signers s env.loads
  have hrules := Dialers.makeSSHDialer_rules s.dialers env.loads
  rw [clientCall_addSSHKey]
  cases hd : (s.dialers.makeSSHDialer env.loads).sshDialer with
  | some d =>
    have hadd : (Dialers.addSSHKey env.dialers env.loads encodedKey passPhrase s.dialers).1 =
        { s.dialers.makeSSHDialer env.loads with
          sshDialer := some { d with signers := d.signers ++ [key] } } := by
      simp only [Dialers.addSSHKey, hparse, hd]
    rw [hd, Option.map_some] at hmade
    obtain ⟨hhas, hsigners⟩ := Option.ite_none_right_eq_some.mp hmade.symm
    rw [hadd, hhas, if_pos rfl]
    exact ⟨rfl, congrArg (· ++ [key]) (Option.some.inj hsigners).symm, hrules, rfl⟩
  | none =>
    have hadd : (Dialers.addSSHKey env.dialers env.loads encodedKey passPhrase s.dialers).1 =
        s.dialers.makeSSHDialer env.loads := by
      simp only [Dialers.addSSHKey, hparse, hd]
    rw [hd, Option.map_none] at hmade
    have hhas : (hasDialer s || env.loads) = false := by
      cases hhas : hasDialer s || env.loads with
      | false => rfl
      | true =>
        rw [hhas, if_pos rfl] at hmade
        cases hmade
    have hnone : s.dialers.sshDialer = none := by
      have hno := (Bool.or_eq_false_iff.mp hhas).1
      rw [hasDialer] at hno
      simpa using hno
    have hsigners : signers s = [] := by rw [signers, hnone]
    rw [hadd, hhas, if_neg Bool.false_ne_true]
    refine ⟨?_, ?_, hrules, rfl⟩
    · rw [hasDialer, hd]
      rfl
    · rw [signers, hd, hsigners]
      rfl

theorem attempts_eq (passPhrase : Text) (prompts : List (Except Text Text)) :
    attempts passPhrase prompts =
      passPhrase :: if decide (passPhrase = []) then typed prompts else [] := by
  unfold attempts
  by_cases h : passPhrase = []
  · rw [if_pos h, if_pos (decide_eq_true h), h]
  · rw [if_neg h, if_neg (by simp [h])]

theorem keys_execute (s : ServerState) (inv : Invocation) :
    Keys s (execute env inv s).1 (hasDialer s || inv.makesDialer env)
      (if hasDialer s || inv.loads then (inv.key env).toList else []) := by
  have hnone : inv.key env = none → Keys s s (hasDialer s || inv.makesDialer env)
      (if hasDialer s || inv.loads then (inv.key env).toList else []) := by
    intro hkey
    rw [Invocation.makesDialer, hkey, Option.isSome_none, Bool.false_and, Bool.or_false,
      Option.toList_none, ite_self]
    exact keys_refl s
  unfold execute
  cases hargs : inv.args with
  | nil => exact hnone (by rw [Invocation.key, hargs])
  | cons fileName args =>
    cases hread : inv.readFile with
    | error err => exact hnone (by simp [Invocation.key, hargs, hread, Except.toOption])
    | ok encodedKey =>
      have hkey : inv.key env =
          opened env encodedKey (attempts (args.headD []) inv.prompts) := by
        simp [Invocation.key, hargs, hread, Except.toOption]
      have hsettle := unlock_settles env encodedKey (args.headD []) (decide (args.headD [] = []))
        inv.prompts
      rw [← attempts_eq, Settles.eq_def, ← hkey] at hsettle
      dsimp only
      split
      · rename_i outcome heq
        rw [heq] at hsettle
        exact hnone hsettle
      · rename_i passPhrase heq
        rw [heq] at hsettle
        obtain ⟨key, hparse, hsome⟩ := hsettle
        rw [Invocation.makesDialer, hsome]
        exact keys_request { env with loads := inv.loads } s hparse

theorem added_cons (has : Bool) (inv : Invocation) (invs : List Invocation) :
    added env has (inv :: invs) =
      (if has || inv.loads then (inv.key env).toList else []) ++
        added env (has || inv.makesDialer env) invs := by
  have hcons : ∀ invs, (inv :: invs).filterMap (·.key env) =
      (inv.key env).toList ++ invs.filterMap (·.key env) := by
    intro invs
    rw [List.filterMap_cons]
    cases inv.key env <;> rfl
  cases has with
  | true => exact hcons invs
  | false =>
    unfold added
    cases hmakes : inv.makesDialer env with
    | true =>
      have hloads := (Bool.and_eq_true_iff.mp hmakes).2
      simp [hmakes, hloads, hcons]
    | false =>
      have hnothing : inv.loads = true → inv.key env = none := by
        intro hloads
        rw [Invocation.makesDialer, hloads, Bool.and_true] at hmakes
        rwa [Option.isSome_eq_false_iff, Option.isNone_iff_eq_none] at hmakes
      simpa [hmakes] using hnothing

theorem keys_after (s : ServerState) (invs : List Invocation) :
    Keys s (after env invs s) (hasDialer s || invs.any fun inv => inv.makesDialer env)
      (added env (hasDialer s) invs) := by
  induction invs generalizing s with
  | nil =>
    have hnil : added env (hasDialer s) [] = [] := by
      unfold added
      split <;> rfl
    rw [hnil, List.any_nil, Bool.or_false]
    exact keys_refl s
  | cons inv invs ih =>
    have hstep := keys_execute env s inv
    have hrest := ih (execute env inv s).1
    rw [hstep.dialer] at hrest
    rw [added_cons, List.any_cons, ← Bool.or_assoc]
    exact keys_trans hstep hrest

/-- `ListKeys` on the server itself. -/
theorem listKeys_eq (t : ServerState) :
    (server env .listKeys t).2 =
      if hasDialer t || env.loads then
        .returned ((signers t).map fun key => ⟨env.keyType key, env.encodeKey key, [], []⟩) none
      else .panicked := by
  have hmade := makeSSHDialer_signers t env.loads
  change (ServerState.listKeys env t).2 = _
  rw [ServerState.listKeys]
  cases hd : (t.dialers.makeSSHDialer env.loads).sshDialer with
  | some d =>
    rw [hd, Option.map_some] at hmade
    obtain ⟨hhas, hsigners⟩ := Option.ite_none_right_eq_some.mp hmade.symm
    rw [if_pos hhas, Option.some.inj hsigners]
  | none =>
    rw [hd, Option.map_none] at hmade
    rw [if_neg fun hhas => by rw [if_pos hhas] at hmade; cases hmade]

theorem unlock_ne_returned (checkSSHKey : Text → Option Text) (allowInteractive : Bool)
    (passPhrase : Text) (prompts : List (Except Text Text)) :
    unlock checkSSHKey allowInteractive passPhrase prompts ≠ .error (.returned none) := by
  induction prompts generalizing passPhrase with
  | nil =>
    unfold unlock
    split
    · simp
    · split
      · simp
      · split <;> simp
  | cons answer prompts ih =>
    unfold unlock
    split
    · simp
    · split
      · simp
      · split
        · simp
        · cases answer with
          | error err => simp
          | ok next => exact ih next

theorem returned_iff (inv : Invocation) (s : ServerState) :
    (execute env inv s).2 = .returned none ↔ inv.args = [] ∨ (inv.key env).isSome = true := by
  unfold execute Invocation.key
  cases inv.args with
  | nil => exact iff_of_true rfl (.inl rfl)
  | cons fileName args =>
    cases inv.readFile with
    | error err => simp [Except.toOption]
    | ok encodedKey =>
      have hsettle := unlock_settles env encodedKey (args.headD []) (decide (args.headD [] = []))
        inv.prompts
      have hne := unlock_ne_returned (checkSSHKey env encodedKey)
        (decide (args.headD [] = [])) (args.headD []) inv.prompts
      rw [← attempts_eq] at hsettle
      dsimp only [Except.toOption, Option.bind_some]
      split
      · rename_i outcome heq
        rw [heq] at hsettle hne
        rw [show opened env encodedKey (attempts (args.headD []) inv.prompts) = none from hsettle]
        refine iff_of_false (fun he => hne (congrArg Except.error he)) ?_
        simp
      · rename_i passPhrase heq
        rw [heq] at hsettle
        obtain ⟨key, -, hopened⟩ := hsettle
        rw [hopened]
        exact iff_of_true rfl (.inr rfl)

end Daemon

/-- After any runs of the command the daemon has its keys and, in order, the key of every
run in which the first passphrase that is not turned down reads it, from the first such
run on that finds or makes an `SSHDialer`; it lists them, or panics where it still has
none. A run has no error exactly if it has such a key, or no arguments. -/
theorem added_keys_listed {Conn : Type} (env : ServerEnv Conn) (invs : List Invocation)
    (s : ServerState) :
    (server env .listKeys (after env invs s)).2 =
        (if (hasDialer s || invs.any fun inv => inv.makesDialer env) || env.loads then
          .returned ((signers s ++ added env (hasDialer s) invs).map fun key =>
            ⟨env.keyType key, env.encodeKey key, [], []⟩) none
        else .panicked) ∧
      (after env invs s).dialers.rules = s.dialers.rules ∧
      (after env invs s).proxies = s.proxies ∧
      ∀ inv t, (execute env inv t).2 = .returned none ↔
        inv.args = [] ∨ (inv.key env).isSome = true := by
  have hkeys := keys_after env s invs
  refine ⟨?_, hkeys.rules, hkeys.proxies, returned_iff env⟩
  rw [listKeys_eq, hkeys.dialer, hkeys.signers]

section Example

def protectedText : Text := "ssh: this private key is passphrase protected".toList

/-- A key that opens with one passphrase. -/
def lockedEnv : ServerEnv Unit :=
  { Rest.sampleEnv with
    dialers := { Dialers.sampleEnv with
      parseEncryptedPrivateKey := fun _ passPhrase =>
        if passPhrase = "sesame".toList then .ok [7] else .error protectedText } }

def twoPrompts (loads : Bool) : Invocation :=
  ⟨["id_rsa".toList], .ok "PRIVATE KEY".toList, [.ok "open".toList, .ok "sesame".toList], loads⟩

/-- A key is lost as long as the known hosts cannot be loaded, and no error says so. -/
example : added lockedEnv false [twoPrompts false, twoPrompts true] = [[7]] ∧
    (execute lockedEnv (twoPrompts false) Rest.sampleState).2 = .returned none := by
  decide +kernel

end Example

end SshTunnel.KeyCommand
