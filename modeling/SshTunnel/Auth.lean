import SshTunnel.Dialers

/-!
# The authentication methods of an attempt (`dialer/sshdialer.go:104-115`, `406-432`)

`AddSSHKey` makes one entry of `config.Auth` for each key; `connect` appends the
password callback and, where there is an agent, its keys. Of the entries with one
method name the ssh library uses only the first, and tries all its signers.
-/

namespace SshTunnel.Auth

open Lib.Net (Text)
open Connector (PublicKey)
open Dialers (Env)

inductive Method where
  | publickey
  | password
  deriving DecidableEq

/-- `ssh.PublicKeys`, `ssh.PasswordCallback` and `ssh.PublicKeysCallback`, the last
with what the callback returns. -/
inductive AuthMethod where
  | publicKeys (signers : List PublicKey)
  | passwordCallback
  | publicKeysCallback (signers : Except Text (List PublicKey))

def AuthMethod.method : AuthMethod → Method
  | .publicKeys _ | .publicKeysCallback _ => .publickey
  | .passwordCallback => .password

def AuthMethod.signers : AuthMethod → List PublicKey
  | .publicKeys signers => signers
  | .publicKeysCallback (.ok signers) => signers
  | .publicKeysCallback (.error _) | .passwordCallback => []

/-- The fields of `SSHDialer` that `AddSSHKey` writes; `auth` is `config.Auth`. -/
structure Keys where
  signers : List PublicKey
  auth : List AuthMethod

/-- The environment variable `SSH_AUTH_SOCK`, and what dialling it gives: an agent
with the result of its `Signers`. -/
structure Agent where
  socket : Text
  dial : Text → Except Text (Except Text (List PublicKey))

structure Call where
  encodedKey : Text
  passPhrase : Text

structure Server where
  methods : List Method
  accepts : PublicKey → Bool

section Setup

variable {Conn : Type} (env : Env Conn)

def addSSHKey (k : Keys) (c : Call) : Keys × Option Text :=
  match env.parseEncryptedPrivateKey c.encodedKey c.passPhrase with
  | .error err => (k, some err)
  | .ok signer => (⟨k.signers ++ [signer], k.auth ++ [.publicKeys [signer]]⟩, none)

def addSSHKeys (calls : List Call) : Keys :=
  calls.foldl (fun k c => (addSSHKey env k c).1) ⟨[], []⟩

def addedKeys (calls : List Call) : List PublicKey :=
  calls.filterMap fun c => (env.parseEncryptedPrivateKey c.encodedKey c.passPhrase).toOption

end Setup

def connectAuth (agent : Agent) (k : Keys) : List AuthMethod :=
  let auth := k.auth ++ [.passwordCallback]
  if 0 < agent.socket.length then
    match agent.dial agent.socket with
    | .ok signers => auth ++ [.publicKeysCallback signers]
    | .error _ => auth
  else auth

/-- The keys that the ssh client may try: those of the first entry for public keys. -/
def triedKeys (auth : List AuthMethod) : List PublicKey :=
  ((auth.find? fun a => a.method = .publickey).map AuthMethod.signers).getD []

def Server.offered (server : Server) (auth : List AuthMethod) : List PublicKey :=
  if .publickey ∈ server.methods then triedKeys auth else []

/-- Every added key may be tried, and a server that allows public keys and accepts
an added key is offered one that it accepts. -/
structure Offers {Conn : Type} (env : Env Conn) (agent : Agent) (calls : List Call) : Prop where
  tried : ∀ key ∈ addedKeys env calls, key ∈ triedKeys (connectAuth agent (addSSHKeys env calls))
  accepted : ∀ server : Server, .publickey ∈ server.methods →
    (∃ key ∈ addedKeys env calls, server.accepts key = true) →
      ∃ key ∈ server.offered (connectAuth agent (addSSHKeys env calls)), server.accepts key = true

section Keys

variable {Conn : Type} {env : Env Conn}

/-- The entries of `config.Auth` are one for each added key, in order. -/
theorem addSSHKeys_eq (calls : List Call) :
    addSSHKeys env calls =
      ⟨addedKeys env calls, (addedKeys env calls).map fun key => .publicKeys [key]⟩ := by
  induction calls using List.reverseRecOn with
  | nil => rfl
  | append_singleton calls c ih =>
    have hstep : addSSHKeys env (calls ++ [c]) = (addSSHKey env (addSSHKeys env calls) c).1 := by
      rw [addSSHKeys, List.foldl_concat]
      rfl
    have hadded : addedKeys env (calls ++ [c]) = addedKeys env calls ++
        (env.parseEncryptedPrivateKey c.encodedKey c.passPhrase).toOption.toList := by
      rw [addedKeys, List.filterMap_append, List.filterMap_cons, List.filterMap_nil]
      cases (env.parseEncryptedPrivateKey c.encodedKey c.passPhrase).toOption <;> rfl
    rw [hstep, ih, hadded, addSSHKey]
    cases env.parseEncryptedPrivateKey c.encodedKey c.passPhrase with
    | error err => simp [Except.toOption]
    | ok signer => simp [Except.toOption]

theorem connectAuth_append (agent : Agent) (k : Keys) :
    ∃ rest, connectAuth agent k = k.auth ++ rest := by
  unfold connectAuth
  dsimp only
  split
  · split
    · exact ⟨_, List.append_assoc ..⟩
    · exact ⟨_, rfl⟩
  · exact ⟨_, rfl⟩

/-- The first key hides the others, and the agent too. -/
theorem triedKeys_first {agent : Agent} {calls : List Call} {key : PublicKey}
    {keys : List PublicKey} (h : addedKeys env calls = key :: keys) :
    triedKeys (connectAuth agent (addSSHKeys env calls)) = [key] := by
  obtain ⟨rest, hrest⟩ := connectAuth_append agent (addSSHKeys env calls)
  rw [hrest, addSSHKeys_eq, h]
  rfl

end Keys

/-- The set-up offers every added key exactly when all the added keys are one key. -/
theorem offers_iff {Conn : Type} (env : Env Conn) (agent : Agent) (calls : List Call) :
    Offers env agent calls ↔
      ∀ key ∈ addedKeys env calls, ∀ key' ∈ addedKeys env calls, key = key' := by
  cases hadded : addedKeys env calls with
  | nil =>
    refine iff_of_true ⟨?_, ?_⟩ (by simp)
    · simp [hadded]
    · simp [hadded]
  | cons first keys =>
    have htried : triedKeys (connectAuth agent (addSSHKeys env calls)) = [first] :=
      triedKeys_first hadded
    constructor
    · intro h key hkey key' hkey'
      have hfirst : ∀ k ∈ addedKeys env calls, k = first := fun k hk =>
        List.mem_singleton.mp (htried ▸ h.tried k hk)
      rw [hadded] at hfirst
      rw [hfirst key hkey, hfirst key' hkey']
    · intro h
      have hfirst : ∀ k ∈ addedKeys env calls, k ∈ [first] := by
        intro k hk
        rw [hadded] at hk
        exact List.mem_singleton.mpr (h k hk first List.mem_cons_self)
      refine ⟨fun k hk => htried ▸ hfirst k hk, ?_⟩
      rintro server hmethod ⟨key, hkey, haccepts⟩
      refine ⟨key, ?_, haccepts⟩
      rw [Server.offered, if_pos hmethod, htried]
      exact hfirst key hkey

section Example

def twoKeysEnv : Env Unit :=
  { Dialers.sampleEnv with
    parseEncryptedPrivateKey := fun encodedKey _ =>
      .ok (encodedKey.map fun c => .ofNat 256 c.toNat) }

def sampleAgent : Agent := ⟨"/tmp/agent".toList, fun _ => .ok (.ok [[9]])⟩

theorem second_key_not_tried :
    ¬∀ (env : Env Unit) (agent : Agent) (calls : List Call), Offers env agent calls := by
  intro hall
  have htried := (hall twoKeysEnv sampleAgent [⟨"a".toList, []⟩, ⟨"b".toList, []⟩]).tried
    [98] (by decide)
  revert htried
  decide

end Example

end SshTunnel.Auth
