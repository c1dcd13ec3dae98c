import SshTunnel.Connector.Failover
import SshTunnel.Registry

/-!
# The user presented to an address (`dialer/sshdialer.go:131-159`, `319-320`, `439-472`)

`AddDialer` keeps the first non-empty user as the default. The failover loop
writes the user of an address into its copy of the configuration and never puts
the default back, so an address without a user gets the last user before it.
-/

namespace SshTunnel.Connector

open Lib.Net (Text)
open Lib.Runs
open Dialers (SSHDialer addAddresses)

/-- `config.User` after `AddDialer` for each of the addresses. -/
def configUser (addresses : List SSHAddress) : Text :=
  addresses.foldl (fun user a => if user = [] then a.user else user) []

def SSHAddress.ownUser (a : SSHAddress) (default : Text) : Text :=
  if a.user = [] then default else a.user

/-- `cfg.User` of the loop after these addresses. -/
def carriedUser (user : Text) (addresses : List SSHAddress) : Text :=
  addresses.foldl (fun user a => if a.user = [] then user else a.user) user

/-- `connect` authenticates with the user of the address or else the default. -/
def State.PresentsOwn (env : Env) (s : State) : Prop :=
  ∀ i user a, s.connect = .newClientConn i user → env.addresses[i]? = some a →
    user = a.ownUser env.user

def KeepsUsers (d : SSHDialer) : Prop :=
  ∀ env : Env, env.addresses = d.addresses → env.user = d.user →
    ∀ interactive s, Reach (step env) (init env interactive) s → s.PresentsOwn env

/-- The user of an address is the default if the next address has none. -/
def Inherits (addresses : List SSHAddress) : Prop :=
  ∀ pre a b post, addresses = pre ++ a :: b :: post → a.user ≠ [] → b.user = [] →
    a.user = configUser addresses

section Users

variable {addresses : List SSHAddress} {user : Text}

theorem carriedUser_concat (a : SSHAddress) :
    carriedUser user (addresses ++ [a]) = a.ownUser (carriedUser user addresses) := by
  rw [carriedUser, List.foldl_concat]
  rfl

theorem configUser_concat (a : SSHAddress) :
    configUser (addresses ++ [a]) =
      if configUser addresses = [] then a.user else configUser addresses := by
  rw [configUser, List.foldl_concat]
  rfl

/-- Where the users before an address are the default, the loop has the right one. -/
theorem carriedUser_own (h : Inherits addresses) {pre post : List SSHAddress} {a : SSHAddress}
    (he : addresses = pre ++ a :: post) :
    carriedUser (configUser addresses) (pre ++ [a]) = a.ownUser (configUser addresses) := by
  induction pre using List.reverseRecOn generalizing a post with
  | nil => rfl
  | append_singleton pre b ih =>
    have he' : addresses = pre ++ b :: a :: post := by simp [he]
    rw [carriedUser_concat, ih he']
    by_cases ha : a.user = []
    · by_cases hb : b.user = []
      · simp [SSHAddress.ownUser, ha, hb]
      · simp [SSHAddress.ownUser, ha, h pre b a post he' hb ha]
    · simp [SSHAddress.ownUser, ha]

end Users

/-! ### The configuration -/

section Configuration

variable {Conn : Type} {denv : Dialers.Env Conn}

theorem addAddresses_user {d d' : SSHDialer} {uris : List Text}
    (hd : d.user = configUser d.addresses) (h : addAddresses denv (some d) uris = some (some d')) :
    d'.user = configUser d'.addresses := by
  induction uris generalizing d with
  | nil =>
    cases h
    exact hd
  | cons uri uris ih =>
    cases hs : Dialers.sshAddress denv uri with
    | error err =>
      simp only [addAddresses, hs] at h
      exact ih hd h
    | ok a =>
      simp only [addAddresses, hs] at h
      refine ih ?_ h
      rw [configUser_concat, ← hd]

def UserConfigured (s : Dialers.State) : Prop :=
  ∀ d, s.sshDialer = some d → d.user = configUser d.addresses

theorem makeSSHDialer_user {s : Dialers.State} (loads : Bool) (hs : UserConfigured s) :
    UserConfigured (s.makeSSHDialer loads) := by
  intro d hd
  unfold Dialers.State.makeSSHDialer at hd
  split at hd
  · exact hs d hd
  · have hnew : (if loads then some (⟨[], [], []⟩ : SSHDialer) else none) = some d := by
      dsimp only at hd
      split at hd <;> exact hd
    split at hnew
    · cases hnew
      rfl
    · cases hnew

theorem handle_user {s : Dialers.State} {c : Registry.Call} (hs : UserConfigured s) :
    UserConfigured (Registry.handle denv s c).1 := by
  have hmade := makeSSHDialer_user c.loads hs
  rcases c with ⟨op, loads⟩
  cases op with
  | getSSHKeys => exact hmade
  | getConnector => exact hmade
  | addSSHKey encodedKey passPhrase =>
    simp only [Registry.handle, Dialers.addSSHKey]
    split
    · exact hmade
    · exact hmade
    · rename_i d _ hd
      intro d' hd'
      cases hd'
      exact hmade d hd
  | addDialer dialerName uri =>
    simp only [Registry.handle, Dialers.addDialer]
    split
    · split
      · exact hs
      · exact hs
    · split
      · exact hmade
      · rename_i d hd
        intro d' hd'
        obtain rfl : d = some d' := hd'
        have hsome := Dialers.addAddresses_isSome hd
        rw [Option.isSome_some, eq_comm, Option.isSome_iff_exists] at hsome
        obtain ⟨d₀, hd₀⟩ := hsome
        rw [hd₀] at hd
        exact addAddresses_user (hmade d₀ hd₀) hd

theorem after_user (calls : List Registry.Call) : UserConfigured (Registry.after denv calls) := by
  induction calls using List.reverseRecOn with
  | nil => exact fun _ h => by cases h
  | append_singleton calls c ih =>
    rw [Registry.after_concat]
    exact handle_user ih

end Configuration

/-! ### The loop -/

section Loop

variable {env : Env} {s u : State} {a : Action}

def UserOk (env : Env) : ConnectPc → Prop
  | .loop i user => user = carriedUser env.user (env.addresses.take i)
  | .setConnecting i user | .dialTimeout i user | .setHandshake i user | .newClientConn i user
  | .printDialFailed i user _ | .printHandshakeFailed i user _ =>
    user = carriedUser env.user (env.addresses.take (i + 1))
  | _ => True

theorem connectStep_user {calm : Bool} {sh sh' : Shared} {pc pc' : ConnectPc}
    (hs : UserOk env pc) (h : connectStep env calm sh pc = some (sh', pc')) : UserOk env pc' := by
  cases pc with
  | loop i user =>
    simp only [connectStep] at h
    split at h
    · cases h
      trivial
    · rename_i addr hsome
      obtain ⟨_, -, he⟩ := Option.map_eq_some_iff.mp h
      cases he
      have htake : env.addresses.take (i + 1) = env.addresses.take i ++ [addr] := by
        rw [List.take_add_one, hsome, Option.toList_some]
      simp only [UserOk, htake, carriedUser_concat]
      rw [← (show user = _ from hs)]
      rfl
  | dialTimeout i user =>
    simp only [connectStep] at h
    split at h <;> cases h <;> exact hs
  | newClientConn i user =>
    simp only [connectStep] at h
    split at h
    · split at h <;> cases h
      · exact hs
      · trivial
    · cases h
  | printDialFailed i | printHandshakeFailed i =>
    obtain ⟨_, -, he⟩ := Option.map_eq_some_iff.mp h
    cases he
    exact hs
  | printHandshakeSucceeded i | deferNotify =>
    obtain ⟨_, -, he⟩ := Option.map_eq_some_iff.mp h
    cases he
    trivial
  | deferTest =>
    cases h
    split <;> trivial
  | setConnecting | setHandshake =>
    cases h
    exact hs
  | setClient | setSucceeded | clearErr | deferFail | deferClear =>
    cases h
    trivial
  | done => cases h

theorem reach_user {interactive : Bool} (h : Reach (step env) (init env interactive) s) :
    UserOk env s.connect := by
  have h0 : UserOk env (init env interactive).connect := rfl
  refine h.invariant (P := fun s => UserOk env s.connect) h0 fun t a u ht _ hstep => ?_
  by_cases ha : a = .connect
  · subst ha
    obtain ⟨-, sh, pc, hc, rfl⟩ := step_connect hstep
    exact connectStep_user ht hc
  · rw [(step_attempt_frame hstep ha).1]
    exact ht

theorem undisturbed_next (env : Env) (hu : s.Undisturbed) (pc : ConnectPc) (hpc : s.connect ≠ .done)
    (hnext : ∀ sh sh' pc', connectStep env true sh s.connect = some (sh', pc') → pc' = pc) :
    ∃ m, Reach (step env) s m ∧ m.Undisturbed ∧ m.connect = pc := by
  obtain ⟨sh, pc', m, hc, hp, hm, rfl, -⟩ := undisturbed_step env hu hpc
  exact ⟨m, hp.mono fun _ _ _ => trivial, hm, hnext _ _ _ hc⟩

theorem undisturbed_dial (env : Env) {i : ℕ} {user : Text} (hu : s.Undisturbed)
    (hi : i < env.addresses.length) (hpc : s.connect = .loop i user) :
    ∃ m user', Reach (step env) s m ∧ m.Undisturbed ∧ m.connect = .dialTimeout i user' := by
  obtain ⟨addr, haddr⟩ : ∃ addr, env.addresses[i]? = some addr :=
    ⟨_, List.getElem?_eq_getElem hi⟩
  obtain ⟨m, hm, hmu, hmc⟩ := undisturbed_next env hu
    (.setConnecting i (if addr.user = [] then user else addr.user)) (by simp [hpc])
    fun sh sh' pc' h => by
      simp only [hpc, connectStep, haddr] at h
      obtain ⟨_, -, he⟩ := Option.map_eq_some_iff.mp h
      cases he
      rfl
  obtain ⟨m', hm', hmu', hmc'⟩ := undisturbed_next env hmu
    (.dialTimeout i (if addr.user = [] then user else addr.user)) (by simp [hmc])
    fun sh sh' pc' h => by
      rw [hmc] at h
      cases h
      rfl
  exact ⟨m', _, hm.trans hm', hmu', hmc'⟩

/-- When the dials of the addresses before it fail, `connect` comes to the `i`-th. -/
theorem reach_loop (env : Env) (interactive : Bool) {i : ℕ} (hi : i ≤ env.addresses.length)
    (hfail : ∀ j < i, ∃ err, env.dialTimeout j = some err) :
    ∃ m user, Reach (step env) (init env interactive) m ∧ m.Undisturbed ∧
      m.connect = .loop i user := by
  induction i with
  | zero => exact ⟨_, env.user, .refl, ⟨rfl, rfl, rfl, rfl, fun h => by cases h⟩, rfl⟩
  | succ i ih =>
    obtain ⟨m, user, hm, hmu, hmc⟩ := ih (by omega) fun j hj => hfail j (by omega)
    obtain ⟨m', user', hm', hmu', hmc'⟩ := undisturbed_dial env hmu (by omega) hmc
    obtain ⟨err, herr⟩ := hfail i (by omega)
    obtain ⟨n, hn, hnu, hnc⟩ := undisturbed_next env hmu'
      (.printDialFailed i user' err) (by simp [hmc']) fun sh sh' pc' h => by
        simp only [hmc', connectStep, herr] at h
        cases h
        rfl
    obtain ⟨n', hn', hnu', hnc'⟩ := undisturbed_next env hnu
      (.loop (i + 1) user') (by simp [hnc]) fun sh sh' pc' h => by
        simp only [hnc, connectStep] at h
        obtain ⟨_, -, he⟩ := Option.map_eq_some_iff.mp h
        cases he
        rfl
    exact ⟨n', user', ((hm.trans hm').trans hn).trans hn', hnu', hnc'⟩

theorem reach_newClientConn (env : Env) (interactive : Bool) {i : ℕ} (hi : i < env.addresses.length)
    (hfail : ∀ j < i, ∃ err, env.dialTimeout j = some err) (hdial : env.dialTimeout i = none) :
    ∃ m user, Reach (step env) (init env interactive) m ∧ m.connect = .newClientConn i user := by
  obtain ⟨m, user, hm, hmu, hmc⟩ := reach_loop env interactive hi.le hfail
  obtain ⟨m', user', hm', hmu', hmc'⟩ := undisturbed_dial env hmu hi hmc
  obtain ⟨n, hn, hnu, hnc⟩ := undisturbed_next env hmu'
    (.setHandshake i user') (by simp [hmc']) fun sh sh' pc' h => by
      simp only [hmc', connectStep, hdial] at h
      cases h
      rfl
  obtain ⟨n', hn', hnu', hnc'⟩ := undisturbed_next env hnu
    (.newClientConn i user') (by simp [hnc]) fun sh sh' pc' h => by
      rw [hnc] at h
      cases h
      rfl
  exact ⟨n', user', ((hm.trans hm').trans hn).trans hn', hnc'⟩

end Loop

def failingBefore (d : SSHDialer) (i : ℕ) : Env where
  addresses := d.addresses
  user := d.user
  dialTimeout := fun j => if j < i then some "i/o timeout".toList else none
  newClientConn := fun _ => none
  hostKeyCallback := fun _ _ => .ok
  fingerprintSHA256 := fun _ => []

section Attempts

variable {d : SSHDialer}

theorem KeepsUsers.inherits (huser : d.user = configUser d.addresses) (hkeeps : KeepsUsers d) :
    Inherits d.addresses := by
  intro pre a b post he ha hb
  have hlen : pre.length + 1 < d.addresses.length := by
    rw [he]
    simp
  obtain ⟨s, user, hs, hsc⟩ := reach_newClientConn (failingBefore d (pre.length + 1)) false
    hlen (fun j hj => ⟨_, if_pos hj⟩) (if_neg (by omega))
  have hown := hkeeps (failingBefore d (pre.length + 1)) rfl rfl false s hs _ user b hsc
    (by simp only [failingBefore, he, List.getElem?_append_right (Nat.le_succ _)]; simp)
  have hcarried : user = carriedUser d.user (d.addresses.take (pre.length + 1 + 1)) := by
    have hok := reach_user hs
    rw [hsc] at hok
    exact hok
  have htake : d.addresses.take (pre.length + 1 + 1) = pre ++ [a] ++ [b] := by
    rw [he, List.append_assoc, Nat.add_assoc, List.take_length_add_append]
    rfl
  rw [htake, carriedUser_concat, carriedUser_concat] at hcarried
  rw [hcarried] at hown
  simp only [SSHAddress.ownUser, hb, if_true, if_neg ha] at hown
  rw [hown, ← huser]
  rfl

theorem Inherits.keepsUsers (huser : d.user = configUser d.addresses)
    (hinherits : Inherits d.addresses) : KeepsUsers d := by
  intro env haddr henv interactive s hs i user a hpc hi
  have hcarried := reach_user hs
  rw [hpc] at hcarried
  have htake : env.addresses.take (i + 1) = env.addresses.take i ++ [a] := by
    rw [List.take_add_one, hi, Option.toList_some]
  obtain ⟨hlt, hget⟩ := List.getElem?_eq_some_iff.mp hi
  have hsplit : d.addresses = env.addresses.take i ++ a :: env.addresses.drop (i + 1) := by
    rw [← haddr, ← hget, ← List.drop_eq_getElem_cons hlt, List.take_append_drop]
  simp only [UserOk, htake] at hcarried
  rw [hcarried, henv, huser]
  exact carriedUser_own hinherits hsplit

end Attempts

/-- After every sequence of calls, the attempts present to each address its own
user or the default exactly when a user that is followed by an address without
one is the default. -/
theorem keepsUsers_iff {Conn : Type} (denv : Dialers.Env Conn) (calls : List Registry.Call)
    (d : SSHDialer) (hd : (Registry.after denv calls).sshDialer = some d) :
    KeepsUsers d ↔ Inherits d.addresses := by
  have huser : d.user = configUser d.addresses := after_user calls d hd
  exact ⟨KeepsUsers.inherits huser, Inherits.keepsUsers huser⟩

section Example

def mixedEnv : Dialers.Env Unit :=
  { Dialers.sampleEnv with
    parseURL := fun uri =>
      if uri = "ssh://x@h1".toList then some ⟨"ssh".toList, "x".toList, "h1".toList, []⟩
      else if uri = "ssh://y@h2".toList then some ⟨"ssh".toList, "y".toList, "h2".toList, []⟩
      else if uri = "ssh://h3".toList then some ⟨"ssh".toList, [], "h3".toList, []⟩
      else none }

theorem keepsUsers_two :
    KeepsUsers ⟨[⟨"x".toList, "h1:22".toList⟩, ⟨[], "h3:22".toList⟩], "x".toList, []⟩ := by
  refine (keepsUsers_iff mixedEnv [⟨.addDialer [] "x@h1,h3".toList, true⟩] _ rfl).mpr ?_
  intro pre a b post he ha _
  match pre with
  | [] =>
    cases he
    rfl
  | _ :: pre =>
    have hlen := congrArg List.length he
    simp only [List.length_cons, List.length_nil, List.length_append] at hlen
    omega

/-- When `h1` and `h2` fail, `h3` is given the user of `h2`. -/
theorem third_address_gets_second_user :
    ¬∀ (denv : Dialers.Env Unit) (calls : List Registry.Call) (d : SSHDialer),
      (Registry.after denv calls).sshDialer = some d → KeepsUsers d := by
  intro hall
  have hkeeps := hall mixedEnv [⟨.addDialer [] "x@h1,y@h2,h3".toList, true⟩]
    ⟨[⟨"x".toList, "h1:22".toList⟩, ⟨"y".toList, "h2:22".toList⟩, ⟨[], "h3:22".toList⟩],
      "x".toList, []⟩ rfl
  have hy := hkeeps.inherits rfl [⟨"x".toList, "h1:22".toList⟩] _ _ [] rfl (by decide) rfl
  exact absurd hy (by decide)

end Example

end SshTunnel.Connector
