import SshTunnel.Lib.HostPort
import SshTunnel.Registry

/-!
# Lists of addresses (`dialer/dialer.go:62-91`, `dialer/sshdialer.go:131-159`)

`AddDialer` splits its argument at commas and calls `SSHDialer.AddDialer` for each
piece. It drops the errors of these calls, so that a piece that is no ssh url is
left out of the failover list and the call returns nil.
-/

namespace SshTunnel.Dialers

open Lib.Net (Text)
open Connector (SSHAddress)
open Registry (dialerKey makeSSHDialer_some addAddresses_panics addAddresses_some)

def SSHDialer.append (d : SSHDialer) (a : SSHAddress) : SSHDialer :=
  { d with
    addresses := d.addresses ++ [a]
    user := if d.user = [] then a.user else d.user }

/-- The text that `SSHDialer.AddDialer` gives to `url.Parse`. -/
def withScheme (uri : Text) : Text :=
  if "://".toList <:+: uri then uri else "ssh://".toList ++ uri

def pieces (uri : Text) : List Text := uri.splitOn ','

def State.addresses (s : State) : List SSHAddress := (s.sshDialer.map (·.addresses)).getD []

def State.defaultUser (s : State) : Text := (s.sshDialer.map (·.user)).getD []

section Lists

variable {Conn : Type} (env : Env Conn)

def ValidURL (uri : Text) : Prop := ∃ a, sshAddress env uri = .ok a

def accepted (uris : List Text) : List SSHAddress :=
  uris.filterMap fun uri => (sshAddress env uri).toOption

/-- The call returns nil exactly for a list of ssh urls and has then appended their
addresses; otherwise it returns an error and has changed nothing. -/
structure AllOrNothing (loads : Bool) (dialerName uri : Text) (s : State) : Prop where
  returns : (addDialer env loads dialerName uri s).2 = .ok ↔ ∀ u ∈ pieces uri, ValidURL env u
  appended : (∀ u ∈ pieces uri, ValidURL env u) → ∃ as,
    List.Forall₂ (fun u a => sshAddress env u = .ok a) (pieces uri) as ∧
      (addDialer env loads dialerName uri s).1.addresses = s.addresses ++ as
  rejected : (¬∀ u ∈ pieces uri, ValidURL env u) →
    (∃ err, (addDialer env loads dialerName uri s).2 = .error err) ∧
      (addDialer env loads dialerName uri s).1.addresses = s.addresses ∧
      (addDialer env loads dialerName uri s).1.defaultUser = s.defaultUser ∧
      (addDialer env loads dialerName uri s).1.dialers = s.dialers

def addDialers (loads : Bool) (dialerName : Text) (uris : List Text) (s : State) : State :=
  uris.foldl (fun s uri => (addDialer env loads dialerName uri s).1) s

end Lists

/-! ### What a call does -/

section Call

variable {Conn : Type} {env : Env Conn} {s t : State} {d : SSHDialer} {loads : Bool}
  {dialerName uri : Text}

theorem foldl_append (d : SSHDialer) (as : List SSHAddress) :
    (as.foldl SSHDialer.append d).addresses = d.addresses ++ as := by
  induction as generalizing d with
  | nil => simp
  | cons a as ih =>
    rw [List.foldl_cons, ih]
    simp [SSHDialer.append]

theorem addAddresses_eq (env : Env Conn) (d : SSHDialer) (uris : List Text) :
    addAddresses env (some d) uris =
      some (some ((accepted env uris).foldl SSHDialer.append d)) := by
  induction uris generalizing d with
  | nil => rfl
  | cons uri uris ih =>
    cases hu : sshAddress env uri with
    | error err =>
      simp only [addAddresses, hu]
      rw [ih]
      simp [accepted, hu, Except.toOption]
    | ok a =>
      simp only [addAddresses, hu]
      rw [ih]
      simp [accepted, hu, Except.toOption, SSHDialer.append]

theorem accepted_append (env : Env Conn) (us vs : List Text) :
    accepted env (us ++ vs) = accepted env us ++ accepted env vs := List.filterMap_append

theorem accepted_valid {uris : List Text} (h : ∀ u ∈ uris, ValidURL env u) :
    List.Forall₂ (fun u a => sshAddress env u = .ok a) uris (accepted env uris) := by
  induction uris with
  | nil => exact .nil
  | cons u uris ih =>
    obtain ⟨a, ha⟩ := h u List.mem_cons_self
    have htail := ih fun v hv => h v (List.mem_cons_of_mem u hv)
    have hcons : accepted env (u :: uris) = a :: accepted env uris := by
      simp [accepted, ha, Except.toOption]
    rw [hcons]
    exact .cons ha htail

/-- A call with a working `SSHDialer` appends what it accepts, and registers. -/
theorem addDialer_some (env : Env Conn) (dialerName : Text) (hp : ¬"socks5://".toList <+: uri)
    (hd : (s.makeSSHDialer loads).sshDialer = some d) :
    addDialer env loads dialerName uri s =
      ({ s.makeSSHDialer loads with
          sshDialer := some ((accepted env (pieces uri)).foldl SSHDialer.append d) }.register
        (dialerKey dialerName) ⟨dialerKey dialerName, ssh, uri, .ssh true⟩, .ok) := by
  simp only [addDialer, if_neg hp, hd]
  rw [← pieces, addAddresses_eq]
  rfl

/-- Whatever the pieces are, the call returns no error. -/
theorem addDialer_outcome (env : Env Conn) (loads : Bool) (dialerName : Text) (s : State)
    (hp : ¬"socks5://".toList <+: uri) :
    (addDialer env loads dialerName uri s).2 = .ok ∨
      (addDialer env loads dialerName uri s).2 = .panicked := by
  simp only [addDialer, if_neg hp]
  split
  · exact .inr rfl
  · exact .inl rfl

theorem addDialer_panics (hp : ¬"socks5://".toList <+: uri)
    (hd : (s.makeSSHDialer loads).sshDialer = none) (hvalid : ∀ u ∈ pieces uri, ValidURL env u) :
    (addDialer env loads dialerName uri s).2 = .panicked := by
  have hnot : ¬∀ u ∈ uri.splitOn ',', ∃ err, sshAddress env u = .error err := by
    intro herr
    obtain ⟨u, hu⟩ := List.exists_mem_of_ne_nil _ (List.splitOn_ne_nil ',' uri)
    obtain ⟨err, he⟩ := herr u hu
    obtain ⟨a, ha⟩ := hvalid u hu
    rw [he] at ha
    cases ha
  simp only [addDialer, if_neg hp, hd, addAddresses_panics hnot]

theorem makeSSHDialer_fields (hd : (s.makeSSHDialer loads).sshDialer = some d) :
    d.addresses = s.addresses ∧ d.user = s.defaultUser := by
  unfold State.addresses State.defaultUser
  cases hs : s.sshDialer with
  | some d' =>
    rw [makeSSHDialer_some (by rw [hs]; rfl), hs] at hd
    cases hd
    exact ⟨rfl, rfl⟩
  | none =>
    have hnew : (if loads then some (⟨[], [], []⟩ : SSHDialer) else none) = some d := by
      unfold State.makeSSHDialer at hd
      rw [if_neg (by simp [hs])] at hd
      dsimp only at hd
      split at hd <;> exact hd
    split at hnew
    · cases hnew
      exact ⟨rfl, rfl⟩
    · cases hnew

theorem addDialer_addresses (env : Env Conn) (dialerName : Text) (hp : ¬"socks5://".toList <+: uri)
    (hd : (s.makeSSHDialer loads).sshDialer = some d) :
    (addDialer env loads dialerName uri s).1.addresses =
      s.addresses ++ accepted env (pieces uri) := by
  rw [addDialer_some env dialerName hp hd, ← (makeSSHDialer_fields hd).1, ← foldl_append]
  rfl

theorem addDialer_addresses_none (env : Env Conn) (dialerName : Text)
    (hp : ¬"socks5://".toList <+: uri) (hd : (s.makeSSHDialer loads).sshDialer = none) :
    (addDialer env loads dialerName uri s).1.addresses = [] := by
  simp only [addDialer, if_neg hp, hd]
  split
  · rw [State.addresses, hd]
    rfl
  · rename_i r hr
    have hnone := Option.isSome_eq_false_iff.mp (addAddresses_isSome hr)
    rw [Option.isNone_iff_eq_none.mp hnone]
    rfl

end Call

/-- A call is all or nothing exactly for a list of ssh urls, with an `SSHDialer`
that exists or can be made. -/
theorem addDialer_allOrNothing_iff {Conn : Type} (env : Env Conn) (loads : Bool)
    (dialerName uri : Text) (s : State) (hp : ¬"socks5://".toList <+: uri) :
    AllOrNothing env loads dialerName uri s ↔
      (∀ u ∈ pieces uri, ValidURL env u) ∧ (s.sshDialer.isSome = true ∨ loads = true) := by
  have hsome := Registry.makeSSHDialer_isSome s loads
  constructor
  · intro h
    have hvalid : ∀ u ∈ pieces uri, ValidURL env u := by
      by_contra hnot
      obtain ⟨err, herr⟩ := (h.rejected hnot).1
      rcases addDialer_outcome env loads dialerName s hp with ho | ho <;> rw [ho] at herr <;>
        cases herr
    refine ⟨hvalid, ?_⟩
    rw [← Bool.or_eq_true, ← hsome]
    cases hd : (s.makeSSHDialer loads).sshDialer with
    | some d => rfl
    | none =>
      have hok := h.returns.mpr hvalid
      rw [addDialer_panics hp hd hvalid] at hok
      cases hok
  · rintro ⟨hvalid, hmade⟩
    rw [← Bool.or_eq_true, ← hsome] at hmade
    obtain ⟨d, hd⟩ := Option.isSome_iff_exists.mp hmade
    have hcall := addDialer_some env dialerName hp hd
    refine ⟨?_, fun _ => ⟨accepted env (pieces uri), accepted_valid hvalid, ?_⟩, fun hnot => ?_⟩
    · rw [hcall]
      exact iff_of_true rfl hvalid
    · exact addDialer_addresses env dialerName hp hd
    · exact absurd hvalid hnot

section Example

theorem twoURLs_valid : ∀ u ∈ pieces "u@h:22,ssh://u@h:22".toList, ValidURL sampleEnv u := by
  have hp : pieces "u@h:22,ssh://u@h:22".toList = ["u@h:22".toList, "ssh://u@h:22".toList] := by
    decide
  rw [hp]
  intro u hu
  rcases List.mem_cons.mp hu with rfl | hu
  · exact ⟨⟨"u".toList, "h:22".toList⟩, by decide⟩
  · obtain rfl := List.mem_singleton.mp hu
    exact ⟨⟨"u".toList, "h:22".toList⟩, by decide⟩

theorem addDialer_two_urls :
    AllOrNothing sampleEnv true [] "u@h:22,ssh://u@h:22".toList init :=
  (addDialer_allOrNothing_iff sampleEnv true [] "u@h:22,ssh://u@h:22".toList init (by decide)).mpr
    ⟨twoURLs_valid, .inr rfl⟩

/-- A list with one url that does not parse is accepted without it. -/
theorem addDialer_drops_piece :
    ¬∀ (env : Env Unit) (loads : Bool) (dialerName uri : Text) (s : State),
      ¬"socks5://".toList <+: uri → AllOrNothing env loads dialerName uri s := by
  intro hall
  have hok := (hall sampleEnv true [] "u@h:22,u@h:x".toList init (by decide)).returns.mp (by decide)
  obtain ⟨a, ha⟩ := hok "u@h:x".toList (by decide)
  revert ha
  have herr : sshAddress sampleEnv "u@h:x".toList =
      .error (notSSHText "ssh://u@h:x".toList) := by decide
  rw [herr]
  intro ha
  cases ha

end Example

/-! ### Groups of addresses -/

section Groups

variable {Conn : Type} {env : Env Conn} {s t : State} {d : SSHDialer} {loads : Bool}
  {dialerName uri : Text}

/-- The dials of two states that differ in texts of the dialers only. -/
theorem dial_same (hd : s.sshDialer = t.sshDialer) (hr : s.rules = t.rules)
    (hi : ∀ name, (s.dialers name).map (·.impl) = (t.dialers name).map (·.impl))
    (network addr : Text) : s.dial env network addr = t.dial env network addr := by
  have hvia : s.via env network addr = t.via env network addr := by
    unfold State.via
    rw [hr]
    cases t.rules.dial env.resolveTCPAddr network addr with
    | netDial => rfl
    | dialer name =>
      have h := hi name
      cases hs : s.dialers name with
      | none =>
        rw [hs, Option.map_none, eq_comm, Option.map_eq_none_iff] at h
        simp only [hs, h]
      | some info =>
        rw [hs, Option.map_some, eq_comm, Option.map_eq_some_iff] at h
        obtain ⟨info', ht, himpl⟩ := h
        simp only [hs, ht, himpl]
  unfold State.dial
  rw [hvia, hd]

/-- What calls with a working `SSHDialer` have added up to. -/
structure Added (env : Env Conn) (dialerName : Text) (s : State) (d : SSHDialer)
    (uris : List Text) (t : State) : Prop where
  dialer : t.sshDialer = some ((accepted env uris).foldl SSHDialer.append d)
  rules : t.rules = s.rules
  impl : ∀ name, (t.dialers name).map (·.impl) =
    if name = dialerKey dialerName then some (.ssh true) else (s.dialers name).map (·.impl)

theorem addDialer_added (env : Env Conn) (loads : Bool) (dialerName : Text)
    (hp : ¬"socks5://".toList <+: uri) (hs : s.sshDialer = some d) :
    Added env dialerName s d (pieces uri) (addDialer env loads dialerName uri s).1 := by
  have hmade : s.makeSSHDialer loads = s := makeSSHDialer_some (by rw [hs]; rfl)
  have hd : (s.makeSSHDialer loads).sshDialer = some d := by rw [hmade, hs]
  rw [addDialer_some env dialerName hp hd, hmade]
  refine ⟨rfl, rfl, fun name => ?_⟩
  simp only [State.register, Function.update_apply]
  split <;> rfl

theorem Added.trans {us vs : List Text} {u : State} {e : SSHDialer}
    (h : Added env dialerName s d us t) (he : t.sshDialer = some e)
    (h' : Added env dialerName t e vs u) : Added env dialerName s d (us ++ vs) u := by
  obtain rfl : (accepted env us).foldl SSHDialer.append d = e :=
    Option.some.inj (h.dialer.symm.trans he)
  refine ⟨?_, h'.rules.trans h.rules, fun name => ?_⟩
  · rw [h'.dialer, accepted_append, List.foldl_append]
  · rw [h'.impl name]
    split
    · rfl
    · rw [h.impl name, if_neg (by assumption)]

theorem addDialers_added (env : Env Conn) (loads : Bool) (dialerName : Text) {uris : List Text}
    (hne : uris ≠ []) (hp : ∀ uri ∈ uris, ¬"socks5://".toList <+: uri) (hs : s.sshDialer = some d) :
    Added env dialerName s d (uris.flatMap pieces) (addDialers env loads dialerName uris s) := by
  induction uris using List.reverseRecOn with
  | nil => exact absurd rfl hne
  | append_singleton uris uri ih =>
    rw [addDialers, List.foldl_concat, List.flatMap_append, List.flatMap_singleton, ← addDialers]
    have hlast := hp uri (by simp)
    by_cases hnil : uris = []
    · subst hnil
      exact addDialer_added env loads dialerName hlast hs
    · have h := ih hnil fun u hu => hp u (List.mem_append_left _ hu)
      exact h.trans h.dialer (addDialer_added env loads dialerName hlast h.dialer)

theorem pieces_intercalate {uris : List Text} (hne : uris ≠ []) :
    pieces ([','].intercalate uris) = uris.flatMap pieces := by
  induction uris with
  | nil => exact absurd rfl hne
  | cons uri uris ih =>
    cases uris with
    | nil => simp
    | cons v vs =>
      rw [List.intercalate_cons_cons, List.flatMap_cons, ← ih (List.cons_ne_nil v vs), pieces,
        pieces, pieces, List.append_assoc, List.singleton_append, List.splitOn_append_cons_self]

/-- A text that begins with `socks5://` does so before its first comma. -/
theorem not_socks5_append {u : Text} (hp : ¬"socks5://".toList <+: u) (v : Text) :
    ¬"socks5://".toList <+: u ++ ',' :: v :=
  fun h => hp (Lib.HostPort.prefix_of_append_cons (by decide) h)

theorem not_socks5_intercalate {uris : List Text} (hne : uris ≠ [])
    (hp : ∀ uri ∈ uris, ¬"socks5://".toList <+: uri) :
    ¬"socks5://".toList <+: [','].intercalate uris := by
  cases uris with
  | nil => exact absurd rfl hne
  | cons u us =>
    have hu := hp u List.mem_cons_self
    cases us with
    | nil => rwa [List.intercalate_singleton]
    | cons v vs =>
      rw [List.intercalate_cons_cons, List.append_assoc, List.singleton_append]
      exact not_socks5_append hu _

end Groups

/-- With a working `SSHDialer`, calls for several texts leave the addresses, the
default user and the dials of one call for the texts joined by commas. -/
theorem addDialers_eq_joined {Conn : Type} (env : Env Conn) (loads : Bool) (dialerName : Text)
    (s : State) (d : SSHDialer) (uris : List Text) (hs : s.sshDialer = some d) (hne : uris ≠ [])
    (hp : ∀ uri ∈ uris, ¬"socks5://".toList <+: uri) :
    (addDialers env loads dialerName uris s).sshDialer =
        (addDialer env loads dialerName ([','].intercalate uris) s).1.sshDialer ∧
      ∀ network addr, (addDialers env loads dialerName uris s).dial env network addr =
        (addDialer env loads dialerName ([','].intercalate uris) s).1.dial env network addr := by
  have hmany := addDialers_added env loads dialerName hne hp hs
  have hone := addDialer_added env loads dialerName (not_socks5_intercalate hne hp) hs
  rw [pieces_intercalate hne] at hone
  have hd := hmany.dialer.trans hone.dialer.symm
  refine ⟨hd, dial_same hd (hmany.rules.trans hone.rules.symm) fun name => ?_⟩
  rw [hmany.impl name, hone.impl name]

/-- The two ways of the readme to add two addresses. -/
theorem two_calls_eq_one :
    (addDialers sampleEnv true [] ["u@h:22".toList, "ssh://u@h:22".toList]
        (init.makeSSHDialer true)).sshDialer =
      (addDialer sampleEnv true [] "u@h:22,ssh://u@h:22".toList
        (init.makeSSHDialer true)).1.sshDialer :=
  (addDialers_eq_joined sampleEnv true [] (init.makeSSHDialer true) ⟨[], [], []⟩
    ["u@h:22".toList, "ssh://u@h:22".toList] rfl (by decide) (by decide)).1

end SshTunnel.Dialers
