import SshTunnel.Dialers

/-!
# The registry of dialers over whole sequences of calls (`dialer/dialer.go`)

Every entry point but a socks5 `AddDialer` goes through `makeSSHDialer`, which
registers the `SSHDialer` before anyone has looked at the error of
`NewSSHDialer`, and always under the name `default`.
-/

namespace SshTunnel.Registry

open Lib.Net (Text)
open Dialers

inductive Operation where
  | addSSHKey (encodedKey passPhrase : Text)
  | getSSHKeys
  | getConnector
  | addDialer (dialerName uri : Text)

/-- A call, and whether `NewSSHDialer` can load the known hosts when it comes. -/
structure Call where
  operation : Operation
  loads : Bool

/-- A call of a method on the result of `makeSSHDialer`, which dereferences it. -/
def onSSHDialer (loads : Bool) (s : State) : State × Outcome :=
  let s' := s.makeSSHDialer loads
  (s', if s'.sshDialer.isSome then .ok else .panicked)

def getSSHKeys (loads : Bool) (s : State) : State × Outcome := onSSHDialer loads s

def getConnector (loads : Bool) (s : State) : State × Outcome := onSSHDialer loads s

def marshall (info : DialerInfo) : Control.Dialer := ⟨info.name, info.type, info.destination⟩

/-- `Server.ListDialers`; `names` are the keys in the order in which the map is read. -/
def listDialers (names : List Text) (s : State) : List Control.Dialer :=
  names.filterMap fun name => (s.dialers name).map marshall

section Calls

variable {Conn : Type} (env : Env Conn)

def handle (s : State) (c : Call) : State × Outcome :=
  match c.operation with
  | .addSSHKey encodedKey passPhrase => addSSHKey env c.loads encodedKey passPhrase s
  | .getSSHKeys => getSSHKeys c.loads s
  | .getConnector => getConnector c.loads s
  | .addDialer dialerName uri => addDialer env c.loads dialerName uri s

def after (calls : List Call) : State := calls.foldl (fun s c => (handle env s c).1) init

def Call.makes (c : Call) : Bool :=
  match c.operation with
  | .addDialer _ uri => ¬"socks5://".toList <+: uri
  | _ => true

def Fails (s : State) (c : Call) : Prop :=
  c.makes = true ∧ s.sshDialer = none ∧ c.loads = false

/-- Every registered dialer has an implementation, and a call in which
`NewSSHDialer` fails returns an error and changes nothing. -/
structure Sound (calls : List Call) : Prop where
  implemented : ∀ pre, pre <+: calls → ∀ name info,
    (after env pre).dialers name = some info → info.impl ≠ .ssh false
  unchanged : ∀ pre c post, calls = pre ++ c :: post → Fails (after env pre) c →
    (∃ err, (handle env (after env pre) c).2 = .error err) ∧
      (handle env (after env pre) c).1.dialers = (after env pre).dialers ∧
      (handle env (after env pre) c).1.sshDialer = (after env pre).sshDialer

/-- Each entry is stored under its name; the list of dialers has each name once,
and shows under it what a rule with this name resolves to. -/
structure Consistent (s : State) : Prop where
  named : ∀ name info, s.dialers name = some info → info.name = name
  listed : ∀ names : List Text, names.Nodup → (∀ k, k ∈ names ↔ (s.dialers k).isSome = true) →
    ((listDialers names s).map (·.name)).Nodup ∧
      ∀ d ∈ listDialers names s, (s.dialers d.name).map marshall = some d

/-- `AddDialer` for `ssh` that comes to its end writes the entry `ssh` once more. -/
def Call.Renames (c : Call) : Prop :=
  ∃ uri, c.operation = .addDialer ssh uri ∧
    (c.loads = true ∨ ∀ u ∈ uri.splitOn ',', ∃ err, sshAddress env u = .error err)

/-- `makeSSHDialer` finds `default` taken and registers under `ssh`, and this is
the last entry that the call writes there. -/
def Misnames (s : State) (c : Call) : Prop :=
  c.makes = true ∧ s.sshDialer = none ∧ (s.dialers Dialers.default).isSome = true ∧ ¬c.Renames env

end Calls

/-! ### What a call does -/

section Effects

variable {Conn : Type} {env : Env Conn} {s : State} {c : Call}

def madeKey (s : State) : Text := if (s.dialers Dialers.default).isSome then ssh else Dialers.default

def madeInfo (loads : Bool) : DialerInfo := ⟨Dialers.default, ssh, "...".toList, .ssh loads⟩

theorem makeSSHDialer_some {loads : Bool} (h : s.sshDialer.isSome = true) :
    s.makeSSHDialer loads = s := by
  rw [State.makeSSHDialer, if_pos h]

theorem makeSSHDialer_none {loads : Bool} (h : s.sshDialer = none) :
    (s.makeSSHDialer loads).dialers =
        Function.update s.dialers (madeKey s) (some (madeInfo loads)) ∧
      (s.makeSSHDialer loads).sshDialer.isSome = loads := by
  rw [State.makeSSHDialer, if_neg (by simp [h])]
  unfold madeKey
  dsimp only
  constructor
  · split <;> rfl
  · split <;> cases loads <;> rfl

theorem makeSSHDialer_isSome (s : State) (loads : Bool) :
    (s.makeSSHDialer loads).sshDialer.isSome = (s.sshDialer.isSome || loads) := by
  cases h : s.sshDialer with
  | none => rw [(makeSSHDialer_none h).2, Option.isSome_none, Bool.false_or]
  | some d =>
    have hsome : s.sshDialer.isSome = true := by rw [h, Option.isSome_some]
    rw [makeSSHDialer_some hsome, h, Option.isSome_some, Bool.true_or]

/-- Without an `SSHDialer`, the addresses are dereferenced unless none is valid. -/
theorem addAddresses_none {uris : List Text}
    (h : ∀ u ∈ uris, ∃ err, sshAddress env u = .error err) :
    addAddresses env none uris = some none := by
  induction uris with
  | nil => rfl
  | cons u uris ih =>
    obtain ⟨err, hu⟩ := h u List.mem_cons_self
    simp only [addAddresses, hu]
    exact ih fun v hv => h v (List.mem_cons_of_mem u hv)

theorem addAddresses_panics {uris : List Text}
    (h : ¬∀ u ∈ uris, ∃ err, sshAddress env u = .error err) :
    addAddresses env none uris = none := by
  induction uris with
  | nil => exact absurd (fun u hu => by cases hu) h
  | cons u uris ih =>
    cases hu : sshAddress env u with
    | ok a => simp only [addAddresses, hu]
    | error err =>
      simp only [addAddresses, hu]
      refine ih fun hall => h fun v hv => ?_
      rcases List.mem_cons.mp hv with rfl | hv
      · exact ⟨err, hu⟩
      · exact hall v hv

theorem addAddresses_some (env : Env Conn) (d : SSHDialer) (uris : List Text) :
    ∃ d', addAddresses env (some d) uris = some (some d') := by
  induction uris generalizing d with
  | nil => exact ⟨d, rfl⟩
  | cons u uris ih =>
    cases hu : sshAddress env u with
    | ok a =>
      simp only [addAddresses, hu]
      exact ih _
    | error err =>
      simp only [addAddresses, hu]
      exact ih d

def Completes (env : Env Conn) (s : State) (c : Call) (uri : Text) : Prop :=
  s.sshDialer.isSome = true ∨ c.loads = true ∨
    ∀ u ∈ uri.splitOn ',', ∃ err, sshAddress env u = .error err

theorem addAddresses_completes (env : Env Conn) (s : State) (c : Call) (uri : Text) :
    (Completes env s c uri ∧
      ∃ d, addAddresses env (s.makeSSHDialer c.loads).sshDialer (uri.splitOn ',') = some d) ∨
    (¬Completes env s c uri ∧
      addAddresses env (s.makeSSHDialer c.loads).sshDialer (uri.splitOn ',') = none) := by
  have hsome := makeSSHDialer_isSome s c.loads
  unfold Completes
  cases hd : (s.makeSSHDialer c.loads).sshDialer with
  | some d =>
    rw [hd, Option.isSome_some, eq_comm, Bool.or_eq_true] at hsome
    obtain ⟨d', hd'⟩ := addAddresses_some env d (uri.splitOn ',')
    exact .inl ⟨hsome.imp_right .inl, some d', hd'⟩
  | none =>
    rw [hd, Option.isSome_none, eq_comm, Bool.or_eq_false_iff] at hsome
    by_cases hall : ∀ u ∈ uri.splitOn ',', ∃ err, sshAddress env u = .error err
    · exact .inl ⟨.inr (.inr hall), none, addAddresses_none hall⟩
    · refine .inr ⟨?_, addAddresses_panics hall⟩
      rintro (h | h | h)
      · rw [hsome.1] at h
        cases h
      · rw [hsome.2] at h
        cases h
      · exact hall h

def dialerKey (dialerName : Text) : Text :=
  if dialerName = [] then Dialers.default else dialerName

theorem handle_socks5 (env : Env Conn) (s : State) (h : c.makes = false) :
    (handle env s c).1.sshDialer = s.sshDialer ∧
      ((handle env s c).1.dialers = s.dialers ∨
        ∃ key uri, (handle env s c).1.dialers = Function.update s.dialers key
          (some ⟨key, "socks5".toList, uri, .socks5 (uri.drop 9)⟩)) := by
  rcases c with ⟨op, loads⟩
  cases op with
  | addDialer dialerName uri =>
    have hp : "socks5://".toList <+: uri := not_not.mp (of_decide_eq_false h)
    simp only [handle, addDialer, if_pos hp]
    split
    · exact ⟨rfl, .inl rfl⟩
    · exact ⟨rfl, .inr ⟨_, uri, rfl⟩⟩
  | addSSHKey | getSSHKeys | getConnector => cases h

/-- Every other call: what `makeSSHDialer` leaves, and for an `AddDialer` that
comes to its end one more entry. -/
theorem handle_made (env : Env Conn) (s : State) (h : c.makes = true) :
    (handle env s c).1.sshDialer.isSome = (s.sshDialer.isSome || c.loads) ∧
      ((handle env s c).1.dialers = (s.makeSSHDialer c.loads).dialers ∧
          (∀ dialerName uri, c.operation = .addDialer dialerName uri → ¬Completes env s c uri) ∨
        ∃ dialerName uri, c.operation = .addDialer dialerName uri ∧ Completes env s c uri ∧
          (handle env s c).1.dialers =
            Function.update (s.makeSSHDialer c.loads).dialers (dialerKey dialerName)
              (some ⟨dialerKey dialerName, ssh, uri, .ssh (s.sshDialer.isSome || c.loads)⟩)) := by
  rw [← makeSSHDialer_isSome]
  rcases c with ⟨op, loads⟩
  cases op with
  | getSSHKeys => exact ⟨rfl, .inl ⟨rfl, fun _ _ he => by cases he⟩⟩
  | getConnector => exact ⟨rfl, .inl ⟨rfl, fun _ _ he => by cases he⟩⟩
  | addSSHKey encodedKey passPhrase =>
    simp only [handle, addSSHKey]
    split
    · exact ⟨rfl, .inl ⟨rfl, fun _ _ he => by cases he⟩⟩
    · exact ⟨rfl, .inl ⟨rfl, fun _ _ he => by cases he⟩⟩
    · rename_i d hd
      exact ⟨by rw [hd]; rfl, .inl ⟨rfl, fun _ _ he => by cases he⟩⟩
  | addDialer dialerName uri =>
    have hp : ¬"socks5://".toList <+: uri := of_decide_eq_true h
    simp only [handle, addDialer, if_neg hp]
    rcases addAddresses_completes env s ⟨.addDialer dialerName uri, loads⟩ uri with
      ⟨hc, d, hd⟩ | ⟨hc, hd⟩
    · have hsome := addAddresses_isSome hd
      simp only [hd]
      refine ⟨hsome, .inr ⟨dialerName, uri, rfl, hc, ?_⟩⟩
      rw [hsome]
      rfl
    · simp only [hd]
      refine ⟨trivial, .inl ⟨trivial, fun _ _ he => ?_⟩⟩
      cases he
      exact hc

theorem after_concat (calls : List Call) (c : Call) :
    after env (calls ++ [c]) = (handle env (after env calls) c).1 := by
  rw [after, List.foldl_concat]
  rfl

end Effects

/-! ### Facts about every entry -/

def Everywhere (P : Text → DialerInfo → Prop) (dialers : Text → Option DialerInfo) : Prop :=
  ∀ name info, dialers name = some info → P name info

theorem Everywhere.update {P : Text → DialerInfo → Prop} {dialers : Text → Option DialerInfo}
    {key : Text} {info : DialerInfo} (h : ∀ name ≠ key, ∀ i, dialers name = some i → P name i)
    (hp : P key info) : Everywhere P (Function.update dialers key (some info)) := by
  intro name i hi
  by_cases hname : name = key
  · subst hname
    rw [Function.update_self, Option.some.injEq] at hi
    exact hi ▸ hp
  · rw [Function.update_of_ne hname] at hi
    exact h name hname i hi

section Implementation

variable {Conn : Type} {env : Env Conn} {s : State} {c : Call}

def Implemented (s : State) : Prop := Everywhere (fun _ info => info.impl ≠ .ssh false) s.dialers

theorem handle_implemented (hs : Implemented s) (hc : ¬Fails s c) :
    Implemented (handle env s c).1 := by
  cases hmakes : c.makes with
  | false =>
    rcases (handle_socks5 env s hmakes).2 with h | ⟨key, uri, h⟩
    · rw [Implemented, h]
      exact hs
    · rw [Implemented, h]
      exact Everywhere.update (fun name _ => hs name) (by simp)
  | true =>
    have hsome : (s.sshDialer.isSome || c.loads) = true := by
      by_contra hnone
      rw [Bool.not_eq_true, Bool.or_eq_false_iff, Option.isSome_eq_false_iff,
        Option.isNone_iff_eq_none] at hnone
      exact hc ⟨hmakes, hnone.1, hnone.2⟩
    have hmade : Everywhere (fun _ info => info.impl ≠ .ssh false)
        (s.makeSSHDialer c.loads).dialers := by
      cases hd : s.sshDialer with
      | some d =>
        rw [makeSSHDialer_some (by rw [hd, Option.isSome_some])]
        exact hs
      | none =>
        rw [hd, Option.isSome_none, Bool.false_or] at hsome
        rw [(makeSSHDialer_none hd).1, hsome]
        exact Everywhere.update (fun name _ => hs name) (by simp [madeInfo])
    rcases (handle_made env s hmakes).2 with ⟨h, -⟩ | ⟨name, uri, -, -, h⟩
    · rw [Implemented, h]
      exact hmade
    · rw [Implemented, h, hsome]
      exact Everywhere.update (fun name _ => hmade name) (by simp)

theorem handle_fails (env : Env Conn) (h : Fails s c) :
    ∃ name info, (handle env s c).1.dialers name = some info ∧ info.impl = .ssh false := by
  obtain ⟨hmakes, hnone, hloads⟩ := h
  rcases (handle_made env s hmakes).2 with ⟨h, -⟩ | ⟨name, uri, -, -, h⟩
  · refine ⟨madeKey s, madeInfo c.loads, ?_, by rw [madeInfo, hloads]⟩
    rw [h, (makeSSHDialer_none hnone).1, Function.update_self]
  · rw [hnone, hloads] at h
    exact ⟨dialerKey name, ⟨dialerKey name, ssh, uri, .ssh false⟩,
      by rw [h, Function.update_self]; rfl, rfl⟩

theorem after_sshDialer_none {calls : List Call} (h : ∀ c ∈ calls, c.makes = false) :
    (after env calls).sshDialer = none := by
  induction calls using List.reverseRecOn with
  | nil => rfl
  | append_singleton calls c ih =>
    have hc : c.makes = false := h c (List.mem_append_right calls List.mem_cons_self)
    rw [after_concat, (handle_socks5 env _ hc).1]
    exact ih fun d hd => h d (List.mem_append_left [c] hd)

/-- When the first call of `makeSSHDialer` succeeds, no later one calls
`NewSSHDialer`. -/
theorem after_implemented {calls pre : List Call}
    (hfirst : ∀ c, calls.find? Call.makes = some c → c.loads = true) (hpre : pre <+: calls) :
    Implemented (after env pre) ∧
      ((after env pre).sshDialer = none → ∀ c ∈ pre, c.makes = false) ∧
      ∀ c, pre ++ [c] <+: calls → ¬Fails (after env pre) c := by
  -- a failure would be that of the first call
  have hfails : ∀ pre, ((after env pre).sshDialer = none → ∀ c ∈ pre, c.makes = false) →
      ∀ c, pre ++ [c] <+: calls → ¬Fails (after env pre) c := by
    rintro pre hnone c ⟨post, rfl⟩ ⟨hmakes, hd, hloads⟩
    rw [hfirst c] at hloads
    · cases hloads
    · rw [List.append_assoc, List.singleton_append, List.find?_eq_some_iff_append]
      exact ⟨hmakes, pre, post, rfl, fun a ha => by simp [hnone hd a ha]⟩
  induction pre using List.reverseRecOn with
  | nil =>
    refine ⟨fun _ _ h => (by cases h), fun _ _ h => (by cases h), hfails [] fun _ _ h => ?_⟩
    cases h
  | append_singleton pre c ih =>
    obtain ⟨himpl, hnone, hc⟩ := ih ((List.prefix_append pre [c]).trans hpre)
    have hnf := hc c hpre
    have hnone' : (after env (pre ++ [c])).sshDialer = none →
        ∀ d ∈ pre ++ [c], d.makes = false := by
      intro hd
      rw [after_concat] at hd
      cases hmakes : c.makes with
      | true =>
        have hsome := (handle_made env (after env pre) hmakes).1
        rw [hd, Option.isSome_none, eq_comm, Bool.or_eq_false_iff, Option.isSome_eq_false_iff,
          Option.isNone_iff_eq_none] at hsome
        exact absurd ⟨hmakes, hsome.1, hsome.2⟩ hnf
      | false =>
        rw [(handle_socks5 env _ hmakes).1] at hd
        intro d hmem
        rcases List.mem_append.mp hmem with h | h
        · exact hnone hd d h
        · exact List.mem_singleton.mp h ▸ hmakes
    refine ⟨?_, hnone', hfails _ hnone'⟩
    rw [after_concat]
    exact handle_implemented himpl hnf

end Implementation

/-- The registry is sound over a sequence of calls exactly when the first of them
that goes through `makeSSHDialer` finds the known hosts loadable. -/
theorem registry_sound_iff {Conn : Type} (env : Env Conn) (calls : List Call) :
    Sound env calls ↔ ∀ c, calls.find? Call.makes = some c → c.loads = true := by
  constructor
  · intro hs c hc
    obtain ⟨hmakes, pre, post, rfl, hpre⟩ := List.find?_eq_some_iff_append.mp hc
    by_contra hloads
    have hnone : (after env pre).sshDialer = none :=
      after_sshDialer_none fun a ha => by simpa using hpre a ha
    obtain ⟨name, info, hinfo, hnil⟩ :=
      handle_fails env ⟨hmakes, hnone, Bool.not_eq_true _ ▸ hloads⟩
    refine hs.implemented (pre ++ [c]) ⟨post, by simp⟩ name info ?_ hnil
    rw [after_concat]
    exact hinfo
  · intro hfirst
    refine ⟨fun pre hpre => (after_implemented hfirst hpre).1, fun pre c post he hf => ?_⟩
    have hpre : pre ++ [c] <+: calls := ⟨post, by simp [he]⟩
    have hp := (List.prefix_append pre [c]).trans hpre
    exact absurd hf ((after_implemented hfirst hp).2.2 c hpre)

section Example

/-- The first key comes while the known hosts are missing: the error of the call is
that of the key, and `default` has no implementation. -/
theorem registry_without_known_hosts :
    ¬∀ (env : Env Unit) (calls : List Call), Sound env calls := by
  intro hall
  have himpl := (hall sampleEnv [⟨.addSSHKey [] [], false⟩]).implemented _ List.prefix_rfl
    Dialers.default (madeInfo false) rfl
  exact himpl rfl

end Example

/-! ### Names -/

section Names

variable {Conn : Type} {env : Env Conn} {s : State} {c : Call}

def Named (s : State) : Prop := Everywhere (fun name info => info.name = name) s.dialers

theorem handle_named (hs : Named s) (hc : ¬Misnames env s c) : Named (handle env s c).1 := by
  cases hmakes : c.makes with
  | false =>
    rcases (handle_socks5 env s hmakes).2 with h | ⟨key, uri, h⟩
    · rw [Named, h]
      exact hs
    · rw [Named, h]
      exact Everywhere.update (fun name _ => hs name) rfl
  | true =>
    have hcases : Named (s.makeSSHDialer c.loads) ∨ c.Renames env ∧ s.sshDialer = none ∧
        madeKey s = ssh := by
      cases hd : s.sshDialer with
      | some d =>
        rw [makeSSHDialer_some (by rw [hd, Option.isSome_some])]
        exact .inl hs
      | none =>
        by_cases hdefault : (s.dialers Dialers.default).isSome = true
        · refine .inr ⟨?_, rfl, if_pos hdefault⟩
          by_contra hr
          exact hc ⟨hmakes, hd, hdefault, hr⟩
        · left
          have hkey : madeKey s = Dialers.default := if_neg hdefault
          rw [Named, (makeSSHDialer_none hd).1, hkey]
          exact Everywhere.update (fun name _ => hs name) rfl
    rcases hcases with hmade | ⟨⟨uri, hop, hdone⟩, hnone, hkey⟩
    · rcases (handle_made env s hmakes).2 with ⟨h, -⟩ | ⟨name, uri, -, -, h⟩
      · rw [Named, h]
        exact hmade
      · rw [Named, h]
        exact Everywhere.update (fun name _ => hmade name) rfl
    · -- the entry of `makeSSHDialer` is overwritten
      rcases (handle_made env s hmakes).2 with ⟨-, h⟩ | ⟨name, uri', hop', -, h⟩
      · exact absurd (.inr hdone) (h ssh uri hop)
      · rw [hop] at hop'
        cases hop'
        rw [Named, h, (makeSSHDialer_none hnone).1, hkey]
        refine Everywhere.update (fun name hname info hi => ?_) rfl
        have hssh : name ≠ ssh := hname
        rw [Function.update_of_ne hssh] at hi
        exact hs name info hi

theorem handle_misnames (h : Misnames env s c) : ¬Named (handle env s c).1 := by
  obtain ⟨hmakes, hnone, hdefault, hren⟩ := h
  have hkey : madeKey s = ssh := if_pos hdefault
  have hssh : (handle env s c).1.dialers ssh = some (madeInfo c.loads) := by
    rcases (handle_made env s hmakes).2 with ⟨h, -⟩ | ⟨name, uri, hop, hc, h⟩
    · rw [h, (makeSSHDialer_none hnone).1, hkey, Function.update_self]
    · have hname : ssh ≠ dialerKey name := by
        intro he
        unfold dialerKey at he
        split at he
        · exact absurd he (by decide)
        · rw [← he] at hop
          refine hren ⟨uri, hop, hc.resolve_left ?_⟩
          simp [hnone]
      rw [h, Function.update_of_ne hname, (makeSSHDialer_none hnone).1, hkey, Function.update_self]
  intro hnamed
  have hname : Dialers.default = ssh := hnamed ssh _ hssh
  exact absurd hname (by decide)

theorem listDialers_names (hs : Named s) (names : List Text) :
    (listDialers names s).map (·.name) = names.filter fun k => (s.dialers k).isSome := by
  induction names with
  | nil => rfl
  | cons k names ih =>
    rw [listDialers, List.filterMap_cons, List.filter_cons]
    cases hk : s.dialers k with
    | none => exact ih
    | some info =>
      have hname : info.name = k := hs k info hk
      simp only [Option.map_some, List.map_cons, Option.isSome_some, if_true]
      rw [← ih]
      exact congrArg (· :: _) hname

theorem consistent_iff : Consistent s ↔ Named s := by
  refine ⟨fun h => h.named, fun hs => ⟨hs, fun names hnodup _ => ⟨?_, fun d hd => ?_⟩⟩⟩
  · rw [listDialers_names hs]
    exact hnodup.filter _
  · obtain ⟨k, -, hk⟩ := List.mem_filterMap.mp hd
    obtain ⟨info, hinfo, rfl⟩ := Option.map_eq_some_iff.mp hk
    have hname : (marshall info).name = k := hs k info hinfo
    rw [hname]
    exact hk

end Names

/-- The registry is consistent after every call of a sequence exactly when no call
has `makeSSHDialer` register under `ssh` what it names `default`, without being the
`AddDialer` for `ssh` that puts this right. -/
theorem registry_consistent_iff {Conn : Type} (env : Env Conn) (calls : List Call) :
    (∀ pre, pre <+: calls → Consistent (after env pre)) ↔
      ∀ pre c post, calls = pre ++ c :: post → ¬Misnames env (after env pre) c := by
  constructor
  · rintro h pre c post rfl hm
    have hnamed := (h (pre ++ [c]) ⟨post, by simp⟩).named
    rw [after_concat] at hnamed
    exact handle_misnames hm hnamed
  · intro h pre hpre
    rw [consistent_iff]
    induction pre using List.reverseRecOn with
    | nil => exact fun _ _ h => (by cases h)
    | append_singleton pre c ih =>
      obtain ⟨post, rfl⟩ := hpre
      rw [after_concat]
      exact handle_named (ih ⟨c :: post, by simp⟩) (h pre c post (by simp))

section Example

/-- A socks5 dialer takes the name `default`; the key that follows puts a second
`default` into the list. -/
theorem registry_two_defaults :
    ¬∀ (env : Env Unit) (calls : List Call), ∀ pre, pre <+: calls → Consistent (after env pre) := by
  intro hall
  have hcons := hall sampleEnv
    [⟨.addDialer [] "socks5://127.0.0.1:1080".toList, true⟩, ⟨.addSSHKey [] [], true⟩] _
    List.prefix_rfl
  have hname := hcons.named ssh (madeInfo true) rfl
  exact absurd hname (by decide)

end Example

end SshTunnel.Registry
