import SshTunnel.Auth
import SshTunnel.Lib.Runs
import SshTunnel.Lib.Slices

/-!
# The slice behind the authentication methods (`dialer/sshdialer.go:113-114`, `320`, `406-432`)

An attempt does not copy `config.Auth`: it appends its password callback, and then
the keys of the agent, to the slice of the dialer. As long as that slice has
capacity left, the attempt and the dialer share one array, and each later append of
the one writes where the other one reads.
-/

namespace SshTunnel.AuthSlices

open Lib.Net (Text)
open Lib.Runs Lib.Slices
open Connector (PublicKey)
open Auth (AuthMethod Agent connectAuth)

/-- An element of an `Auth` slice; a callback is the closure of one attempt. -/
inductive Entry where
  | unset
  | publicKeys (key : PublicKey)
  | passwordCallback (c : ℕ)
  | publicKeysCallback (c : ℕ) (signers : Except Text (List PublicKey))

instance : Inhabited Entry := ⟨.unset⟩

def Entry.authMethod : Entry → Option AuthMethod
  | .unset => none
  | .publicKeys key => some (.publicKeys [key])
  | .passwordCallback _ => some .passwordCallback
  | .publicKeysCallback _ signers => some (.publicKeysCallback signers)

/-- `cfg.Auth` of one `connect`, with what it was built from: the keys at its start
and the answer of the agent once it has been appended. Nobody reads it any more when
`connect` has returned. -/
structure Attempt where
  cfgAuth : Slice
  keys : List PublicKey
  agent : Option (Except Text (List PublicKey))
  returned : Bool

structure State where
  heap : Heap Entry
  auth : Slice
  signers : List PublicKey
  attempts : List Attempt

def init : State := ⟨Heap.init, nil, [], []⟩

/-- The attempt `c`, as long as it runs. -/
def State.running (s : State) (c : ℕ) : Option Attempt :=
  s.attempts[c]?.filter fun a => !a.returned

inductive Action where
  /-- `AddSSHKey` with a key that can be parsed. -/
  | addSSHKey (key : PublicKey)
  /-- `append(sshDialer.config.Auth, ssh.PasswordCallback(...))` in a new attempt. -/
  | connect
  /-- `append(cfg.Auth, ssh.PublicKeysCallback(...))` in the attempt `c`. -/
  | agentKeys (c : ℕ) (signers : Except Text (List PublicKey))
  /-- The attempt `c` returns, with or without a client. -/
  | finish (c : ℕ)

def step (g : Growth) (s : State) : Action → Option State
  | .addSSHKey key =>
    let (heap, auth) := s.heap.append g s.auth (.publicKeys key)
    some { s with heap := heap, auth := auth, signers := s.signers ++ [key] }
  | .connect =>
    let (heap, cfgAuth) := s.heap.append g s.auth (.passwordCallback s.attempts.length)
    some { s with heap := heap, attempts := s.attempts ++ [⟨cfgAuth, s.signers, none, false⟩] }
  | .agentKeys c signers =>
    match s.running c with
    | some ⟨cfgAuth, keys, none, _⟩ =>
      let (heap, cfgAuth') := s.heap.append g cfgAuth (.publicKeysCallback c signers)
      some { s with
        heap := heap, attempts := s.attempts.set c ⟨cfgAuth', keys, some signers, false⟩ }
    | _ => none
  | .finish c =>
    (s.running c).map fun a => { s with attempts := s.attempts.set c { a with returned := true } }

/-! ### What the slices should hold -/

def Attempt.entries (a : Attempt) (c : ℕ) : List Entry :=
  a.keys.map Entry.publicKeys ++ .passwordCallback c ::
    a.agent.toList.map (Entry.publicKeysCallback c)

/-- The slices in use and what was put into them: that of the dialer and those of
the attempts that run. -/
def State.owned (s : State) : Option ℕ → Option (Slice × List Entry)
  | none => some (s.auth, s.signers.map Entry.publicKeys)
  | some c => (s.running c).map fun a => (a.cfgAuth, a.entries c)

def State.Intact (s : State) : Prop :=
  ∀ o t es, s.owned o = some (t, es) → s.heap.read t = es

/-- The slice to which an action appends, if it does. -/
def State.base (s : State) : Action → Option Slice
  | .addSSHKey _ | .connect => some s.auth
  | .agentKeys c _ => (s.running c).map Attempt.cfgAuth
  | .finish _ => none

/-- The append does not write into the window of a slice in use. -/
def Misses (s : State) (a : Action) : Prop :=
  ∀ b, s.base a = some b → ∀ o t es, s.owned o = some (t, es) → ¬Hits b t

/-- The answer of the agent, if there is one that can be dialled. -/
def answer (agent : Agent) : Option (Except Text (List PublicKey)) :=
  if 0 < agent.socket.length then (agent.dial agent.socket).toOption else none

/-- What holds after every run. -/
structure State.Sound (s : State) : Prop where
  holds : ∀ o t es, s.owned o = some (t, es) → s.heap.Holds t
  offset : ∀ o t es, s.owned o = some (t, es) → t.offset = 0
  length : ∀ o t es, s.owned o = some (t, es) → t.len = es.length
  keys : ∀ (c : ℕ) (a : Attempt), s.attempts[c]? = some a → a.keys.length ≤ s.signers.length

/-- An action appends an entry `e` to a slice `b` in use; the result belongs to
`owner`, and all others keep their slices. -/
structure Appends (g : Growth) (s u : State) (a : Action) (owner base : Option ℕ) (b : Slice)
    (es : List Entry) (e : Entry) : Prop where
  isBase : s.base a = some b
  before : s.owned base = some (b, es)
  heap : u.heap = (s.heap.append g b e).1
  after : u.owned owner = some ((s.heap.append g b e).2, es ++ [e])
  others : ∀ o, o ≠ owner → u.owned o = s.owned o
  fresh : s.owned owner = none ∨ owner = base
  /-- What is written does not stand already where it hits another slice. -/
  foreign : s.Sound → ∀ o t es', s.owned o = some (t, es') → Hits b t → es'[b.len]? ≠ some e

/-- An action appends nothing, and no slice comes into use. -/
structure Quiet (s u : State) (a : Action) : Prop where
  isBase : s.base a = none
  heap : u.heap = s.heap
  owned : ∀ o r, u.owned o = some r → s.owned o = some r

section Steps

variable {g : Growth} {s u : State} {a : Action}

theorem running_some {c : ℕ} {t : Attempt} (h : s.running c = some t) :
    s.attempts[c]? = some t ∧ t.returned = false := by
  obtain ⟨ht, hr⟩ := Option.filter_eq_some_iff.mp h
  exact ⟨ht, by simpa using hr⟩

theorem running_set {c c' : ℕ} {t : Attempt} (h : c ≠ c') :
    { s with attempts := s.attempts.set c t }.running c' = s.running c' := by
  rw [State.running, State.running, List.getElem?_set_ne h]

theorem not_hits_self (t : Slice) : ¬Hits t t := by
  intro h
  have hlt := h.2.2.2
  omega

/-- The entries of an attempt behind its keys are its own callbacks. -/
theorem entries_callback {t : Attempt} {c i : ℕ} {e : Entry} (h : (t.entries c)[i]? = some e)
    (hi : t.keys.length ≤ i) :
    e = .passwordCallback c ∨ ∃ signers, e = .publicKeysCallback c signers := by
  rw [Attempt.entries, List.getElem?_append_right (by rw [List.length_map]; exact hi)] at h
  have hmem := List.mem_of_getElem? h
  rw [List.mem_cons, List.mem_map] at hmem
  rcases hmem with he | ⟨signers, -, he⟩
  · exact .inl he
  · exact .inr ⟨signers, he.symm⟩

theorem mem_entries {t : Attempt} {c : ℕ} {e : Entry} (h : e ∈ t.entries c) :
    (∃ key, e = .publicKeys key) ∨ e = .passwordCallback c ∨
      ∃ signers, e = .publicKeysCallback c signers := by
  rw [Attempt.entries, List.mem_append, List.mem_cons, List.mem_map, List.mem_map] at h
  rcases h with ⟨key, -, he⟩ | he | ⟨signers, -, he⟩
  · exact .inl ⟨key, he.symm⟩
  · exact .inr (.inl he)
  · exact .inr (.inr ⟨signers, he.symm⟩)

theorem owned_attempt {c : ℕ} {t : Slice} {es : List Entry} (h : s.owned (some c) = some (t, es)) :
    ∃ a, s.attempts[c]? = some a ∧ t = a.cfgAuth ∧ es = a.entries c := by
  obtain ⟨a, ha, he⟩ := Option.map_eq_some_iff.mp h
  cases he
  exact ⟨a, (running_some ha).1, rfl, rfl⟩

theorem addSSHKey_appends {key : PublicKey} (h : step g s (.addSSHKey key) = some u) :
    ∃ owner base b es e, Appends g s u (.addSSHKey key) owner base b es e := by
  obtain rfl := Option.some.inj h
  refine ⟨none, none, s.auth, _, .publicKeys key, rfl, rfl, rfl, ?_, ?_, .inr rfl, ?_⟩
  · simp only [State.owned, List.map_append, List.map_cons, List.map_nil]
    rfl
  · intro o ho
    cases o with
    | none => exact (ho rfl).elim
    | some c => rfl
  · intro hs o t es ho hit he
    cases o with
    | none =>
      cases ho
      exact not_hits_self _ hit
    | some c =>
      obtain ⟨t', ht', rfl, rfl⟩ := owned_attempt ho
      have hlen : s.auth.len = s.signers.length := by
        have hl := hs.length none _ _ rfl
        rwa [List.length_map] at hl
      rcases entries_callback he (hlen ▸ hs.keys c t' ht') with he | ⟨_, he⟩ <;> cases he

theorem connect_appends (h : step g s .connect = some u) :
    ∃ owner base b es e, Appends g s u .connect owner base b es e := by
  obtain rfl := Option.some.inj h
  have hnone : s.running s.attempts.length = none := by
    rw [State.running, List.getElem?_eq_none le_rfl, Option.filter_none]
  refine ⟨some s.attempts.length, none, s.auth, _, .passwordCallback s.attempts.length, rfl, rfl,
    rfl, ?_, ?_, .inl (by rw [State.owned, hnone]; rfl), ?_⟩
  · simp only [State.owned, State.running, List.getElem?_concat_length, Attempt.entries]
    rfl
  · intro o ho
    cases o with
    | none => rfl
    | some c =>
      have hc : c ≠ s.attempts.length := fun he => ho (congrArg some he)
      simp only [State.owned, State.running, List.getElem?_append]
      by_cases hlt : c < s.attempts.length
      · rw [if_pos hlt]
      · rw [if_neg hlt, List.getElem?_eq_none (by simp; omega), List.getElem?_eq_none (by omega)]
  · intro hs o t es ho hit he
    have hmem := List.mem_of_getElem? he
    cases o with
    | none =>
      cases ho
      exact not_hits_self _ hit
    | some c =>
      obtain ⟨t', ht', rfl, rfl⟩ := owned_attempt ho
      have hlt : c < s.attempts.length := (List.getElem?_eq_some_iff.mp ht').1
      rcases mem_entries hmem with ⟨_, hm⟩ | hm | ⟨_, hm⟩
      · cases hm
      · cases hm
        omega
      · cases hm

theorem agentKeys_appends {c : ℕ} {signers : Except Text (List PublicKey)}
    (h : step g s (.agentKeys c signers) = some u) :
    ∃ owner base b es e, Appends g s u (.agentKeys c signers) owner base b es e := by
  simp only [step] at h
  split at h
  · rename_i cfgAuth keys returned hc
    obtain rfl := Option.some.inj h
    have hat := (running_some hc).1
    have hlt : c < s.attempts.length := (List.getElem?_eq_some_iff.mp hat).1
    refine ⟨some c, some c, cfgAuth, Attempt.entries ⟨cfgAuth, keys, none, returned⟩ c,
      .publicKeysCallback c signers, ?_, ?_, rfl, ?_, ?_, .inr rfl, ?_⟩
    · simp only [State.base, hc, Option.map_some]
    · simp only [State.owned, hc, Option.map_some]
    · simp [State.owned, State.running, hlt, Attempt.entries]
    · intro o ho
      cases o with
      | none => rfl
      | some c' =>
        have hne : c ≠ c' := fun he => ho (congrArg some he.symm)
        simp only [State.owned, State.running, List.getElem?_set_ne hne]
    · intro hs o t es ho hit he
      have hmem := List.mem_of_getElem? he
      cases o with
      | none =>
        cases ho
        obtain ⟨_, -, hm⟩ := List.mem_map.mp hmem
        cases hm
      | some c' =>
        obtain ⟨t', ht', rfl, rfl⟩ := owned_attempt ho
        rcases mem_entries hmem with ⟨_, hm⟩ | hm | ⟨_, hm⟩
        · cases hm
        · cases hm
        · cases hm
          rw [hat] at ht'
          cases ht'
          exact not_hits_self _ hit
  · cases h

theorem finish_quiet {c : ℕ} (h : step g s (.finish c) = some u) : Quiet s u (.finish c) := by
  obtain ⟨t, ht, rfl⟩ := Option.map_eq_some_iff.mp h
  refine ⟨rfl, rfl, fun o r ho => ?_⟩
  cases o with
  | none => exact ho
  | some c' =>
    by_cases hc : c = c'
    · subst hc
      have hlt : c < s.attempts.length := (List.getElem?_eq_some_iff.mp (running_some ht).1).1
      simp [State.owned, State.running, hlt] at ho
    · simp only [State.owned, running_set hc] at ho ⊢
      exact ho

/-- An action appends one entry, or an attempt returns. -/
theorem step_cases (h : step g s a = some u) :
    (∃ owner base b es e, Appends g s u a owner base b es e) ∨ Quiet s u a := by
  cases a with
  | addSSHKey key => exact .inl (addSSHKey_appends h)
  | connect => exact .inl (connect_appends h)
  | agentKeys c signers => exact .inl (agentKeys_appends h)
  | finish c => exact .inr (finish_quiet h)

theorem step_keys (hs : s.Sound) (h : step g s a = some u) :
    ∀ (c : ℕ) (t : Attempt), u.attempts[c]? = some t →
      t.keys.length ≤ u.signers.length := by
  intro c t ht
  cases a with
  | addSSHKey key =>
    obtain rfl := Option.some.inj h
    have hk := hs.keys c t ht
    rw [List.length_append]
    omega
  | connect =>
    obtain rfl := Option.some.inj h
    rw [List.getElem?_append] at ht
    split at ht
    · exact hs.keys c t ht
    · obtain rfl := List.mem_singleton.mp (List.mem_of_getElem? ht)
      exact le_rfl
  | agentKeys c' signers =>
    simp only [step] at h
    split at h
    · rename_i cfgAuth keys returned hc
      obtain rfl := Option.some.inj h
      rw [List.getElem?_set] at ht
      split at ht
      · split at ht
        · cases ht
          have hk := hs.keys c' _ (running_some hc).1
          exact hk
        · cases ht
      · exact hs.keys c t ht
    · cases h
  | finish c' =>
    obtain ⟨t', ht', rfl⟩ := Option.map_eq_some_iff.mp h
    rw [List.getElem?_set] at ht
    split at ht
    · split at ht
      · cases ht
        exact hs.keys c' t' (running_some ht').1
      · cases ht
    · exact hs.keys c t ht

theorem step_sound (hs : s.Sound) (h : step g s a = some u) : u.Sound := by
  obtain ⟨owner, base, b, es, e, app⟩ | quiet := step_cases h
  swap
  · refine ⟨fun o t es ho => ?_, fun o t es ho => ?_, fun o t es ho => ?_, step_keys hs h⟩
    · rw [quiet.heap]
      exact hs.holds o t es (quiet.owned o _ ho)
    · exact hs.offset o t es (quiet.owned o _ ho)
    · exact hs.length o t es (quiet.owned o _ ho)
  have hholds := hs.holds _ _ _ app.before
  have hlen := hs.length _ _ _ app.before
  have hoff := hs.offset _ _ _ app.before
  -- a slice in use is the one that was appended, or one of the others
  have hcases : ∀ o t es', u.owned o = some (t, es') →
      (t = (s.heap.append g b e).2 ∧ es' = es ++ [e]) ∨ s.owned o = some (t, es') := by
    intro o t es' ho
    by_cases he : o = owner
    · rw [he, app.after] at ho
      cases ho
      exact .inl ⟨rfl, rfl⟩
    · exact .inr (app.others o he ▸ ho)
  refine ⟨fun o t es' ho => ?_, fun o t es' ho => ?_, fun o t es' ho => ?_, step_keys hs h⟩
  · rw [app.heap]
    rcases hcases o t es' ho with ⟨rfl, -⟩ | ho
    · exact append_holds hholds
    · exact append_holds_other (hs.holds o t es' ho)
  · rcases hcases o t es' ho with ⟨rfl, -⟩ | ho
    · by_cases hc : b.len < b.cap
      · rw [append_spare hc]
        exact hoff
      · rw [append_full hc]
    · exact hs.offset o t es' ho
  · rcases hcases o t es' ho with ⟨rfl, rfl⟩ | ho
    · rw [append_len, hlen, List.length_append]
      rfl
    · exact hs.length o t es' ho

theorem init_sound : init.Sound := by
  have howned : ∀ o t es, init.owned o = some (t, es) → t = nil ∧ es = [] := by
    intro o t es ho
    cases o with
    | none =>
      cases ho
      exact ⟨rfl, rfl⟩
    | some c => cases ho
  refine ⟨fun o t es ho => ?_, fun o t es ho => ?_, fun o t es ho => ?_, fun c a ha => ?_⟩
  · obtain ⟨rfl, -⟩ := howned o t es ho
    exact holds_nil
  · obtain ⟨rfl, -⟩ := howned o t es ho
    rfl
  · obtain ⟨rfl, rfl⟩ := howned o t es ho
    rfl
  · cases ha

theorem run_auth_sound {G : State → Action → Prop} (h : Run (step g) G init s) : s.Sound :=
  h.invariant init_sound fun _ _ _ hs _ he => step_sound hs he

/-- A step keeps all slices as they were meant exactly if it hits none of them. -/
theorem step_intact_iff (hs : s.Sound) (hi : s.Intact) (h : step g s a = some u) :
    u.Intact ↔ Misses s a := by
  obtain ⟨owner, base, b, es, e, app⟩ | quiet := step_cases h
  swap
  · refine iff_of_true (fun o t es ho => ?_) fun b hb => ?_
    · rw [quiet.heap]
      exact hi o t es (quiet.owned o _ ho)
    · rw [quiet.isBase] at hb
      cases hb
  constructor
  · intro hu b' hb' o t es' ho hit
    obtain rfl : b = b' := Option.some.inj (app.isBase.symm.trans hb')
    have hne : o ≠ owner := by
      intro he
      rcases app.fresh with hnone | hbase
      · rw [he, hnone] at ho
        cases ho
      · rw [he, hbase, app.before] at ho
        cases ho
        exact not_hits_self _ hit
    have hread := hu o t es' ((app.others o hne).trans ho)
    have hidx := read_append_hit (g := g) (x := e) (hs.holds o t es' ho) hit
    rw [← app.heap, hread, hs.offset o t es' ho, hs.offset _ _ _ app.before, Nat.zero_add,
      Nat.sub_zero] at hidx
    exact app.foreign hs o t es' ho hit hidx
  · intro hmiss o t es' ho
    rw [app.heap]
    by_cases he : o = owner
    · rw [he, app.after] at ho
      cases ho
      rw [read_append (hs.holds _ _ _ app.before), hi _ _ _ app.before]
    · rw [app.others o he] at ho
      rw [read_append_other (hs.holds o t es' ho) (hmiss _ app.isBase o t es' ho)]
      exact hi o t es' ho

/-- An attempt that reads what it put there has the methods of `connectAuth`. -/
theorem intact_connectAuth (hi : s.Intact) {c : ℕ} {t : Attempt} {agent : Agent}
    (ht : s.running c = some t) (ha : t.agent = answer agent) :
    (s.heap.read t.cfgAuth).filterMap Entry.authMethod =
      connectAuth agent ⟨t.keys, t.keys.map fun key => .publicKeys [key]⟩ := by
  have hread : s.heap.read t.cfgAuth = t.entries c :=
    hi (some c) _ _ (by rw [State.owned, ht, Option.map_some])
  have hkeys : (t.keys.map Entry.publicKeys).filterMap Entry.authMethod =
      t.keys.map fun key => .publicKeys [key] := by
    rw [List.filterMap_map, ← List.filterMap_eq_map]
    rfl
  rw [hread, Attempt.entries, List.filterMap_append, hkeys, List.filterMap_cons, ha, answer,
    connectAuth]
  dsimp only [Entry.authMethod]
  split
  · cases agent.dial agent.socket with
    | error err => rfl
    | ok signers => simp [Except.toOption, Entry.authMethod]
  · rfl

end Steps

/-- Whatever the growth of slices, in every run whose appends miss the slices in use
the dialer has all its keys and every running attempt the methods it was given; and
a step leaves them so exactly if it misses. -/
theorem auth_slices_intact (g : Growth) :
    (∀ s, Run (step g) Misses init s → s.Intact) ∧
      (∀ s a u, Reach (step g) init s → s.Intact → step g s a = some u →
        (u.Intact ↔ Misses s a)) ∧
      ∀ s : State, s.Intact → ∀ (c : ℕ) (t : Attempt) (agent : Agent), s.running c = some t →
        t.agent = answer agent →
          (s.heap.read t.cfgAuth).filterMap Entry.authMethod =
            connectAuth agent ⟨t.keys, t.keys.map fun key => .publicKeys [key]⟩ := by
  refine ⟨fun s h => ?_, fun s a u h hi hstep => ?_, fun s hi c t agent ht ha => ?_⟩
  · refine h.invariant_under (fun t ht => run_auth_sound ht) ?_ ?_
    · intro o t es ho
      cases o with
      | none =>
        cases ho
        exact read_nil _
      | some c => cases ho
    · intro t a u hsound hi hmiss hstep
      exact (step_intact_iff hsound hi hstep).mpr hmiss
  · exact step_intact_iff (run_auth_sound h) hi hstep
  · exact intact_connectAuth hi ht ha

section Example

/-- `Misses`, tested at the slices in use. -/
def misses (s : State) (a : Action) : Bool :=
  (s.base a).all fun b =>
    !decide (Hits b s.auth) && s.attempts.all fun t => t.returned || !decide (Hits b t.cfgAuth)

theorem misses_sound {s : State} {a : Action} (h : misses s a = true) : Misses s a := by
  intro b hb o t es ho
  rw [misses, hb, Option.all_some, Bool.and_eq_true, List.all_eq_true] at h
  cases o with
  | none =>
    cases ho
    simpa using h.1
  | some c =>
    obtain ⟨t', ht', he⟩ := Option.map_eq_some_iff.mp ho
    cases he
    have hmem := h.2 t' (List.mem_of_getElem? (running_some ht').1)
    simpa [(running_some ht').2] using hmem

/-- Three keys leave room for one entry. The second attempt writes it where the first one,
which has returned, had its own; the answer of the agent moves the attempt to another
array, so that a fourth key does not disturb it. -/
def oneAfterTheOther : List Action :=
  [.addSSHKey [1], .addSSHKey [2], .addSSHKey [3], .connect, .finish 0, .connect,
    .agentKeys 1 (.ok [[9]]), .addSSHKey [4]]

theorem auth_slices_intact_sample :
    ∃ s, exec (step doubling) init oneAfterTheOther = some s ∧ s.Intact := by
  have hrun : ∀ s, exec (guarded misses (step doubling)) init oneAfterTheOther = some s →
      s.Intact := fun s hs =>
    (auth_slices_intact doubling).1 s
      (run_of_exec (I := fun _ => True) (fun _ _ _ _ _ _ => trivial)
        (fun _ _ _ hm => misses_sound hm) trivial hs)
  exact ⟨_, rfl, hrun _ rfl⟩

/-- A key that is added while an attempt runs takes the place of its password callback. -/
example :
    ∃ s, exec (step doubling) init [.addSSHKey [1], .addSSHKey [2], .addSSHKey [3], .connect,
        .addSSHKey [4]] = some s ∧
      s.attempts.map (fun t => s.heap.read t.cfgAuth) =
        [[.publicKeys [1], .publicKeys [2], .publicKeys [3], .publicKeys [4]]] :=
  ⟨_, rfl, rfl⟩

end Example

end SshTunnel.AuthSlices
