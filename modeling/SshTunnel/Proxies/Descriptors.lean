import SshTunnel.Lib.Runs
import Mathlib.Algebra.Order.BigOperators.Group.Finset

/-!
# The descriptors of the transparent proxy (`proxy/transparentproxy.go`, `originaldest/originaldest_linux.go`)

`handleConnection` closes the connection that was accepted, but what it goes on with is
another one, made from a copy of its descriptor. When the dial is refused nobody closes
that copy; the runtime may, once it collects what the handler has left behind.
-/

namespace SshTunnel.Proxies.Descriptors

open Lib.Runs

/-- The accepted connection, the file of `File`, the connection of `FileConn` and the
dialled one. -/
inductive Descriptor where
  | conn
  | clientConnFile
  | newConn
  | remoteConn
  deriving DecidableEq

inductive Return where
  | forwarded
  | noFile
  | noSockopt
  | noFileConn
  | notTCP
  | noDial
  deriving DecidableEq

/-- The places of `handleConnection`, with those of `GetOriginalDst`. -/
inductive Pc where
  | accepted
  | filed
  | closed
  | answered
  | connected
  | tcp
  | forwarding (socket : Bool)
  | drained
  | returned (r : Return)
  deriving DecidableEq

inductive Call where
  | file (ok : Bool)
  | close
  | sockopt (ok : Bool)
  | fileConn (ok : Bool)
  | tcpConn (ok : Bool)
  /-- A connection is a socket or a channel of the ssh client, which has no descriptor. -/
  | dial (socket : Option Bool)
  | copied
  | finish
  deriving DecidableEq

/-- A call of a handler that has `held` open. With every return goes the deferred
`conn.Close()`; the first of the two copies that ends closes both sides. -/
def Pc.call (held : List Descriptor) : Pc → Call → Option (Pc × List Descriptor)
  | .accepted, .file true => some (.filed, held ++ [.clientConnFile])
  | .accepted, .file false => some (.returned .noFile, held.erase .conn)
  | .filed, .close => some (.closed, held.erase .conn)
  | .closed, .sockopt true => some (.answered, held)
  | .closed, .sockopt false => some (.returned .noSockopt, held.erase .conn)
  | .answered, .fileConn true => some (.connected, held ++ [.newConn])
  | .answered, .fileConn false => some (.returned .noFileConn, held.erase .conn)
  | .connected, .tcpConn true => some (.tcp, held.erase .clientConnFile)
  | .connected, .tcpConn false => some (.returned .notTCP, held.erase .conn)
  | .tcp, .dial (some true) => some (.forwarding true, held ++ [.remoteConn])
  | .tcp, .dial (some false) => some (.forwarding false, held)
  | .tcp, .dial none => some (.returned .noDial, held.erase .conn)
  | .forwarding _, .copied => some (.drained, (held.erase .remoteConn).erase .newConn)
  | .drained, .finish => some (.returned .forwarded, held.erase .conn)
  | _, _ => none

/-- The connections are numbered as they are accepted. -/
structure State where
  accepted : ℕ
  pcs : ℕ → Option Pc
  held : ℕ → List Descriptor
  exited : Option ℕ

def init : State := ⟨0, fun _ => none, fun _ => [], none⟩

def State.move (s : State) (c : ℕ) (pc : Pc) (held : List Descriptor) : State :=
  { s with pcs := Function.update s.pcs c (some pc), held := Function.update s.held c held }

/-- `AcceptTCP`. -/
def State.accept (s : State) : State :=
  { s.move s.accepted .accepted [.conn] with accepted := s.accepted + 1 }

def State.total (s : State) : ℕ := ∑ c ∈ Finset.range s.accepted, (s.held c).length

inductive Action where
  | accept
  | call (c : ℕ) (a : Call)
  /-- The rule set returns neither a connection nor an error. -/
  | dialNil (c : ℕ)
  | collect (c : ℕ)
  deriving DecidableEq

/-- `limit` descriptors are left for connections. An error of `AcceptTCP` is fatal, and
so is forwarding to a nil connection. -/
def step (limit : ℕ) (s : State) : Action → Option State
  | .accept =>
    if s.exited = none then
      if s.total < limit then some s.accept else some { s with exited := some 1 }
    else none
  | .call c a =>
    match s.pcs c with
    | some pc =>
      match pc.call (s.held c) a with
      | some (pc', held) =>
        if s.exited = none ∧ (held.length ≤ (s.held c).length ∨ s.total < limit) then
          some (s.move c pc' held)
        else none
      | none => none
    | none => none
  | .dialNil c =>
    if s.exited = none ∧ s.pcs c = some .tcp then some { s with exited := some 2 } else none
  | .collect c =>
    match s.pcs c with
    | some (.returned r) => if s.exited = none then some (s.move c (.returned r) []) else none
    | _ => none

/-- The collector has not run. -/
def Uncollected : State → Action → Prop := fun _ a => ∀ c, a ≠ .collect c

/-- What a handler has open at each place, and what it leaves behind. -/
def Pc.holds : Pc → List Descriptor
  | .accepted => [.conn]
  | .filed => [.conn, .clientConnFile]
  | .closed | .answered => [.clientConnFile]
  | .connected => [.clientConnFile, .newConn]
  | .tcp => [.newConn]
  | .forwarding true => [.newConn, .remoteConn]
  | .forwarding false => [.newConn]
  | .drained => []
  | .returned .forwarded | .returned .noFile => []
  | .returned .noSockopt | .returned .noFileConn => [.clientConnFile]
  | .returned .notTCP => [.clientConnFile, .newConn]
  | .returned .noDial => [.newConn]

/-- The handler has returned without closing what it had made. -/
def Pc.leaks : Pc → Bool
  | .returned .forwarded | .returned .noFile => false
  | .returned _ => true
  | _ => false

def State.leaked (s : State) : Finset ℕ :=
  (Finset.range s.accepted).filter fun c => (s.pcs c).any Pc.leaks

/-! ### What is open -/

theorem call_holds {pc pc' : Pc} {a : Call} {held : List Descriptor}
    (h : pc.call pc.holds a = some (pc', held)) : held = pc'.holds := by
  unfold Pc.call at h
  split at h
  case h_13 socket =>
    cases h
    cases socket <;> rfl
  all_goals
    cases h
    try rfl

theorem returned_stays {r : Return} {a : Call} {held : List Descriptor} :
    (Pc.returned r).call held a = none := by
  cases a <;> rfl

theorem holds_of_leaks {pc : Pc} (h : pc.leaks = true) : 1 ≤ pc.holds.length := by
  cases pc with
  | returned r =>
    cases r with
    | forwarded => cases h
    | noFile => cases h
    | noSockopt => decide
    | noFileConn => decide
    | notTCP => decide
    | noDial => decide
  | _ => cases h

section Total

variable {s : State} {c : ℕ} {p : Pc} {h : List Descriptor}

theorem total_move (hc : c < s.accepted) :
    (s.move c p h).total + (s.held c).length = s.total + h.length := by
  have hmem := Finset.mem_range.mpr hc
  have hnew := Finset.add_sum_erase (Finset.range s.accepted)
    (fun x => (Function.update s.held c h x).length) hmem
  have hold := Finset.add_sum_erase (Finset.range s.accepted) (fun x => (s.held x).length) hmem
  have hrest : ∑ x ∈ (Finset.range s.accepted).erase c, (Function.update s.held c h x).length =
      ∑ x ∈ (Finset.range s.accepted).erase c, (s.held x).length := by
    apply Finset.sum_congr rfl
    intro x hx
    rw [Function.update_of_ne (Finset.ne_of_mem_erase hx)]
  simp only [Function.update_self] at hnew
  change (∑ x ∈ Finset.range s.accepted, (Function.update s.held c h x).length) +
    (s.held c).length = (∑ x ∈ Finset.range s.accepted, (s.held x).length) + h.length
  omega

theorem total_accept : s.accept.total = s.total + 1 := by
  change ∑ x ∈ Finset.range (s.accepted + 1),
    (Function.update s.held s.accepted [.conn] x).length = s.total + 1
  rw [Finset.sum_range_succ, Function.update_self]
  congr 1
  apply Finset.sum_congr rfl
  intro x hx
  rw [Function.update_of_ne (Nat.ne_of_lt (Finset.mem_range.mp hx))]

theorem move_pcs : (s.move c p h).pcs = Function.update s.pcs c (some p) := rfl

theorem pcs_move {x : ℕ} {q : Pc} (hq : (s.move c p h).pcs x = some q) :
    x = c ∧ q = p ∨ x ≠ c ∧ s.pcs x = some q := by
  rw [move_pcs] at hq
  by_cases hx : x = c
  · rw [hx, Function.update_self] at hq
    exact .inl ⟨hx, (Option.some.inj hq).symm⟩
  · rw [Function.update_of_ne hx] at hq
    exact .inr ⟨hx, hq⟩

theorem held_move (hs : ∀ x q, s.pcs x = some q → s.held x = q.holds) {x : ℕ} {q : Pc}
    (hq : (s.move c p p.holds).pcs x = some q) : (s.move c p p.holds).held x = q.holds := by
  rcases pcs_move hq with ⟨rfl, rfl⟩ | ⟨hx, hold⟩
  · exact Function.update_self x q.holds s.held
  · rw [← hs x q hold]
    exact Function.update_of_ne hx p.holds s.held

end Total

structure Inv (limit : ℕ) (s : State) : Prop where
  accepted : ∀ c pc, s.pcs c = some pc → c < s.accepted
  held : ∀ c pc, s.pcs c = some pc → s.held c = pc.holds
  total : s.total ≤ limit

section Invariant

variable {limit : ℕ} {s t : State} {a : Action}

theorem inv_init (limit : ℕ) : Inv limit init where
  accepted := fun _ _ h => nomatch h
  held := fun _ _ h => nomatch h
  total := Nat.zero_le limit

theorem Inv.accept (h : Inv limit s) (htotal : s.total < limit) : Inv limit s.accept where
  accepted := fun c pc hpc => by
    rcases pcs_move (h := [.conn]) hpc with ⟨rfl, -⟩ | ⟨-, hold⟩
    · exact Nat.lt_succ_self s.accepted
    · exact Nat.lt_succ_of_lt (h.accepted c pc hold)
  held := fun _ _ hpc => held_move (p := .accepted) h.held hpc
  total := by
    rw [total_accept]
    exact htotal

theorem Inv.move (h : Inv limit s) {c : ℕ} (hc : c < s.accepted) {pc : Pc}
    (htotal : pc.holds.length ≤ (s.held c).length ∨
      s.total < limit ∧ pc.holds.length ≤ (s.held c).length + 1) :
    Inv limit (s.move c pc pc.holds) where
  accepted := fun x q hq => by
    rcases pcs_move hq with ⟨rfl, -⟩ | ⟨-, hold⟩
    · exact hc
    · exact h.accepted x q hold
  held := fun _ _ hq => held_move h.held hq
  total := by
    have hmove := total_move (p := pc) (h := pc.holds) hc
    have hle := h.total
    omega

/-- What a step without the collector does: a new connection, a call of one handler, or
the end of the process. -/
theorem step_cases (h : Inv limit s) (ha : Uncollected s a) (hs : step limit s a = some t) :
    (s.total < limit ∧ t = s.accept) ∨
    (∃ c pc pc' call, s.pcs c = some pc ∧ pc.call pc.holds call = some (pc', pc'.holds) ∧
      (pc'.holds.length ≤ pc.holds.length ∨ s.total < limit) ∧ t = s.move c pc' pc'.holds) ∨
    ∃ code, t = { s with exited := some code } := by
  cases a with
  | accept =>
    simp only [step] at hs
    split at hs
    · split at hs
      · rename_i htotal
        cases hs
        exact .inl ⟨htotal, rfl⟩
      · cases hs
        exact .inr (.inr ⟨1, rfl⟩)
    · cases hs
  | call c call =>
    simp only [step] at hs
    split at hs
    · rename_i pc hpc
      have hheld := h.held c pc hpc
      rw [hheld] at hs
      split at hs
      · rename_i pc' held hcall
        obtain ⟨hg, he⟩ := Option.ite_none_right_eq_some.mp hs
        cases he
        obtain rfl := call_holds hcall
        exact .inr (.inl ⟨c, pc, pc', call, hpc, hcall, hg.2, rfl⟩)
      · cases hs
    · cases hs
  | dialNil c =>
    obtain ⟨-, he⟩ := Option.ite_none_right_eq_some.mp hs
    cases he
    exact .inr (.inr ⟨2, rfl⟩)
  | collect c => exact absurd rfl (ha c)

/-- A call opens one descriptor at most. -/
theorem call_length {pc pc' : Pc} {call : Call} {held : List Descriptor}
    (h : pc.call pc.holds call = some (pc', held)) : held.length ≤ pc.holds.length + 1 := by
  unfold Pc.call at h
  split at h
  case h_13 socket =>
    cases h
    cases socket <;> decide
  all_goals
    cases h
    try decide

theorem Inv.step (h : Inv limit s) (ha : Uncollected s a) (hs : step limit s a = some t) :
    Inv limit t := by
  rcases step_cases h ha hs with ⟨htotal, rfl⟩ | ⟨c, pc, pc', call, hpc, hcall, hopen, rfl⟩ |
    ⟨code, rfl⟩
  · exact h.accept htotal
  · apply h.move (h.accepted c pc hpc)
    rw [h.held c pc hpc]
    rcases hopen with hopen | hopen
    · exact .inl hopen
    · exact .inr ⟨hopen, call_length hcall⟩
  · exact ⟨h.accepted, h.held, h.total⟩

theorem inv_of_run (h : Inv limit s) (hrun : Run (Descriptors.step limit) Uncollected s t) :
    Inv limit t :=
  hrun.invariant h fun _ _ _ hi ha hs => hi.step ha hs

/-! ### What is left behind -/

theorem mem_leaked {c : ℕ} :
    c ∈ s.leaked ↔ c < s.accepted ∧ ∃ pc, s.pcs c = some pc ∧ pc.leaks = true := by
  rw [State.leaked, Finset.mem_filter, Finset.mem_range, Option.any_eq_true]

theorem leaked_step (h : Inv limit s) (ha : Uncollected s a) (hs : step limit s a = some t) :
    s.leaked ⊆ t.leaked := by
  intro x hx
  obtain ⟨hlt, q, hq, hleak⟩ := mem_leaked.mp hx
  rcases step_cases h ha hs with ⟨-, rfl⟩ | ⟨c, pc, pc', call, hpc, hcall, -, rfl⟩ | ⟨code, rfl⟩
  · have hne : x ≠ s.accepted := Nat.ne_of_lt hlt
    refine mem_leaked.mpr ⟨Nat.lt_succ_of_lt hlt, q, ?_, hleak⟩
    exact (Function.update_of_ne hne _ s.pcs).trans hq
  · have hne : x ≠ c := by
      rintro rfl
      obtain rfl := Option.some.inj (hpc.symm.trans hq)
      cases pc with
      | returned r =>
        rw [returned_stays] at hcall
        cases hcall
      | _ => cases hleak
    refine mem_leaked.mpr ⟨hlt, q, ?_, hleak⟩
    exact (Function.update_of_ne hne _ s.pcs).trans hq
  · exact hx

theorem leaked_run (h : Inv limit s) (hrun : Run (Descriptors.step limit) Uncollected s t) :
    s.leaked ⊆ t.leaked :=
  (hrun.invariant (P := fun t => Inv limit t ∧ s.leaked ⊆ t.leaked) ⟨h, subset_rfl⟩
    fun _ _ _ hi ha hs => ⟨hi.1.step ha hs, hi.2.trans (leaked_step hi.1 ha hs)⟩).2

/-- A handler that has left nothing behind has its descriptors besides those left behind. -/
theorem leaked_add_holds (h : Inv limit s) {c : ℕ} {pc : Pc} (hc : s.pcs c = some pc)
    (hleak : pc.leaks = false) : s.leaked.card + pc.holds.length ≤ s.total := by
  have hnot : c ∉ s.leaked := by
    intro hmem
    obtain ⟨-, q, hq, hqleak⟩ := mem_leaked.mp hmem
    obtain rfl := Option.some.inj (hc.symm.trans hq)
    rw [hleak] at hqleak
    cases hqleak
  have hsub : insert c s.leaked ⊆ Finset.range s.accepted := by
    apply Finset.insert_subset
    · exact Finset.mem_range.mpr (h.accepted c _ hc)
    · exact Finset.filter_subset _ _
  have hcard : s.leaked.card ≤ ∑ x ∈ s.leaked, (s.held x).length := by
    rw [Finset.card_eq_sum_ones]
    apply Finset.sum_le_sum
    intro x hx
    obtain ⟨-, q, hq, hqleak⟩ := mem_leaked.mp hx
    rw [h.held x q hq]
    exact holds_of_leaks hqleak
  have hsum : ∑ x ∈ insert c s.leaked, (s.held x).length ≤ s.total :=
    Finset.sum_le_sum_of_subset hsub
  rw [Finset.sum_insert hnot, h.held c pc hc] at hsum
  omega

/-- Where a handler is without a copy of its descriptor. -/
def Pc.Uncopied (pc : Pc) : Prop := pc = .accepted ∨ pc = .returned .noFile

theorem call_uncopied {pc pc' : Pc} {call : Call} {held : List Descriptor} (hpc : pc.Uncopied)
    (h : pc.call held call = some (pc', pc'.holds)) : pc'.Uncopied ∨ pc' = .filed := by
  rcases hpc with rfl | rfl
  · cases call with
    | file ok =>
      cases ok with
      | true =>
        cases (Prod.mk.inj (Option.some.inj h)).1
        exact .inr rfl
      | false =>
        cases (Prod.mk.inj (Option.some.inj h)).1
        exact .inl (.inr rfl)
    | _ => cases h
  · rw [returned_stays] at h
    cases h

/-- The copy would be one descriptor too many. -/
theorem uncopied_step {n : ℕ} (h : Inv limit s) (hleaked : limit ≤ s.leaked.card + 1)
    (hs : ∀ c pc, n ≤ c → s.pcs c = some pc → pc.Uncopied) (ha : Uncollected s a)
    (hstep : step limit s a = some t) : ∀ c pc, n ≤ c → t.pcs c = some pc → pc.Uncopied := by
  intro x q hx hq
  have ht := h.step ha hstep
  have hcard := Finset.card_le_card (leaked_step h ha hstep)
  rcases step_cases h ha hstep with ⟨-, rfl⟩ | ⟨c, pc, pc', call, hpc, hcall, -, rfl⟩ | ⟨code, rfl⟩
  · rcases pcs_move (h := [.conn]) hq with ⟨-, rfl⟩ | ⟨-, hold⟩
    · exact .inl rfl
    · exact hs x q hx hold
  · rcases pcs_move hq with ⟨rfl, rfl⟩ | ⟨-, hold⟩
    · rcases call_uncopied (hs x pc hx hpc) hcall with hun | rfl
      · exact hun
      · have hheld := leaked_add_holds ht hq rfl
        have htotal := ht.total
        have htwo : Pc.filed.holds.length = 2 := rfl
        omega
    · exact hs x q hx hold
  · exact hs x q hx hq

end Invariant

/-- Until the collector runs, each handler has open what `holds` says, so that a refused
dial leaves a descriptor behind; and after `limit - 1` handlers that left one behind no new
connection gets further than the copy of its descriptor. -/
theorem refused_dials_end_service {limit : ℕ} {s : State}
    (h : Run (step limit) Uncollected init s) :
    (∀ c pc, s.pcs c = some pc → s.held c = pc.holds) ∧
      (limit ≤ s.leaked.card + 1 → ∀ t, Run (step limit) Uncollected s t →
        ∀ c pc, s.accepted ≤ c → t.pcs c = some pc → pc.Uncopied) := by
  have hi := inv_of_run (inv_init limit) h
  refine ⟨hi.held, ?_⟩
  intro hleaked t hrun
  have hstart : ∀ c pc, s.accepted ≤ c → s.pcs c = some pc → pc.Uncopied := by
    intro c pc hc hpc
    exact absurd (hi.accepted c pc hpc) (Nat.not_lt.mpr hc)
  have hleft : ∀ u, Run (step limit) Uncollected s u →
      Inv limit u ∧ s.leaked.card ≤ u.leaked.card := by
    intro u hu
    exact ⟨inv_of_run hi hu, Finset.card_le_card (leaked_run hi hu)⟩
  apply hrun.invariant_under hleft hstart
  intro u a v hu hun ha hstep
  exact uncopied_step hu.1 (by omega) hun ha hstep

section Example

def refusedDial : List Action :=
  [.accept, .call 0 (.file true), .call 0 .close, .call 0 (.sockopt true),
    .call 0 (.fileConn true), .call 0 (.tcpConn true), .call 0 (.dial none)]

/-- With two descriptors one refused dial is enough. -/
theorem one_refused_dial :
    ∃ s, Run (step 2) Uncollected init s ∧ s.pcs 0 = some (.returned .noDial) ∧
      ∀ t, Run (step 2) Uncollected s t →
        ∀ c pc, s.accepted ≤ c → t.pcs c = some pc → pc.Uncopied := by
  have hexec : ∃ s, exec (step 2) init refusedDial = some s ∧
      s.pcs 0 = some (.returned .noDial) ∧ s.leaked.card = 1 := by
    refine ⟨_, rfl, ?_, ?_⟩
    · decide
    · decide
  obtain ⟨s, hs, hpc, hcard⟩ := hexec
  have hrun : Run (step 2) Uncollected init s := by
    apply (run_of_exec_all (p := fun a => ∀ c, a ≠ .collect c) ?_ hs).mono
    · intro _ _ ha
      exact ha
    · intro a ha c he
      subst he
      revert ha
      simp [refusedDial]
  exact ⟨s, hrun, hpc, (refused_dials_end_service hrun).2 (by rw [hcard])⟩

end Example

end SshTunnel.Proxies.Descriptors
