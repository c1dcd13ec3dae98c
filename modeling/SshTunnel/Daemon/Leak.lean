import SshTunnel.Daemon.Connect
import SshTunnel.Daemon.Lock

/-!
# After a leaked read lock (`dialer/sshdialer.go:170-174`, `194-235`)

A call that returns under the read lock leaves a hold that nobody gives back. From
then on no writer ever gets the lock: the client that is set stays, dead or not, no
connector is made any more, and whoever waits for the write lock waits forever.
-/

namespace SshTunnel.Daemon

open Lib.Runs

/-- A read hold whose thread is not between its acquisition and its release. -/
def State.Leaked (s : State) : Prop :=
  ∃ t, (if (s.threads t).reads then 1 else 0) < s.core.readers.count t

/-- The thread waits for the write lock. -/
def Pc.awaitsWrite : Pc → Bool
  | .dialLock _ | .getLock _ => true
  | _ => false

theorem Pc.awaitsWrite_eq {pc : Pc} (h : pc.awaitsWrite = true) :
    (∃ client, pc = .dialLock client) ∨ ∃ g, pc = .getLock g := by
  cases pc with
  | dialLock client => exact .inl ⟨client, rfl⟩
  | getLock g => exact .inr ⟨g, rfl⟩
  | _ => cases h

theorem Pc.awaitsWrite_atRest {pc : Pc} (h : pc.awaitsWrite = true) : pc.atRest = false := by
  obtain ⟨client, rfl⟩ | ⟨g, rfl⟩ := awaitsWrite_eq h <;> rfl

section Steps

variable {env : Env} {s u : State} {a : Action} {t : ℕ}

theorem State.Leaked.readers (hl : s.Leaked) : s.core.readers ≠ [] := by
  intro hnil
  obtain ⟨t, ht⟩ := hl
  rw [hnil, List.count_nil] at ht
  omega

theorem State.Leaked.frame (hl : s.Leaked) (hr : u.core.readers = s.core.readers)
    (ht : ∀ t, (u.threads t).reads = true → (s.threads t).reads = true) : u.Leaked := by
  obtain ⟨t, hcount⟩ := hl
  refine ⟨t, ?_⟩
  rw [hr]
  have hreads := ht t
  split
  · rename_i hu
    rw [if_pos (hreads hu)] at hcount
    exact hcount
  · omega

/-- A step of a thread gives back no hold but its own. -/
theorem LockStep.leaked {d : Core} {pc : Pc} (hl : s.Leaked)
    (h : LockStep t s.core d (s.threads t) pc) : ({ s with core := d }.setThread t pc).Leaked := by
  have hnil := hl.readers
  obtain ⟨t', hcount⟩ := hl
  refine ⟨t', ?_⟩
  rw [setThread_threads]
  show _ < d.readers.count t'
  by_cases he : t' = t
  · rw [if_pos he]
    subst he
    cases h with
    | keep hr _ hreads =>
      rw [hr]
      rcases hreads with hsame | ⟨-, hno⟩
      · rw [hsame]
        exact hcount
      · rw [hno]
        simp only [Bool.false_eq_true, if_false]
        omega
    | rLock _ hr _ hreads =>
      rw [hreads.1] at hcount
      rw [hr, hreads.2, List.count_cons_self]
      simp only [Bool.false_eq_true, if_false, if_true] at hcount ⊢
      omega
    | rUnlock hr _ hreads =>
      rw [hreads.1] at hcount
      rw [hr, hreads.2, List.count_erase_self]
      simp only [Bool.false_eq_true, if_false, if_true] at hcount ⊢
      omega
    | lock _ hr => exact (hnil hr).elim
    | unlock hr _ _ hreads =>
      rw [hr, hreads]
      simp only [Bool.false_eq_true, if_false]
      omega
  · rw [if_neg he]
    cases h with
    | keep hr => exact hr ▸ hcount
    | rLock _ hr =>
      rw [hr, List.count_cons_of_ne (Ne.symm he)]
      exact hcount
    | rUnlock hr =>
      rw [hr, List.count_erase_of_ne he]
      exact hcount
    | lock _ hr => exact (hnil hr).elim
    | unlock hr => exact hr ▸ hcount

theorem step_leaked (hl : s.Leaked) (h : step env s a = some u) : u.Leaked := by
  cases a with
  | call t e =>
    obtain ⟨hrest, rfl⟩ := step_call h
    obtain ⟨hr, hw, -⟩ := Pc.atRest_free hrest
    refine LockStep.leaked (d := s.core) hl (.keep rfl rfl (.inl ?_) (.inl ?_))
    · cases e <;> exact hr.symm
    · cases e <;> exact hw.symm
  | serve t c sid inp =>
    obtain ⟨hrest, -, k, -, rfl⟩ := step_serve h
    obtain ⟨hr, hw, -⟩ := Pc.atRest_free hrest
    exact LockStep.leaked hl (.keep rfl rfl (.inl hr.symm) (.inl hw.symm))
  | connector c a =>
    obtain ⟨-, -, k, -, rfl⟩ := step_connector h
    exact hl.frame (outside_lock env s.core c a).1 fun _ h => h
  | thread t o =>
    obtain ⟨d, pc, hc, rfl⟩ := step_thread h
    exact LockStep.leaked hl (threadStep_lockStep hc)

/-- A thread that leaves a leaking path has left its hold behind. -/
theorem leak_of_return {o : DialOutcome} (hex : s.Exclusive) (hpc : (s.threads t).leaking = true)
    (h : step env s (.thread t o) = some u) (hret : (u.threads t).leaking = false) : u.Leaked := by
  obtain ⟨d, pc, hc, rfl⟩ := step_thread h
  have hreads : (s.threads t).reads = true := by
    cases hp : s.threads t <;> rw [hp] at hpc <;> first | rfl | cases hpc
  rw [setThread_threads, if_pos rfl] at hret
  have hmem := List.count_pos_iff.mpr (hex.readers t hreads)
  refine ⟨t, ?_⟩
  rw [setThread_threads, if_pos rfl]
  show _ < d.readers.count t
  cases hm : s.threads t with
  | connectHeld k =>
    rw [hm] at hc
    cases hc
    rcases afterConnect_cases s.core.client none k with ⟨r, hr⟩ | ⟨c, hr⟩ <;> rw [hr] <;> exact hmem
  | getHeld g =>
    rw [hm] at hc
    rcases afterGet_cases hc with ⟨rfl, rfl | rfl⟩ | ⟨_, _, _, -, -, rfl, -, rfl⟩ <;> exact hmem
  | getInteractive g =>
    rw [hm] at hc
    simp only [threadStep] at hc
    split at hc
    · cases hc
      exact hmem
    · obtain ⟨_, -, he⟩ := Option.map_eq_some_iff.mp hc
      cases he
      cases hret
  | _ =>
    rw [hm] at hpc
    cases hpc

/-- What a leaked hold keeps as it is. -/
structure Stuck (s u : State) : Prop where
  leaked : u.Leaked
  writer : u.core.writer = none
  created : u.core.created = s.core.created
  client : s.core.client.isSome = true → u.core.client.isSome = true
  waits : ∀ t, (s.threads t).awaitsWrite = true → u.threads t = s.threads t

theorem Stuck.of_leaked (hex : s.Exclusive) (hl : s.Leaked) : Stuck s s :=
  ⟨hl, hex.apart.resolve_right hl.readers, rfl, id, fun _ _ => rfl⟩

/-- With a leaked hold no thread is inside a write section. -/
theorem not_writes (hex : s.Exclusive) (hl : s.Leaked) (t : ℕ) : (s.threads t).writes = false := by
  cases hw : (s.threads t).writes with
  | false => rfl
  | true =>
    have hwriter := hex.writer t hw
    rw [hex.apart.resolve_right hl.readers] at hwriter
    cases hwriter

theorem step_stuck (hex : s.Exclusive) (hex' : u.Exclusive) (hl : s.Leaked)
    (h : step env s a = some u) : Stuck s u := by
  have hleaked := step_leaked hl h
  have hwriter := hex'.apart.resolve_right hleaked.readers
  cases a with
  | call t e =>
    obtain ⟨hrest, rfl⟩ := step_call h
    refine ⟨hleaked, hwriter, rfl, id, fun t' ht => ?_⟩
    rw [setThread_threads, if_neg]
    intro he
    rw [← he, Pc.awaitsWrite_atRest ht] at hrest
    cases hrest
  | serve t c sid inp =>
    obtain ⟨hrest, -, k, -, rfl⟩ := step_serve h
    refine ⟨hleaked, hwriter, rfl, id, fun t' ht => ?_⟩
    rw [setThread_threads, if_neg]
    intro he
    rw [← he, Pc.awaitsWrite_atRest ht] at hrest
    cases hrest
  | connector c a =>
    obtain ⟨-, -, k, -, rfl⟩ := step_connector h
    refine ⟨hleaked, hwriter, (outside_connectors env s.core c a).2.1, fun hc => ?_,
      fun _ _ => rfl⟩
    show (s.core.outside env c a).client.isSome = true
    unfold Core.outside
    split
    · split
      · rfl
      · exact hc
      · exact hc
    · split <;> exact hc
    · exact hc
    · exact hc
  | thread t o =>
    obtain ⟨d, pc, hc, rfl⟩ := step_thread h
    have hw := not_writes hex hl t
    refine ⟨hleaked, hwriter, ?_, fun hsome => ?_, fun t' ht => ?_⟩
    · show d.created = s.core.created
      cases threadStep_connectors hc with
      | keep _ hcreated | loop _ _ _ _ hcreated | interactive _ _ _ _ _ _ hcreated => exact hcreated
      | new g hg =>
        rw [hg] at hw
        cases hw
    · show d.client.isSome = true
      rcases threadStep_client hc with he | ⟨client, hp, -⟩
      · rw [he]
        exact hsome
      · rw [hp] at hw
        cases hw
    · rw [setThread_threads, if_neg]
      intro he
      -- the write lock is not given while somebody reads
      have hblocked : s.core.lock t = none := if_neg fun hfree => hl.readers hfree.2
      rw [he] at ht
      obtain ⟨client, hp⟩ | ⟨g, hp⟩ := Pc.awaitsWrite_eq ht <;> rw [hp] at hc <;>
        simp [threadStep, hblocked] at hc

theorem run_stuck {G : State → Action → Prop} (hex : s.Exclusive) (hl : s.Leaked)
    (h : Run (step env) G s u) : Stuck s u ∧ u.Exclusive := by
  refine h.invariant (P := fun u => Stuck s u ∧ u.Exclusive) ⟨.of_leaked hex hl, hex⟩ ?_
  intro m a u hm _ he
  obtain ⟨hs, hmex⟩ := hm
  have huex := step_exclusive hmex he
  have hu := step_stuck hmex huex hs.leaked he
  refine ⟨⟨hu.leaked, hu.writer, hu.created.trans hs.created, fun hc => hu.client (hs.client hc),
    fun t ht => ?_⟩, huex⟩
  have heq := hs.waits t ht
  rw [← heq] at ht
  exact (hu.waits t ht).trans heq

end Steps

/-- A call that returns on a path without the release leaks its hold, and after a
leak, whatever else is called, no thread gets the write lock: the client that was
set is never discarded, no connector is allocated, and a `Dial` or `GetConnector`
that waits for the write lock never goes on. -/
theorem leaked_lock_blocks_writers {env : Env} {s : State}
    (h : Reach (step env) (init env) s) :
    (∀ t o u, (s.threads t).leaking = true → step env s (.thread t o) = some u →
      (u.threads t).leaking = false → u.Leaked) ∧
    (s.Leaked → ∀ u, Reach (step env) s u → Stuck s u) :=
  ⟨fun _ _ _ hpc hstep hret => leak_of_return (run_exclusive h) hpc hstep hret,
    fun hl _ hu => (run_stuck (run_exclusive h) hl hu).1⟩

/-- Three calls of `GetConnector`: the third waits for the write lock while the first
makes the connector, and the second returns under the read lock. -/
theorem getConnector_waits_forever :
    ∃ s : State, Reach (step sampleEnv) (init sampleEnv) s ∧ (s.threads 2).awaitsWrite = true ∧
      ∀ u : State, Reach (step sampleEnv) s u → u.threads 2 = s.threads 2 ∧ u.core.created = 1 := by
  obtain ⟨s, hr, hs⟩ := reach_of_check (step sampleEnv) (init sampleEnv)
    (.call 2 (.getConnector true) :: steps 2 3 ++ .call 0 (.getConnector true) :: steps 0 8 ++
      .call 1 (.getConnector true) :: steps 1 4)
    (fun s => (s.threads 2).awaitsWrite && s.core.readers = [1] && (s.threads 1).atRest &&
      s.core.created = 1) (by decide)
  simp only [Bool.and_eq_true, decide_eq_true_eq] at hs
  obtain ⟨⟨⟨hwaits, hreaders⟩, hrest⟩, hcreated⟩ := hs
  have hleaked : s.Leaked := by
    refine ⟨1, ?_⟩
    rw [(Pc.atRest_free hrest).1, hreaders]
    decide
  refine ⟨s, hr, hwaits, fun u hu => ?_⟩
  have hstuck := (leaked_lock_blocks_writers hr).2 hleaked u hu
  exact ⟨hstuck.waits 2 hwaits, hstuck.created.trans hcreated⟩

end SshTunnel.Daemon
