import SshTunnel.Daemon.Step

/-!
# `SSHDialer.lock`

`Connect` and `GetConnector` each have a return path that keeps the read lock:
the one taken when the field they test is set. Without these paths every call
gives back what it took, and a dialer at rest has a free lock.
-/

namespace SshTunnel.Daemon

open Lib.Runs
open Lib.Net (Text)

/-- The thread has a read hold. -/
def Pc.reads : Pc → Bool
  | .dialRead | .dialRUnlock _ | .connectTest _ | .connectHeld _ | .connectRUnlock _ | .getTest _
  | .getInteractive _ | .getHeld _ | .getRUnlock _ => true
  | _ => false

/-- The thread has the write hold. -/
def Pc.writes : Pc → Bool
  | .dialClear _ | .dialUnlock | .getNew _ | .getGo _ | .getReturn _ | .getUnlock .. => true
  | _ => false

/-- The thread is on a path that returns under the read lock. -/
def Pc.leaking : Pc → Bool
  | .connectHeld _ | .getInteractive _ | .getHeld _ => true
  | _ => false

/-- No `Connect` finds a client and no `GetConnector` finds a connector. -/
def Unset (s : State) : Action → Prop
  | .thread t _ => (∀ k, s.threads t = .connectTest k → s.core.client = none) ∧
      ∀ g, s.threads t = .getTest g → s.core.sshConnector = none
  | _ => True

/-- What one step of a thread does to the lock. -/
inductive LockStep (t : ℕ) (d d' : Core) (pc pc' : Pc) : Prop
  | keep (hr : d'.readers = d.readers) (hw : d'.writer = d.writer)
      (hreads : pc'.reads = pc.reads ∨ pc.leaking = true ∧ pc'.reads = false)
      (hwrites : pc'.writes = pc.writes ∨ pc' = .panicked)
  | rLock (hw : d.writer = none) (hr : d'.readers = t :: d.readers) (hw' : d'.writer = none)
      (hreads : pc.reads = false ∧ pc'.reads = true) (hwrites : pc'.writes = false)
  | rUnlock (hr : d'.readers = d.readers.erase t) (hw : d'.writer = d.writer)
      (hreads : pc.reads = true ∧ pc'.reads = false) (hwrites : pc'.writes = false)
  | lock (hw : d.writer = none) (hr : d.readers = []) (hr' : d'.readers = [])
      (hw' : d'.writer = some t) (hreads : pc'.reads = false) (hwrites : pc'.writes = true)
  | unlock (hr : d'.readers = d.readers) (hw : d'.writer = none)
      (hwrites : pc.writes = true ∧ pc'.writes = false) (hreads : pc'.reads = false)

section LockStep

variable {env : Env} {t : ℕ} {d d' : Core} {pc pc' : Pc}

theorem threadStep_lockStep {o : DialOutcome} (h : threadStep env t o d pc = some (d', pc')) :
    LockStep t d d' pc pc' := by
  cases pc with
  | idle | returned | panicked => cases h
  | dialRLock | connectRLock | getRLock =>
    obtain ⟨_, hr, he⟩ := Option.map_eq_some_iff.mp h
    cases he
    simp only [Core.rLock, Option.ite_none_right_eq_some, Option.some.injEq] at hr
    obtain ⟨hw, rfl⟩ := hr
    exact .rLock hw rfl hw ⟨rfl, rfl⟩ rfl
  | dialRUnlock client =>
    cases h
    cases client <;> exact .rUnlock rfl rfl ⟨rfl, rfl⟩ rfl
  | connectRUnlock | getRUnlock =>
    cases h
    exact .rUnlock rfl rfl ⟨rfl, rfl⟩ rfl
  | dialLock | getLock =>
    obtain ⟨_, hr, he⟩ := Option.map_eq_some_iff.mp h
    cases he
    simp only [Core.lock, Option.ite_none_right_eq_some, Option.some.injEq] at hr
    obtain ⟨⟨hw, hr⟩, rfl⟩ := hr
    exact .lock hw hr hr rfl rfl rfl
  | dialUnlock =>
    cases h
    exact .unlock rfl rfl ⟨rfl, rfl⟩ rfl
  | getUnlock g c =>
    rcases afterGet_cases h with ⟨rfl, rfl | rfl⟩ | ⟨k, c', conn, -, -, rfl, -, rfl⟩ <;>
      exact .unlock rfl rfl ⟨rfl, rfl⟩ rfl
  | getHeld g =>
    rcases afterGet_cases h with ⟨rfl, rfl | rfl⟩ | ⟨k, c', conn, -, -, rfl, -, rfl⟩ <;>
      exact .keep rfl rfl (.inr ⟨rfl, rfl⟩) (.inl rfl)
  | connectHeld k =>
    cases h
    rcases afterConnect_cases d.client none k with ⟨r, hr⟩ | ⟨c, hr⟩ <;> rw [hr] <;>
      exact .keep rfl rfl (.inr ⟨rfl, rfl⟩) (.inl rfl)
  | getInteractive g =>
    simp only [threadStep] at h
    split at h
    · cases h
      exact .keep rfl rfl (.inr ⟨rfl, rfl⟩) (.inl rfl)
    · obtain ⟨_, hs, he⟩ := Option.map_eq_some_iff.mp h
      cases he
      obtain ⟨k, -, rfl⟩ := stepConnector_eq hs
      exact .keep rfl rfl (.inl rfl) (.inl rfl)
  | getGo g =>
    simp only [threadStep] at h
    split at h <;> cases h
    · exact .keep rfl rfl (.inl rfl) (.inr rfl)
    · exact .keep rfl rfl (.inl rfl) (.inl rfl)
  | connectTest k | clientTest k c =>
    cases h
    split <;> exact .keep rfl rfl (.inl rfl) (.inl rfl)
  | getTest g =>
    cases h
    split
    · split <;> exact .keep rfl rfl (.inl rfl) (.inl rfl)
    · exact .keep rfl rfl (.inl rfl) (.inl rfl)
  | dialFirst client => cases o <;> cases h <;> exact .keep rfl rfl (.inl rfl) (.inl rfl)
  | dialSecond client => cases client <;> cases h <;> exact .keep rfl rfl (.inl rfl) (.inl rfl)
  | loop k c | serving c =>
    simp only [threadStep, Option.ite_none_right_eq_some, Option.some.injEq] at h
    cases h.2
    exact .keep rfl rfl (.inl rfl) (.inl rfl)
  | clientRead k =>
    cases h
    rcases afterConnect_cases d.client none k with ⟨r, hr⟩ | ⟨c, hr⟩ <;> rw [hr] <;>
      exact .keep rfl rfl (.inl rfl) (.inl rfl)
  | errRead k c =>
    cases h
    rcases afterConnect_cases none (d.connectors c).sh.err k with ⟨r, hr⟩ | ⟨c', hr⟩ <;> rw [hr] <;>
      exact .keep rfl rfl (.inl rfl) (.inl rfl)
  | dialRead | dialClear | getNew | getReturn =>
    cases h
    exact .keep rfl rfl (.inl rfl) (.inl rfl)

/-- The leaking paths are entered by the two tests only. -/
theorem threadStep_leaking {o : DialOutcome} (hl : pc.leaking = false)
    (hc : ∀ k, pc = .connectTest k → d.client = none)
    (hg : ∀ g, pc = .getTest g → d.sshConnector = none)
    (h : threadStep env t o d pc = some (d', pc')) : pc'.leaking = false := by
  cases pc with
  | connectHeld | getInteractive | getHeld => cases hl
  | connectTest k =>
    cases h
    rw [hc k rfl]
    rfl
  | getTest g =>
    cases h
    rw [hg g rfl]
    rfl
  | getUnlock g c =>
    rcases afterGet_cases h with ⟨-, rfl | rfl⟩ | ⟨_, _, _, -, -, rfl, -, -⟩ <;> rfl
  | clientRead k =>
    cases h
    rcases afterConnect_cases d.client none k with ⟨r, hr⟩ | ⟨c, hr⟩ <;> rw [hr] <;> rfl
  | errRead k c =>
    cases h
    rcases afterConnect_cases none (d.connectors c).sh.err k with ⟨r, hr⟩ | ⟨c', hr⟩ <;> rw [hr] <;>
      rfl
  | dialRLock | connectRLock | getRLock | dialLock | getLock =>
    obtain ⟨_, -, he⟩ := Option.map_eq_some_iff.mp h
    cases he
    rfl
  | dialRUnlock cl | dialSecond cl => cases cl <;> cases h <;> rfl
  | dialFirst cl => cases o <;> cases h <;> rfl
  | clientTest k c =>
    cases h
    split <;> rfl
  | getGo g =>
    simp only [threadStep] at h
    split at h <;> cases h <;> rfl
  | loop k c | serving c =>
    simp only [threadStep, Option.ite_none_right_eq_some, Option.some.injEq] at h
    cases h.2
    rfl
  | idle | returned | panicked => cases h
  | _ =>
    cases h
    rfl

theorem Pc.reads_of_writes (h : pc.writes = true) : pc.reads = false := by
  cases pc <;> first | rfl | cases h

end LockStep

structure State.Balanced (s : State) : Prop where
  leaking : ∀ t, (s.threads t).leaking = false
  readers : ∀ t, s.core.readers.count t = if (s.threads t).reads then 1 else 0
  writer : ∀ t, s.core.writer = some t → (s.threads t).writes = true ∨ s.threads t = .panicked

section Steps

variable {env : Env} {s u : State} {t : ℕ}

theorem LockStep.readers {d d' : Core} {pc pc' : Pc} (h : LockStep t d d' pc pc')
    (hl : pc.leaking = false) (hr : d.readers.count t = if pc.reads then 1 else 0) :
    (d'.readers.count t = if pc'.reads then 1 else 0) ∧
      ∀ t', t' ≠ t → d'.readers.count t' = d.readers.count t' := by
  cases h with
  | keep hr' _ hreads =>
    rw [hr']
    have hsame : pc'.reads = pc.reads := hreads.resolve_right fun ⟨hleak, _⟩ => by
      simp [hl] at hleak
    exact ⟨hsame ▸ hr, fun _ _ => rfl⟩
  | rLock _ hr' _ hreads =>
    rw [hr']
    refine ⟨?_, fun t' ht => List.count_cons_of_ne (Ne.symm ht)⟩
    simpa [hreads] using hr
  | rUnlock hr' _ hreads =>
    rw [hr']
    refine ⟨?_, fun t' ht => List.count_erase_of_ne ht⟩
    rw [List.count_erase_self, hr]
    simp [hreads]
  | lock _ hr' hr'' _ hreads =>
    rw [hr'', hr']
    exact ⟨by simp [hreads], fun _ _ => rfl⟩
  | unlock hr' _ hwrites hreads =>
    rw [hr']
    refine ⟨?_, fun _ _ => rfl⟩
    rw [hr, Pc.reads_of_writes hwrites.1, hreads]

theorem LockStep.writer {d d' : Core} {pc pc' : Pc} (h : LockStep t d d' pc pc')
    (hpc : d.writer = some t → pc.writes = true) {t' : ℕ} (hw : d'.writer = some t') :
    if t' = t then pc'.writes = true ∨ pc' = .panicked else d.writer = some t' := by
  cases h with
  | keep _ hw' _ hwrites =>
    rw [hw'] at hw
    split
    · rename_i he
      subst he
      exact hwrites.imp (fun hs => hs.trans (hpc hw)) id
    · exact hw
  | rLock _ _ hw' => cases hw'.symm.trans hw
  | rUnlock _ hw' hreads =>
    rw [hw'] at hw
    split
    · rename_i he
      subst he
      have := Pc.reads_of_writes (hpc hw)
      simp [hreads.1] at this
    · exact hw
  | lock _ _ _ hw' _ hwrites =>
    rw [hw'] at hw
    rw [if_pos (Option.some.inj hw).symm]
    exact .inl hwrites
  | unlock _ hw' => cases hw'.symm.trans hw

theorem State.Balanced.setThread {d : Core} {pc : Pc} (hs : s.Balanced)
    (hr : d.readers = s.core.readers) (hw : d.writer = s.core.writer)
    (hpc : pc.leaking = false ∧ pc.reads = false)
    (hrest : (s.threads t).reads = false ∧ (s.threads t).writes = false ∧
      s.threads t ≠ .panicked) :
    ({ s with core := d }.setThread t pc).Balanced := by
  refine ⟨fun t' => ?_, fun t' => ?_, fun t' h => ?_⟩
  · rw [setThread_threads]
    split
    · exact hpc.1
    · exact hs.leaking t'
  · show d.readers.count t' = _
    rw [setThread_threads, hr, hs.readers t']
    by_cases he : t' = t
    · rw [if_pos he, he, hrest.1, hpc.2]
    · rw [if_neg he]
  · rw [setThread_threads]
    have hold := hs.writer t' (hw ▸ h)
    split
    · rename_i he
      rw [he] at hold
      rcases hold with hold | hold
      · simp [hrest.2.1] at hold
      · exact (hrest.2.2 hold).elim
    · exact hold

theorem Pc.atRest_free {pc : Pc} (h : pc.atRest = true) :
    pc.reads = false ∧ pc.writes = false ∧ pc ≠ .panicked := by
  cases pc with
  | idle | returned => exact ⟨rfl, rfl, by simp⟩
  | _ => cases h

theorem outside_lock (env : Env) (d : Core) (c : ℕ) (a : Connector.Action) :
    (d.outside env c a).readers = d.readers ∧ (d.outside env c a).writer = d.writer := by
  unfold Core.outside
  split
  · split <;> exact ⟨rfl, rfl⟩
  · split <;> exact ⟨rfl, rfl⟩
  · exact ⟨rfl, rfl⟩
  · exact ⟨rfl, rfl⟩

theorem step_balanced {a : Action} (hs : s.Balanced) (hg : Unset s a)
    (h : step env s a = some u) : u.Balanced := by
  cases a with
  | call t e =>
    obtain ⟨hrest, rfl⟩ := step_call h
    exact hs.setThread rfl rfl (by cases e <;> exact ⟨rfl, rfl⟩) (Pc.atRest_free hrest)
  | serve t c sid inp =>
    obtain ⟨hrest, -, k, -, rfl⟩ := step_serve h
    exact hs.setThread rfl rfl ⟨rfl, rfl⟩ (Pc.atRest_free hrest)
  | connector c a =>
    obtain ⟨-, -, k, -, rfl⟩ := step_connector h
    obtain ⟨hr, hw⟩ := outside_lock env s.core c a
    refine ⟨hs.leaking, fun t => ?_, fun t ht => hs.writer t (hw ▸ ht)⟩
    show List.count t (s.core.outside env c a).readers = _
    rw [hr]
    exact hs.readers t
  | thread t o =>
    obtain ⟨d, pc, hc, rfl⟩ := step_thread h
    have hm := threadStep_lockStep hc
    obtain ⟨hself, hother⟩ := hm.readers (hs.leaking t) (hs.readers t)
    have hpc : s.core.writer = some t → (s.threads t).writes = true := fun hw =>
      (hs.writer t hw).resolve_right fun hp => by
        rw [hp] at hc
        cases hc
    refine ⟨fun t' => ?_, fun t' => ?_, fun t' ht => ?_⟩
    · rw [setThread_threads]
      split
      · exact threadStep_leaking (hs.leaking t) hg.1 hg.2 hc
      · exact hs.leaking t'
    · rw [setThread_threads]
      show d.readers.count t' = _
      split
      · rename_i he
        rw [he]
        exact hself
      · rename_i he
        rw [hother t' he]
        exact hs.readers t'
    · rw [setThread_threads]
      have hw := hm.writer hpc ht
      split at hw
      · rename_i he
        rw [if_pos he]
        exact hw
      · rename_i he
        rw [if_neg he]
        exact hs.writer t' hw

theorem run_balanced (h : Run (step env) Unset (init env) s) : s.Balanced := by
  refine h.invariant ⟨fun _ => rfl, fun _ => rfl, fun _ hw => (by cases hw)⟩ ?_
  intro t a u hs hg he
  exact step_balanced hs hg he

end Steps

/-- Read and write holds exclude each other. -/
structure State.Exclusive (s : State) : Prop where
  readers : ∀ t, (s.threads t).reads = true → t ∈ s.core.readers
  writer : ∀ t, (s.threads t).writes = true → s.core.writer = some t
  apart : s.core.writer = none ∨ s.core.readers = []

section Exclusion

variable {env : Env} {s u : State} {t : ℕ}

theorem State.Exclusive.setThread {d : Core} {pc : Pc} (hs : s.Exclusive)
    (h : LockStep t s.core d (s.threads t) pc) :
    ({ s with core := d }.setThread t pc).Exclusive := by
  have hother : ∀ t', t' ≠ t → ({ s with core := d }.setThread t pc).threads t' = s.threads t' :=
    fun t' hne => by rw [setThread_threads, if_neg hne]
  have hself : ({ s with core := d }.setThread t pc).threads t = pc := by
    rw [setThread_threads, if_pos rfl]
  -- the moving thread and the others, for each of the two kinds of hold
  suffices hd : (pc.reads = true → t ∈ d.readers) ∧ (pc.writes = true → d.writer = some t) ∧
      (∀ t', t' ≠ t → (s.threads t').reads = true → t' ∈ d.readers) ∧
      (∀ t', t' ≠ t → (s.threads t').writes = true → d.writer = some t') ∧
      (d.writer = none ∨ d.readers = []) by
    obtain ⟨hr, hw, hr', hw', hap⟩ := hd
    refine ⟨fun t' h' => ?_, fun t' h' => ?_, hap⟩
    · by_cases ht : t' = t
      · subst ht
        exact hr (hself ▸ h')
      · exact hr' t' ht (hother t' ht ▸ h')
    · by_cases ht : t' = t
      · subst ht
        exact hw (hself ▸ h')
      · exact hw' t' ht (hother t' ht ▸ h')
  cases h with
  | keep hr hw hreads hwrites =>
    rw [hr, hw]
    refine ⟨fun h => hs.readers t ?_, fun h => hs.writer t ?_, fun t' _ => hs.readers t',
      fun t' _ => hs.writer t', hs.apart⟩
    · rcases hreads with hsame | ⟨-, hno⟩
      · exact hsame ▸ h
      · simp [hno] at h
    · rcases hwrites with hsame | rfl
      · exact hsame ▸ h
      · cases h
  | rLock hw hr hw' _ hwrites =>
    rw [hr, hw']
    refine ⟨fun _ => .head _, fun h => ?_, fun t' _ h => .tail _ (hs.readers t' h),
      fun t' _ h => ?_, .inl rfl⟩
    · simp [hwrites] at h
    · exact hw.symm.trans (hs.writer t' h)
  | rUnlock hr hw hreads hwrites =>
    rw [hr, hw]
    refine ⟨fun h => ?_, fun h => ?_, fun t' hne h => ?_, fun t' _ => hs.writer t', ?_⟩
    · simp [hreads.2] at h
    · simp [hwrites] at h
    · exact (List.mem_erase_of_ne hne).mpr (hs.readers t' h)
    · exact hs.apart.imp id fun hnil => by rw [hnil]; rfl
  | lock hw hr hr' hw' hreads _ =>
    rw [hr', hw']
    refine ⟨fun h => ?_, fun _ => rfl, fun t' _ h => hr ▸ hs.readers t' h, fun t' _ h => ?_,
      .inr rfl⟩
    · simp [hreads] at h
    · cases hw.symm.trans (hs.writer t' h)
  | unlock hr hw hwrites hreads =>
    rw [hr, hw]
    refine ⟨fun h => ?_, fun h => ?_, fun t' _ => hs.readers t', fun t' hne h => ?_, .inl rfl⟩
    · simp [hreads] at h
    · simp [hwrites.2] at h
    · exact (hne (Option.some.inj ((hs.writer t' h).symm.trans (hs.writer t hwrites.1)))).elim

theorem step_exclusive {a : Action} (hs : s.Exclusive) (h : step env s a = some u) :
    u.Exclusive := by
  cases a with
  | call t e =>
    obtain ⟨hrest, rfl⟩ := step_call h
    obtain ⟨hr, hw, -⟩ := Pc.atRest_free hrest
    refine hs.setThread (d := s.core) (.keep rfl rfl (.inl ?_) (.inl ?_))
    · cases e <;> exact hr.symm
    · cases e <;> exact hw.symm
  | serve t c sid inp =>
    obtain ⟨hrest, -, k, -, rfl⟩ := step_serve h
    obtain ⟨hr, hw, -⟩ := Pc.atRest_free hrest
    exact hs.setThread (.keep rfl rfl (.inl hr.symm) (.inl hw.symm))
  | connector c a =>
    obtain ⟨-, -, k, -, rfl⟩ := step_connector h
    obtain ⟨hr, hw⟩ := outside_lock env s.core c a
    exact ⟨fun t h => hr ▸ hs.readers t h, fun t h => hw ▸ hs.writer t h, by
      show (s.core.outside env c a).writer = none ∨ (s.core.outside env c a).readers = []
      rw [hr, hw]
      exact hs.apart⟩
  | thread t o =>
    obtain ⟨d, pc, hc, rfl⟩ := step_thread h
    exact hs.setThread (threadStep_lockStep hc)

theorem run_exclusive {G : State → Action → Prop} (h : Run (step env) G (init env) s) :
    s.Exclusive :=
  h.invariant ⟨fun _ h => (by cases h), fun _ h => (by cases h), .inl rfl⟩
    fun _ _ _ hs _ he => step_exclusive hs he

theorem State.Exclusive.alone (hs : s.Exclusive) (hw : (s.threads t).writes = true) (t' : ℕ) :
    (s.threads t').reads = false := by
  have hnil : s.core.readers = [] := by
    refine hs.apart.resolve_left fun hnone => ?_
    simp [hs.writer t hw] at hnone
  cases hr : (s.threads t').reads with
  | false => rfl
  | true => simpa [hnil] using hs.readers t' hr

end Exclusion

/-- Every call that has returned has left the lock as it found it, and when all
calls have returned a writer can take it. -/
theorem lock_restored {env : Env} {s : State} (h : Run (step env) Unset (init env) s) :
    (∀ t, (s.threads t).atRest = true → t ∉ s.core.readers ∧ s.core.writer ≠ some t) ∧
    ((∀ t, (s.threads t).atRest = true) →
      s.core.readers = [] ∧ s.core.writer = none ∧ ∀ t, (s.core.lock t).isSome = true) := by
  have hs := run_balanced h
  have hrest : ∀ t, (s.threads t).atRest = true →
      t ∉ s.core.readers ∧ s.core.writer ≠ some t := by
    intro t ht
    obtain ⟨hr, hw, hp⟩ := Pc.atRest_free ht
    refine ⟨?_, fun hwt => ?_⟩
    · rw [← List.count_eq_zero, hs.readers t, hr]
      rfl
    · rcases hs.writer t hwt with h' | h'
      · simp [hw] at h'
      · exact hp h'
  refine ⟨hrest, fun hall => ?_⟩
  have hreaders : s.core.readers = [] :=
    List.eq_nil_iff_forall_not_mem.mpr fun t => (hrest t (hall t)).1
  have hwriter : s.core.writer = none := by
    cases hw : s.core.writer with
    | none => rfl
    | some t => exact ((hrest t (hall t)).2 hw).elim
  exact ⟨hreaders, hwriter, fun t => by simp [Core.lock, hreaders, hwriter]⟩

section Example

/-- The second `GetConnector` returns with the read lock. -/
theorem lock_not_restored :
    ¬∀ (env : Env) (s : State), Reach (step env) (init env) s →
      ∀ t, (s.threads t).atRest = true → t ∉ s.core.readers ∧ s.core.writer ≠ some t := by
  intro hall
  obtain ⟨s, hr, hs⟩ := reach_of_check (step sampleEnv) (init sampleEnv)
    (.call 0 (.getConnector true) :: steps 0 8 ++ .call 1 (.getConnector true) :: steps 1 4)
    (fun s => (s.threads 1).atRest && s.core.readers = [1]) (by decide)
  simp only [Bool.and_eq_true, decide_eq_true_eq] at hs
  have hn := (hall sampleEnv s hr 1 hs.1).1
  simp [hs.2] at hn

def unset (s : State) : Action → Bool
  | .thread t _ =>
    match s.threads t with
    | .connectTest _ => s.core.client = none
    | .getTest _ => s.core.sshConnector = none
    | _ => true
  | _ => true

theorem unset_sound {s : State} {a : Action} (h : unset s a = true) : Unset s a := by
  cases a with
  | thread t o =>
    refine ⟨fun k hk => ?_, fun g hg => ?_⟩
    · simpa [unset, hk] using h
    · simpa [unset, hg] using h
  | _ => trivial

theorem lock_restored_after_getConnector :
    ∃ s, Run (step sampleEnv) Unset (init sampleEnv) s ∧
      s.threads 0 = .returned (.connector (some 0)) ∧ 0 ∉ s.core.readers := by
  obtain ⟨s, hs, hp⟩ := (Option.any_eq_true ..).mp
    (show (exec (guarded unset (step sampleEnv)) (init sampleEnv)
      (.call 0 (.getConnector true) :: steps 0 8)).any
        (fun s => s.threads 0 = .returned (.connector (some 0))) = true by decide)
  have hpc := of_decide_eq_true hp
  have hpath : Run (step sampleEnv) Unset (init sampleEnv) s :=
    run_of_exec (I := fun _ => True) (fun _ _ _ _ _ _ => trivial)
      (fun _ _ _ => unset_sound) trivial hs
  exact ⟨s, hpath, hpc, ((lock_restored hpath).1 0 (by rw [hpc]; rfl)).1⟩

end Example

end SshTunnel.Daemon
