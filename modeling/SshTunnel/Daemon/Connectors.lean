import SshTunnel.Daemon.Step

/-!
# The connectors of the daemon

A thread of the dialer only starts loops and requests on a connector, sets its
`interactive` flag or allocates it; everything else is a step of the connector
itself. Seen alone, every connector of a run of the daemon therefore takes a run
of its own, and what is proved of a single connector holds of each of them.
-/

namespace SshTunnel.Daemon

open Lib.Runs

/-- How a thread of the dialer changes the connectors. -/
inductive ConnectorMove (env : Env) (d d' : Core) : Prop
  | keep (h : d'.connectors = d.connectors) (hc : d'.created = d.created)
  | step (c : ℕ) (a : Connector.Action) (k : Connector.State)
      (hk : Connector.step (env.connector c) (d.connectors c) a = some k)
      (h : d'.connectors = Function.update d.connectors c k) (hc : d'.created = d.created)
      (ha : internal a = false)
  | new (interactive : Bool)
      (h : d'.connectors = Function.update d.connectors d.created
        (Connector.init (env.connector d.created) interactive))
      (hc : d'.created = d.created + 1)

/-- What a thread of the dialer can do to the rest. -/
structure DialerMove (env : Env) (d d' : Core) : Prop where
  connectors : ConnectorMove env d d'
  asked : d'.asked = d.asked
  started : ∀ c, d'.started c = true → d.started c = true ∨ d.sshConnector = some c
  running : ∀ c, d.started c = true → d'.started c = true
  pointer : ∀ c, d'.sshConnector = some c →
    d.sshConnector = some c ∨ c = d.created ∧ d'.created = d.created + 1
  assigned : d.sshConnector.isSome = true → d'.sshConnector.isSome = true

section Steps

variable {env : Env} {s u : State} {a : Action}

theorem DialerMove.keep {d d' : Core} (h : d'.connectors = d.connectors)
    (hc : d'.created = d.created) (hq : d'.asked = d.asked)
    (hst : d'.started = d.started) (hp : d'.sshConnector = d.sshConnector) :
    DialerMove env d d' :=
  ⟨.keep h hc, hq, fun _ h => .inl (hst ▸ h), fun _ h => hst ▸ h, fun _ h => .inl (hp ▸ h),
    fun h => hp ▸ h⟩

theorem DialerMove.step {d : Core} {c : ℕ} {a : Connector.Action} {k : Connector.State}
    (hk : Connector.step (env.connector c) (d.connectors c) a = some k) (ha : internal a = false) :
    DialerMove env d { d with connectors := Function.update d.connectors c k } :=
  ⟨.step c a k hk rfl rfl ha, rfl, fun _ h => .inl h, fun _ h => h, fun _ h => .inl h, id⟩

theorem afterGet_move {t : ℕ} {d d' : Core} {c : Option ℕ} {g : GetCaller} {pc : Pc}
    (h : afterGet env t d c g = some (d', pc)) : DialerMove env d d' := by
  rcases afterGet_cases h with ⟨rfl, -⟩ | ⟨k, c', conn, -, -, -, hk, rfl⟩
  · exact .keep rfl rfl rfl rfl rfl
  · exact .step hk rfl

theorem threadStep_move {t : ℕ} {o : DialOutcome} {d d' : Core} {pc pc' : Pc}
    (h : threadStep env t o d pc = some (d', pc')) : DialerMove env d d' := by
  cases pc with
  | idle | returned | panicked => cases h
  | dialRLock | connectRLock | getRLock =>
    obtain ⟨_, hr, he⟩ := Option.map_eq_some_iff.mp h
    cases he
    simp only [Core.rLock, Option.ite_none_right_eq_some, Option.some.injEq] at hr
    obtain ⟨-, rfl⟩ := hr
    exact .keep rfl rfl rfl rfl rfl
  | dialLock | getLock =>
    obtain ⟨_, hr, he⟩ := Option.map_eq_some_iff.mp h
    cases he
    simp only [Core.lock, Option.ite_none_right_eq_some, Option.some.injEq] at hr
    obtain ⟨-, rfl⟩ := hr
    exact .keep rfl rfl rfl rfl rfl
  | dialFirst client => cases o <;> cases h <;> exact .keep rfl rfl rfl rfl rfl
  | dialSecond client => cases client <;> cases h <;> exact .keep rfl rfl rfl rfl rfl
  | getHeld g => exact afterGet_move h
  | getUnlock g c =>
    obtain ⟨hm, hq, hst, hrun, hp, has⟩ := afterGet_move h
    refine ⟨?_, hq, hst, hrun, hp, has⟩
    cases hm with
    | keep h hc => exact .keep h hc
    | step c a k hk h hc ha => exact .step c a k hk h hc ha
    | new b h hc => exact .new b h hc
  | getInteractive g =>
    simp only [threadStep] at h
    split at h
    · cases h
      exact .keep rfl rfl rfl rfl rfl
    · obtain ⟨_, hs, he⟩ := Option.map_eq_some_iff.mp h
      cases he
      obtain ⟨k, hk, rfl⟩ := stepConnector_eq hs
      exact .step hk rfl
  | getNew g =>
    cases h
    refine ⟨.new g.interactive rfl rfl, rfl, fun _ h => .inl h, fun _ h => h, fun c hc => ?_,
      fun _ => rfl⟩
    exact .inr ⟨(Option.some.inj hc).symm, rfl⟩
  | getGo g =>
    simp only [threadStep] at h
    split at h
    · cases h
      exact .keep rfl rfl rfl rfl rfl
    · rename_i c hp
      cases h
      refine ⟨.keep rfl rfl, rfl, fun c' hst => ?_, fun c' hst => ?_, fun _ h => .inl h, id⟩
      · by_cases hc : c' = c
        · exact .inr (hc ▸ hp)
        · exact .inl (by simpa [hc] using hst)
      · by_cases hc : c' = c <;> simp [hc, hst]
  | loop k c | serving c =>
    simp only [threadStep, Option.ite_none_right_eq_some, Option.some.injEq] at h
    cases h.2
    exact .keep rfl rfl rfl rfl rfl
  | _ =>
    cases h
    exact .keep rfl rfl rfl rfl rfl

/-- The same by the place of the thread: what it starts on which connector. -/
inductive ThreadMove (env : Env) (t : ℕ) (d : Core) (pc : Pc) (d' : Core) : Prop
  | keep (h : d'.connectors = d.connectors) (hc : d'.created = d.created)
  | loop (c : ℕ) (k : Connector.State)
      (hk : Connector.step (env.connector c) (d.connectors c) (.connectLoop t) = some k)
      (h : d'.connectors = Function.update d.connectors c k) (hc : d'.created = d.created)
  | interactive (g : GetCaller) (hpc : pc = .getInteractive g) (c : ℕ) (k : Connector.State)
      (hk : Connector.step (env.connector c) (d.connectors c) .setInteractive = some k)
      (h : d'.connectors = Function.update d.connectors c k) (hc : d'.created = d.created)
  | new (g : GetCaller) (hpc : pc = .getNew g)
      (h : d'.connectors = Function.update d.connectors d.created
        (Connector.init (env.connector d.created) g.interactive))
      (hc : d'.created = d.created + 1)

theorem afterGet_threadMove {t : ℕ} {d d' : Core} {c : Option ℕ} {g : GetCaller} {pc pc' : Pc}
    (h : afterGet env t d c g = some (d', pc')) : ThreadMove env t d pc d' := by
  rcases afterGet_cases h with ⟨rfl, -⟩ | ⟨k, c', conn, -, -, -, hk, rfl⟩
  · exact .keep rfl rfl
  · exact .loop c' conn hk rfl rfl

theorem threadStep_connectors {t : ℕ} {o : DialOutcome} {d d' : Core} {pc pc' : Pc}
    (h : threadStep env t o d pc = some (d', pc')) : ThreadMove env t d pc d' := by
  cases pc with
  | idle | returned | panicked => cases h
  | dialRLock | connectRLock | getRLock =>
    obtain ⟨_, hr, he⟩ := Option.map_eq_some_iff.mp h
    cases he
    simp only [Core.rLock, Option.ite_none_right_eq_some, Option.some.injEq] at hr
    obtain ⟨-, rfl⟩ := hr
    exact .keep rfl rfl
  | dialLock | getLock =>
    obtain ⟨_, hr, he⟩ := Option.map_eq_some_iff.mp h
    cases he
    simp only [Core.lock, Option.ite_none_right_eq_some, Option.some.injEq] at hr
    obtain ⟨-, rfl⟩ := hr
    exact .keep rfl rfl
  | dialFirst client => cases o <;> cases h <;> exact .keep rfl rfl
  | dialSecond client => cases client <;> cases h <;> exact .keep rfl rfl
  | getHeld g => exact afterGet_threadMove h
  | getUnlock g c =>
    have hm : ThreadMove env t d.unlock (.getUnlock g c) d' := afterGet_threadMove h
    cases hm with
    | keep hk hc => exact .keep hk hc
    | loop c k hk hu hc => exact .loop c k hk hu hc
    | interactive g hpc => cases hpc
    | new g hpc => cases hpc
  | getInteractive g =>
    simp only [threadStep] at h
    split at h
    · cases h
      exact .keep rfl rfl
    · rename_i c hp
      obtain ⟨_, hs, he⟩ := Option.map_eq_some_iff.mp h
      cases he
      obtain ⟨k, hk, rfl⟩ := stepConnector_eq hs
      exact .interactive g rfl c k hk rfl rfl
  | getNew g =>
    cases h
    exact .new g rfl rfl rfl
  | getGo g =>
    simp only [threadStep] at h
    split at h <;> cases h <;> exact .keep rfl rfl
  | loop k c | serving c =>
    simp only [threadStep, Option.ite_none_right_eq_some, Option.some.injEq] at h
    cases h.2
    exact .keep rfl rfl
  | _ =>
    cases h
    exact .keep rfl rfl

theorem step_move (h : step env s a = some u) :
    DialerMove env s.core u.core ∨ ∃ c b, a = .connector c b := by
  cases a with
  | call t e =>
    obtain ⟨-, rfl⟩ := step_call h
    exact .inl (.keep rfl rfl rfl rfl rfl)
  | thread t o =>
    obtain ⟨d, pc, hc, rfl⟩ := step_thread h
    exact .inl (threadStep_move hc)
  | serve t c sid inp =>
    obtain ⟨-, -, k, hk, rfl⟩ := step_serve h
    exact .inl (.step hk rfl)
  | connector c b => exact .inr ⟨c, b, rfl⟩

theorem outside_connectors (env : Env) (d : Core) (c : ℕ) (a : Connector.Action) :
    (d.outside env c a).connectors = d.connectors ∧ (d.outside env c a).created = d.created ∧
      (d.outside env c a).started = d.started := by
  unfold Core.outside
  split
  · split <;> exact ⟨rfl, rfl, rfl⟩
  · split <;> exact ⟨rfl, rfl, rfl⟩
  · exact ⟨rfl, rfl, rfl⟩
  · exact ⟨rfl, rfl, rfl⟩

theorem outside_pointer {d : Core} {c c' : ℕ} {a : Connector.Action}
    (h : (d.outside env c a).sshConnector = some c') : d.sshConnector = some c' := by
  unfold Core.outside at h
  split at h
  · split at h
    · exact h
    · cases h
    · exact h
  · split at h <;> exact h
  · exact h
  · exact h

/-- A relation between a connector and its earlier states that holds along its
own steps. -/
theorem step_connectors {P : ℕ → Connector.State → Prop} (hP : ∀ c, P c (s.core.connectors c))
    (hnew : ∀ c interactive, P c (Connector.init (env.connector c) interactive))
    (hstep : ∀ c b k, P c (s.core.connectors c) →
      Connector.step (env.connector c) (s.core.connectors c) b = some k → P c k)
    (h : step env s a = some u) (c : ℕ) : P c (u.core.connectors c) := by
  have hupd : ∀ c' k, P c' k → P c (Function.update s.core.connectors c' k c) := by
    intro c' k hk
    by_cases hc : c = c'
    · subst hc
      rwa [Function.update_self]
    · rw [Function.update_of_ne hc]
      exact hP c
  rcases step_move h with hm | ⟨c', b, rfl⟩
  · cases hm.connectors with
    | keep hk => exact hk ▸ hP c
    | step c' b k hk hu => exact hu ▸ hupd c' k (hstep c' b k (hP c') hk)
    | new b hu => exact hu ▸ hupd _ _ (hnew _ b)
  · obtain ⟨-, -, k, hk, rfl⟩ := step_connector h
    show P c (Function.update (s.core.outside env c' b).connectors c' k c)
    rw [(outside_connectors env s.core c' b).1]
    exact hupd c' k (hstep c' b k (hP c') hk)

/-- Every connector of the daemon is in a state that it reaches alone. -/
theorem connector_reached {G : State → Action → Prop} (h : Run (step env) G (init env) s) (c : ℕ) :
    ∃ interactive, Reach (Connector.step (env.connector c))
      (Connector.init (env.connector c) interactive) (s.core.connectors c) := by
  refine h.invariant (P := fun s => ∀ c, ∃ interactive,
    Reach (Connector.step (env.connector c)) (Connector.init (env.connector c) interactive)
      (s.core.connectors c)) (fun c => ⟨false, .refl⟩) ?_ c
  intro t a u hs _ he
  refine step_connectors (P := fun c k => ∃ interactive,
    Reach (Connector.step (env.connector c)) (Connector.init (env.connector c) interactive) k)
    hs (fun c b => ⟨b, .refl⟩) ?_ he
  rintro c b k ⟨i, hr⟩ hk
  exact ⟨i, .tail hr trivial hk⟩

/-- The pointer and the running goroutines are those of allocated connectors. -/
structure Core.Allocated (d : Core) : Prop where
  pointer : ∀ c, d.sshConnector = some c → c < d.created
  started : ∀ c, d.started c = true → c < d.created

theorem step_allocated (hs : s.core.Allocated) (h : step env s a = some u) :
    u.core.Allocated := by
  rcases step_move h with hm | ⟨c, b, rfl⟩
  · have hle : s.core.created ≤ u.core.created := by
      cases hm.connectors with
      | keep _ hc => exact Nat.le_of_eq hc.symm
      | step _ _ _ _ _ hc => exact Nat.le_of_eq hc.symm
      | new _ _ hc => exact hc ▸ Nat.le_succ _
    refine ⟨fun c hp => ?_, fun c hst => ?_⟩
    · rcases hm.pointer c hp with hold | ⟨rfl, hc⟩
      · exact Nat.lt_of_lt_of_le (hs.pointer c hold) hle
      · exact hc ▸ Nat.lt_succ_self _
    · rcases hm.started c hst with hold | hold
      · exact Nat.lt_of_lt_of_le (hs.started c hold) hle
      · exact Nat.lt_of_lt_of_le (hs.pointer c hold) hle
  · obtain ⟨-, -, k, -, rfl⟩ := step_connector h
    obtain ⟨-, hcr, hst⟩ := outside_connectors env s.core c b
    refine ⟨fun c' hp => ?_, fun c' h' => ?_⟩
    · exact hcr ▸ hs.pointer c' (outside_pointer hp)
    · exact hcr ▸ hs.started c' (hst ▸ h')

theorem run_allocated {G : State → Action → Prop} (h : Run (step env) G (init env) s) :
    s.core.Allocated :=
  h.invariant (P := fun s => s.core.Allocated) ⟨fun _ h => (by cases h), fun _ h => (by cases h)⟩
    fun _ _ _ hs _ he => step_allocated hs he

/-- A run of one connector by itself is a run of the daemon. -/
theorem run_of_connector {G : State → Action → Prop}
    {I : Connector.State → Connector.Action → Prop} {c : ℕ} {k : Connector.State}
    (hI : ∀ m b, m.threads = s.threads → I (m.core.connectors c) b →
      internal b = true ∧ G m (.connector c b))
    (hst : s.core.started c = true)
    (h : Run (Connector.step (env.connector c)) I (s.core.connectors c) k) :
    ∃ u, Run (step env) G s u ∧ u.core.connectors c = k ∧ u.core.started c = true ∧
      u.threads = s.threads := by
  induction h with
  | refl => exact ⟨s, .refl, rfl, hst, rfl⟩
  | @tail _ k b _ hi hk ih =>
    obtain ⟨m, hm, rfl, hms, hmt⟩ := ih
    obtain ⟨hb, hg⟩ := hI m b hmt hi
    have hstep : step env m (.connector c b) = some { m with core :=
        { m.core.outside env c b with
          connectors := Function.update (m.core.outside env c b).connectors c k } } := by
      simp [step, hms, hb, hk]
    refine ⟨_, .tail hm hg hstep, Function.update_self .., ?_, hmt⟩
    show (m.core.outside env c b).started c = true
    rw [(outside_connectors env m.core c b).2.2]
    exact hms

end Steps

end SshTunnel.Daemon
