import SshTunnel.Daemon.Connectors
import SshTunnel.Connector.Failover

/-!
# One connection attempt at a time

`GetConnector` tests the connector pointer under the read lock and assigns it
under a later write lock, and the deferred function of `connect` clears it
without looking whose it is. The pointer follows the running attempt as long as
every assignment still finds it nil.
-/

namespace SshTunnel.Connector

/-- The deferred function has cleared the pointer of the dialer. -/
def ConnectPc.cleared : ConnectPc → Bool
  | .deferNotify | .done => true
  | _ => false

theorem connectStep_cleared {env : Env} {calm : Bool} {sh sh' : Shared} {pc pc' : ConnectPc}
    (h : connectStep env calm sh pc = some (sh', pc')) :
    pc'.cleared = true ↔ pc = .deferClear ∨ pc.cleared = true := by
  cases pc with
  | deferTest =>
    cases h
    split <;> simp [ConnectPc.cleared]
  | deferNotify =>
    obtain ⟨_, -, he⟩ := Option.map_eq_some_iff.mp h
    cases he
    simp [ConnectPc.cleared]
  | _ => grind [connectStep, ConnectPc.cleared, Shared.print]

end SshTunnel.Connector

namespace SshTunnel.Daemon

open Lib.Runs

/-- The attempt of the connector `c` runs: from its allocation in `GetConnector`
until its deferred function clears the pointer. The last `notifyWaiting` of `connect`
comes after that. -/
def Core.Live (d : Core) (c : ℕ) : Prop :=
  c < d.created ∧ (d.connectors c).connect.cleared = false

/-- Every assignment of the pointer finds it nil. -/
def Vacant (s : State) : Action → Prop
  | .thread t _ => ∀ g, s.threads t = .getNew g → s.core.sshConnector = none
  | _ => True

structure Core.Tracked (d : Core) : Prop where
  pointer : ∀ c, d.sshConnector = some c ↔ d.Live c
  started : ∀ c, d.started c = true → c < d.created

section Steps

variable {env : Env} {s u : State} {a : Action} {d d' : Core}

theorem Core.Tracked.frame (hd : d.Tracked) (hp : d'.sshConnector = d.sshConnector)
    (hc : d'.created = d.created) (hst : d'.started = d.started)
    (hk : ∀ c, (d'.connectors c).connect = (d.connectors c).connect) : d'.Tracked := by
  refine ⟨fun c => ?_, fun c h => ?_⟩
  · rw [hp, Core.Live, hc, hk]
    exact hd.pointer c
  · rw [hc]
    exact hd.started c (hst ▸ h)

theorem update_connect {c : ℕ} {k : Connector.State} {a : Connector.Action}
    (hk : Connector.step (env.connector c) (d.connectors c) a = some k) (ha : a ≠ .connect)
    (c' : ℕ) : (Function.update d.connectors c k c').connect = (d.connectors c').connect := by
  by_cases hc : c' = c
  · subst hc
    rw [Function.update_self]
    exact (Connector.step_attempt_frame hk ha).1
  · rw [Function.update_of_ne hc]

theorem afterGet_tracked {t : ℕ} {c : Option ℕ} {g : GetCaller} {pc : Pc} (hd : d.Tracked)
    (h : afterGet env t d c g = some (d', pc)) : d'.Tracked := by
  rcases afterGet_cases h with ⟨rfl, -⟩ | ⟨k, c', conn, -, -, -, hk, rfl⟩
  · exact hd
  · exact hd.frame rfl rfl rfl (update_connect hk (by simp))

theorem threadStep_tracked {t : ℕ} {o : DialOutcome} {pc pc' : Pc} (hd : d.Tracked)
    (hg : ∀ g, pc = .getNew g → d.sshConnector = none)
    (h : threadStep env t o d pc = some (d', pc')) : d'.Tracked := by
  have hsame : ∀ d' : Core, d'.sshConnector = d.sshConnector → d'.created = d.created →
      d'.started = d.started → d'.connectors = d.connectors → d'.Tracked :=
    fun d' hp hc hst hk => hd.frame hp hc hst fun c => by rw [hk]
  cases pc with
  | idle | returned | panicked => cases h
  | dialRLock | connectRLock | getRLock =>
    obtain ⟨_, hr, he⟩ := Option.map_eq_some_iff.mp h
    cases he
    simp only [Core.rLock, Option.ite_none_right_eq_some, Option.some.injEq] at hr
    obtain ⟨-, rfl⟩ := hr
    exact hsame _ rfl rfl rfl rfl
  | dialLock | getLock =>
    obtain ⟨_, hr, he⟩ := Option.map_eq_some_iff.mp h
    cases he
    simp only [Core.lock, Option.ite_none_right_eq_some, Option.some.injEq] at hr
    obtain ⟨-, rfl⟩ := hr
    exact hsame _ rfl rfl rfl rfl
  | dialFirst client => cases o <;> cases h <;> exact hd
  | dialSecond client => cases client <;> cases h <;> exact hd
  | getHeld g => exact afterGet_tracked hd h
  | getUnlock g c => exact afterGet_tracked (hsame d.unlock rfl rfl rfl rfl) h
  | getInteractive g =>
    simp only [threadStep] at h
    split at h
    · cases h
      exact hd
    · obtain ⟨_, hs, he⟩ := Option.map_eq_some_iff.mp h
      cases he
      obtain ⟨k, hk, rfl⟩ := stepConnector_eq hs
      exact hd.frame rfl rfl rfl (update_connect hk (by simp))
  | getNew g =>
    cases h
    -- nothing runs while the pointer is nil, so the new attempt is the only one
    have hnone : ∀ c, ¬d.Live c := fun c hl => by
      have hp := (hd.pointer c).mpr hl
      simp [hg g rfl] at hp
    refine ⟨fun c => ?_, fun c hst => Nat.lt_succ_of_lt (hd.started c hst)⟩
    by_cases hc : c = d.created
    · subst hc
      simp [Core.Live, Connector.init, Connector.ConnectPc.cleared]
    · have hne : ¬(some d.created = some c) := fun he => hc (Option.some.inj he).symm
      refine ⟨fun he => (hne he).elim, fun hl => (hnone c ⟨?_, ?_⟩).elim⟩
      · exact Nat.lt_of_le_of_ne (Nat.le_of_lt_succ hl.1) hc
      · simpa [hc] using hl.2
  | getGo g =>
    simp only [threadStep] at h
    split at h
    · cases h
      exact hd
    · rename_i c hp
      cases h
      refine ⟨hd.pointer, fun c' hst => ?_⟩
      by_cases hc : c' = c
      · rw [hc]
        exact ((hd.pointer c).mp hp).1
      · exact hd.started c' (by simpa [hc] using hst)
  | loop k c | serving c =>
    simp only [threadStep, Option.ite_none_right_eq_some, Option.some.injEq] at h
    cases h.2
    exact hd
  | _ =>
    cases h
    exact hsame _ rfl rfl rfl rfl

/-- A step of `connect`: the clearing write is the one of the running attempt. -/
theorem connect_tracked {c : ℕ} {k : Connector.State} (hd : d.Tracked)
    (hst : d.started c = true)
    (hk : Connector.step (env.connector c) (d.connectors c) .connect = some k) :
    Core.Tracked { d.outside env c .connect with
      connectors := Function.update (d.outside env c .connect).connectors c k } := by
  obtain ⟨-, sh, pc, hc, hu⟩ := Connector.step_connect hk
  have hcl : k.connect.cleared = true ↔ (d.connectors c).connect = .deferClear ∨
      (d.connectors c).connect.cleared = true := by
    rw [hu]
    exact Connector.connectStep_cleared hc
  obtain ⟨hcon, hcr, hs⟩ := outside_connectors env d c .connect
  have hother : ∀ c', c' ≠ c → Function.update (d.outside env c .connect).connectors c k c' =
      d.connectors c' := fun c' hne => by rw [Function.update_of_ne hne, hcon]
  by_cases hclear : (d.connectors c).connect = .deferClear
  · have hp : (d.outside env c .connect).sshConnector = none := by
      simp [Core.outside, hclear]
    have hlive : d.Live c := ⟨hd.started c hst, by rw [hclear]; rfl⟩
    refine ⟨fun c' => ?_, fun c' h => ?_⟩
    · refine ⟨fun h => by simp [hp] at h, fun ⟨hlt, hc'⟩ => ?_⟩
      by_cases hne : c' = c
      · subst hne
        simp [hcl.mpr (.inl hclear)] at hc'
      · have hl' : d.Live c' := ⟨hcr ▸ hlt, by rw [← hother c' hne]; exact hc'⟩
        have h1 := (hd.pointer c).mpr hlive
        have h2 := (hd.pointer c').mpr hl'
        exact (hne (Option.some.inj (h2.symm.trans h1))).elim
    · exact hcr ▸ hd.started c' (hs ▸ h)
  · have hp : (d.outside env c .connect).sshConnector = d.sshConnector := by
      simp only [Core.outside]
      split
      · rfl
      · rename_i he
        exact (hclear he).elim
      · rfl
    refine ⟨fun c' => ?_, fun c' h => hcr ▸ hd.started c' (hs ▸ h)⟩
    have hkeep : (Function.update (d.outside env c .connect).connectors c k c').connect.cleared =
        (d.connectors c').connect.cleared := by
      by_cases hne : c' = c
      · subst hne
        rw [Function.update_self, Bool.eq_iff_iff, hcl]
        simp [hclear]
      · rw [hother c' hne]
    have hlive : Core.Live { d.outside env c .connect with
        connectors := Function.update (d.outside env c .connect).connectors c k } c' ↔
          d.Live c' := by
      simp only [Core.Live, hcr, hkeep]
    rw [hlive, ← hd.pointer c']
    exact Eq.congr_left hp

theorem step_tracked (hs : s.core.Tracked) (hg : Vacant s a) (h : step env s a = some u) :
    u.core.Tracked := by
  cases a with
  | call t e =>
    obtain ⟨-, rfl⟩ := step_call h
    exact hs
  | thread t o =>
    obtain ⟨d, pc, hc, rfl⟩ := step_thread h
    exact threadStep_tracked hs hg hc
  | serve t c sid inp =>
    obtain ⟨-, -, k, hk, rfl⟩ := step_serve h
    exact hs.frame rfl rfl rfl (update_connect hk (by simp))
  | connector c a =>
    obtain ⟨hst, -, k, hk, rfl⟩ := step_connector h
    by_cases ha : a = .connect
    · subst ha
      exact connect_tracked hs hst hk
    · obtain ⟨hcon, hcr, hst'⟩ := outside_connectors env s.core c a
      refine hs.frame ?_ hcr hst' ?_
      · show (s.core.outside env c a).sshConnector = _
        unfold Core.outside
        split
        · exact (ha rfl).elim
        · split <;> rfl
        · rfl
        · rfl
      · show ∀ c', (Function.update (s.core.outside env c a).connectors c k c').connect = _
        rw [hcon]
        exact update_connect hk ha

theorem run_tracked (h : Run (step env) Vacant (init env) s) : s.core.Tracked := by
  have h0 : (init env).core.Tracked := by
    refine ⟨fun c => ⟨fun hp => ?_, fun hl => ?_⟩, fun c hst => ?_⟩
    · cases hp
    · cases hl.1
    · cases hst
  exact h.invariant (P := fun s => s.core.Tracked) h0 fun t a u hs hg he => step_tracked hs hg he

end Steps

/-- At most one attempt runs; the pointer is set exactly while one does, and
points to its connector. -/
theorem one_attempt {env : Env} {s : State} (h : Run (step env) Vacant (init env) s) :
    (∀ c c', s.core.Live c → s.core.Live c' → c = c') ∧
    (s.core.sshConnector ≠ none ↔ ∃ c, s.core.Live c) ∧
    ∀ c, s.core.sshConnector = some c → s.core.Live c := by
  have hp := (run_tracked h).pointer
  refine ⟨fun c c' hc hc' => ?_, ?_, fun c => (hp c).mp⟩
  · exact Option.some.inj (((hp c).mpr hc).symm.trans ((hp c').mpr hc'))
  · rw [Option.ne_none_iff_exists']
    exact exists_congr hp

section Example

/-- Two calls of `GetConnector` find the pointer nil before either assigns it. -/
theorem two_attempts :
    ¬∀ (env : Env) (s : State), Reach (step env) (init env) s →
      ∀ c c', s.core.Live c → s.core.Live c' → c = c' := by
  intro hall
  obtain ⟨s, hr, hs⟩ := reach_of_check (step sampleEnv) (init sampleEnv)
    (.call 0 (.getConnector true) :: steps 0 3 ++ .call 1 .connect :: steps 1 6 ++
      steps 0 5 ++ steps 1 3)
    (fun s => s.core.created = 2 && !(s.core.connectors 0).connect.cleared &&
      !(s.core.connectors 1).connect.cleared && s.core.started 0 && s.core.started 1) (by decide)
  simp only [Bool.and_eq_true, decide_eq_true_eq, Bool.not_eq_true'] at hs
  obtain ⟨⟨⟨⟨hc, h0⟩, h1⟩, -⟩, -⟩ := hs
  cases hall sampleEnv s hr 0 1 ⟨by omega, h0⟩ ⟨by omega, h1⟩

def vacant (s : State) : Action → Bool
  | .thread t _ =>
    match s.threads t with
    | .getNew _ => s.core.sshConnector = none
    | _ => true
  | _ => true

theorem vacant_sound {s : State} {a : Action} (h : vacant s a = true) : Vacant s a := by
  cases a with
  | thread t o =>
    intro g hg
    simpa [vacant, hg] using h
  | _ => trivial

theorem one_attempt_of_getConnector :
    ∃ s, Run (step sampleEnv) Vacant (init sampleEnv) s ∧ s.core.sshConnector = some 0 ∧
      s.core.Live 0 := by
  obtain ⟨s, hs, hp⟩ := (Option.any_eq_true ..).mp
    (show (exec (guarded vacant (step sampleEnv)) (init sampleEnv)
      (.call 0 (.getConnector true) :: steps 0 8)).any (fun s => s.core.sshConnector = some 0) =
        true by decide)
  have hc := of_decide_eq_true hp
  have hpath : Run (step sampleEnv) Vacant (init sampleEnv) s :=
    run_of_exec (I := fun _ => True) (fun _ _ _ _ _ _ => trivial)
      (fun _ _ _ => vacant_sound) trivial hs
  exact ⟨s, hpath, hc, (one_attempt hpath).2.2 0 hc⟩

end Example

end SshTunnel.Daemon
