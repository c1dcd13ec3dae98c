import SshTunnel.Connector.Waiting

/-!
# Host key prompts

At most one prompt is up, the one of the host key callback that waits for its
decision. The status `unknown_host_key` says that the prompt is undecided, and
the first accepted `AcceptHostKey` ends that status; hence every prompt gets
exactly one decision, whatever else happens to the connector meanwhile.
-/

namespace SshTunnel.Connector

open Lib.Notify Lib.Runs
open Lib.Net (Text)
open Control (ConnectStatus ConnectIn)

/-- What `pendingHostKey` holds while the callback asks. -/
def pendingOf (env : Env) (q : Call × ℕ) : PendingHostKeyInfo :=
  ⟨q.1.hostname, q.1.key, env.fingerprintSHA256 q.1.key, q.2⟩

/-- The prompt is up and no decision for it has been sent. -/
def State.Undecided (s : State) : Prop :=
  ∃ c ch, s.hostKey = .receive c ch ∧ s.sh.buffer ch = none

structure State.Prompting (env : Env) (s : State) : Prop where
  pending : s.sh.pendingHostKey = s.hostKey.asking.map (pendingOf env)
  /-- Channels not made yet are empty. -/
  fresh : ∀ ch, s.sh.nextChan ≤ ch → s.sh.buffer ch = none
  made : ∀ q, s.hostKey.asking = some q → q.2 < s.sh.nextChan
  undecided : s.sh.status = .unknownHostKey → s.Undecided
  /-- `AcceptHostKey` has checked the status and is about to send. -/
  deciding : ∀ t r b, s.threads t = .sendDecision r b →
    s.sh.status ≠ .unknownHostKey ∧ s.Undecided

section Prompting

variable {env : Env} {s u : State} {a : Action}

/-- A step that leaves the callback, the decision channels and the deciding
threads alone and does not raise the prompt. -/
theorem State.Prompting.frame (hs : s.Prompting env) (hk : u.hostKey = s.hostKey)
    (hp : u.sh.pendingHostKey = s.sh.pendingHostKey) (hb : u.sh.buffer = s.sh.buffer)
    (hn : s.sh.nextChan ≤ u.sh.nextChan)
    (hst : u.sh.status = .unknownHostKey → s.sh.status = .unknownHostKey)
    (ht : ∀ t r b, u.threads t = .sendDecision r b → s.threads t = .sendDecision r b) :
    u.Prompting env := by
  have hund : s.Undecided → u.Undecided := fun ⟨c, ch, hr, he⟩ => ⟨c, ch, hk ▸ hr, hb ▸ he⟩
  refine ⟨by rw [hp, hk, hs.pending], fun ch hch => ?_, fun q hq => ?_, fun h => ?_,
    fun t r b h => ?_⟩
  · rw [hb]
    exact hs.fresh ch (Nat.le_trans hn hch)
  · exact Nat.lt_of_lt_of_le (hs.made q (hk ▸ hq)) hn
  · exact hund (hs.undecided (hst h))
  · obtain ⟨hne, hu⟩ := hs.deciding t r b (ht t r b h)
    exact ⟨fun h => hne (hst h), hund hu⟩

/-- The pointer that `AcceptHostKey` dereferences. -/
theorem State.Prompting.prompt (hs : s.Prompting env) (h : s.Undecided) :
    ∃ c ch, s.hostKey = .receive c ch ∧ s.sh.buffer ch = none ∧
      s.sh.pendingHostKey = some (pendingOf env (c, ch)) := by
  obtain ⟨c, ch, hr, he⟩ := h
  have hp := hs.pending
  rw [hr] at hp
  exact ⟨c, ch, hr, he, hp⟩

theorem not_undecided {s : State} (h : ∀ c ch, s.hostKey ≠ .receive c ch) : ¬s.Undecided :=
  fun ⟨c, ch, hr, _⟩ => h c ch hr

theorem State.Prompting.callback (hs : s.Prompting env) (hq : s.hostKey.asking = none)
    (hq' : u.hostKey.asking = none) (hp : u.sh.pendingHostKey = s.sh.pendingHostKey)
    (hb : u.sh.buffer = s.sh.buffer) (hn : u.sh.nextChan = s.sh.nextChan)
    (hst : u.sh.status = s.sh.status) (ht : u.threads = s.threads) : u.Prompting env := by
  have hno : ¬s.Undecided := not_undecided fun c ch hr => by simp [hr, HostKeyPc.asking] at hq
  refine ⟨by rw [hp, hs.pending, hq, hq'], fun ch hch => ?_, fun q h => ?_, fun h => ?_,
    fun t r b h => ?_⟩
  · rw [hb]
    exact hs.fresh ch (hn ▸ hch)
  · simp [hq'] at h
  · exact (hno (hs.undecided (hst ▸ h))).elim
  · exact (hno (hs.deciding t r b (ht ▸ h)).2).elim

theorem hostKeyStep_prompting {written : Bool} {sh : Shared} {pc : HostKeyPc}
    (hs : s.Prompting env) (h : hostKeyStep env written s.sh s.hostKey = some (sh, pc)) :
    State.Prompting env { s with sh := sh, hostKey := pc } := by
  cases hostKeyStep_move h with
  | prompt c hpc hl =>
    have hno : ¬s.Undecided := not_undecided fun c ch hr => by simp [hpc] at hr
    have hempty : s.sh.buffer s.sh.nextChan = none := hs.fresh _ (Nat.le_refl _)
    refine ⟨rfl, fun ch hch => ?_, fun q hq => ?_, fun _ => ?_, fun t r b ht => ?_⟩
    · exact hs.fresh ch (Nat.le_of_succ_le hch)
    · cases hq
      exact Nat.lt_succ_self _
    · exact ⟨c, _, rfl, hempty⟩
    · exact (hno (hs.deciding t r b ht).2).elim
  | receive c ch b hpc hb =>
    -- a decision that arrives was sent under another status
    have hno : ¬s.Undecided := by
      rintro ⟨c', ch', hr, he⟩
      rw [hpc] at hr
      cases hr
      simp [hb] at he
    refine ⟨?_, fun ch' hch => ?_, fun q hq => ?_, fun hst => ?_, fun t r d ht => ?_⟩
    · rw [hs.pending, hpc]
      rfl
    · by_cases he : ch' = ch
      · simp [he]
      · simpa [he] using hs.fresh ch' hch
    · cases hq
      exact hs.made (c, ch) (by rw [hpc]; rfl)
    · exact (hno (hs.undecided hst)).elim
    · exact (hno (hs.deciding t r d ht).2).elim
  | clear c ch b hpc hl =>
    have hno : ¬s.Undecided := not_undecided fun c ch hr => by simp [hpc] at hr
    have hq : (if b then HostKeyPc.append c else .ret c false).asking = none := by split <;> rfl
    refine ⟨by rw [hq]; rfl, hs.fresh, fun q h => ?_, fun hst => ?_, fun t r d ht => ?_⟩
    · simp [hq] at h
    · exact (hno (hs.undecided hst)).elim
    · exact (hno (hs.deciding t r d ht).2).elim
  | quiet _ _ _ _ hl hq hq' => exact hs.callback hq hq' rfl rfl rfl rfl rfl

theorem threadStep_prompting {t : ℕ} {sh : Shared} {pc : ThreadPc} (hlk : s.Locked)
    (hs : s.Prompting env) (h : threadStep t s.sh (s.threads t) = some (sh, pc)) :
    State.Prompting env ({ s with sh := sh }.setThread t pc) := by
  -- another thread at its send would hold the mutex as well
  have hother : ∀ t' r b, t' ≠ t → (s.sh.lock = .free ∨ s.sh.lock = .held (.thread t)) →
      s.threads t' ≠ .sendDecision r b := by
    intro t' r b hne hl ht
    rw [hlk t' r b ht] at hl
    rcases hl with hl | hl
    · cases hl
    · cases hl
      exact hne rfl
  have hthreads : ∀ {sh pc'}, (∀ r b, pc' ≠ .sendDecision r b) → ∀ t' r b,
      ({ s with sh := sh }.setThread t pc').threads t' = .sendDecision r b →
        s.threads t' = .sendDecision r b := by
    intro sh pc' hpc' t' r b ht
    exact (setThread_other ht (hpc' r b)).2
  cases threadStep_move h with
  | accept r b hpc hl hst =>
    refine ⟨hs.pending, hs.fresh, hs.made, fun he => (by cases he), fun t' r' b' ht => ?_⟩
    exact ⟨fun he => (by cases he), hs.undecided hst⟩
  | panic r b hpc hp =>
    -- the prompt is still up, so `pendingHostKey` is set
    obtain ⟨c, ch, -, -, hset⟩ := hs.prompt (hs.deciding t r b hpc).2
    cases hp.symm.trans hset
  | send r b p hpc hp hb =>
    obtain ⟨hne, hund⟩ := hs.deciding t r b hpc
    obtain ⟨c, ch, hr, he, hset⟩ := hs.prompt hund
    have hp' : p.decision = ch := by
      cases hp.symm.trans hset
      rfl
    have hmade : ch < s.sh.nextChan := hs.made (c, ch) (by rw [hr]; rfl)
    refine ⟨hs.pending, fun ch' hch => ?_, hs.made, fun hst => (hne hst).elim,
      fun t' r' b' ht => ?_⟩
    · have hch' : ch' ≠ p.decision := by
        rintro rfl
        exact absurd hch (by rw [hp']; exact Nat.not_le_of_lt hmade)
      exact (Function.update_of_ne hch' ..).trans (hs.fresh ch' hch)
    · obtain ⟨hne', ht⟩ := setThread_other ht (by simp)
      exact (hother t' r' b' hne' (.inr (hlk t r b hpc)) ht).elim
  | passphrase r inp hpc hl hst =>
    refine hs.frame rfl rfl rfl (Nat.le_refl _) (fun he => (by cases he)) (hthreads ?_)
    rcases afterPassphrase_cases r inp with ⟨b, hb⟩ | hb <;> simp [hb]
  | register l hpc hl =>
    exact hs.frame rfl rfl rfl (Nat.le_succ _) id (hthreads (by simp))
  | quiet _ _ _ _ _ hs' => exact hs.frame rfl rfl rfl (Nat.le_refl _) id (hthreads hs')

theorem step_prompting (hlk : s.Locked) (hs : s.Prompting env) (h : step env s a = some u) :
    u.Prompting env := by
  cases a with
  | connect =>
    obtain ⟨-, sh, pc, hc, rfl⟩ := step_connect h
    obtain ⟨_, _, st, _, _, rfl, -, hst⟩ := connectStep_frame hc
    refine hs.frame rfl rfl rfl (Nat.le_refl _) (fun he => ?_) fun _ _ _ ht => ht
    rcases hst with hst | hst
    · exact hst ▸ he
    · exact (hst (.inr he)).elim
  | banner msg =>
    obtain ⟨-, -, rfl⟩ := step_banner h
    exact hs.frame rfl rfl rfl (Nat.le_refl _) id fun _ _ _ ht => ht
  | hostKeyCall hostname key =>
    obtain ⟨hi, -, rfl⟩ := step_hostKeyCall h
    rw [hostKeyCall_frame]
    exact hs.callback (by rw [hi]; rfl) (hostKeyCall_asking hostname key) rfl rfl rfl rfl rfl
  | hostKey written =>
    obtain ⟨-, sh, pc, hc, rfl⟩ := step_hostKey h
    exact hostKeyStep_prompting hs hc
  | passwordCall =>
    obtain ⟨-, -, rfl⟩ := step_passwordCall h
    exact hs.frame rfl rfl rfl (Nat.le_refl _) id fun _ _ _ ht => ht
  | password =>
    obtain ⟨-, sh, pc, hc, rfl⟩ := step_password h
    cases passwordStep_move hc with
    | setStatus =>
      exact hs.frame rfl rfl rfl (Nat.le_refl _) (fun he => (by cases he)) fun _ _ _ ht => ht
    | register => exact hs.frame rfl rfl rfl (Nat.le_succ _) id fun _ _ _ ht => ht
    | quiet _ _ st _ _ hst =>
      refine hs.frame rfl rfl rfl (Nat.le_refl _) (fun he => ?_) fun _ _ _ ht => ht
      rcases hst with rfl | rfl
      · exact he
      · cases he
  | request t sid inp =>
    obtain ⟨-, rfl⟩ := step_request h
    refine hs.frame rfl rfl rfl (Nat.le_refl _) id fun t' r b ht => ?_
    refine (setThread_other ht ?_).2
    rcases startRequest_cases ⟨sid, (s.threads t).shown, []⟩ inp with hr | ⟨d, hr⟩ | hr <;>
      simp [hr]
  | connectLoop t =>
    obtain ⟨-, rfl⟩ := step_connectLoop h
    refine hs.frame rfl rfl rfl (Nat.le_refl _) id fun t' r b ht => ?_
    exact (setThread_other ht (by simp)).2
  | thread t =>
    obtain ⟨-, sh, pc, hc, rfl⟩ := step_thread h
    exact threadStep_prompting hlk hs hc
  | setInteractive =>
    obtain rfl := step_setInteractive h
    exact hs.frame rfl rfl rfl (Nat.le_refl _) id fun _ _ _ ht => ht
  | send w =>
    obtain ⟨b, ch, rest, -, -, rfl⟩ := step_send h
    cases w with
    | password => exact hs.frame rfl rfl rfl (Nat.le_refl _) id fun _ _ _ ht => ht
    | thread t =>
      simp only [State.wake]
      split
      · rename_i l _ _
        refine hs.frame rfl rfl rfl (Nat.le_refl _) id fun t' r b ht => ?_
        exact (setThread_other ht (by cases l <;> simp [threadAt, Loop.again])).2
      · exact hs.frame rfl rfl rfl (Nat.le_refl _) id fun _ _ _ ht => ht
  | unlock =>
    obtain ⟨b, -, rfl⟩ := step_unlock h
    exact hs.frame rfl rfl rfl (Nat.le_refl _) id fun _ _ _ ht => ht

theorem reach_prompting {G : State → Action → Prop} {interactive : Bool}
    (h : Run (step env) G (init env interactive) s) : s.Prompting env := by
  refine h.invariant_under (Q := fun s => s.Locked ∧ s.room.Valid) (fun _ => reach_room) ?_ ?_
  · exact ⟨rfl, fun _ _ => rfl, fun _ hq => (by cases hq), fun hst => (by cases hst),
      fun _ _ _ ht => (by cases ht)⟩
  · intro t a u ⟨hl, _⟩ hs _ he
    exact step_prompting hl hs he

/-- After its check `AcceptHostKey` can send, on the channel of the prompt. -/
theorem sendDecision_enabled {t : ℕ} {r : Request} {b : Bool} (hlk : s.Locked)
    (hs : s.Prompting env) (ht : s.threads t = .sendDecision r b) :
    ∃ p u, s.sh.pendingHostKey = some p ∧ step env s (.thread t) = some u ∧
      u.threads t = .messageCount r ∧ u.sh.lock = .notifying (.thread t) s.sh.waiting ∧
        u.sh.log = .decided t p b (r.answers.map Shown.fingerprint) :: s.sh.log := by
  have hl := hlk t r b ht
  obtain ⟨c, ch, -, he, hp⟩ := hs.prompt (hs.deciding t r b ht).2
  have he : s.sh.buffer (pendingOf env (c, ch)).decision = none := he
  have hbusy : s.sh.busy (.thread t) = false := by simp only [Shared.busy, hl]
  obtain ⟨u, hu⟩ : ∃ u, step env s (.thread t) = some u := by
    simp [step, hbusy, ht, threadStep, hp, he]
  obtain ⟨-, sh, pc, hc, rfl⟩ := step_thread hu
  rw [ht] at hc
  simp only [threadStep, hp, he, if_true, Option.some.injEq] at hc
  cases hc
  exact ⟨_, _, hp, hu, by simp only [setThread_threads, if_true], rfl, rfl⟩

end Prompting

end SshTunnel.Connector
