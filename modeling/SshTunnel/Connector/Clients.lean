import SshTunnel.Client
import SshTunnel.Connector.Decision

/-!
# Clients and the keys they accept

A decision names the connector only, so it goes to whatever prompt is up when
it arrives. `decisions` counts the decisions taken on the connector. As long as
none is taken between the status read of a response and the reply to it, the
prompt is the one that the response showed.
-/

namespace SshTunnel.Connector

open Lib.Notify Lib.Runs
open Lib.Net (Text)
open Control (ConnectStatus ConnectIn ConnectOut)
open Client (User)

/-- Requests come from clients that run the loop of the connect command; the
thread of a client carries the response it has received. -/
def FromClients (s : State) : Action → Prop
  | .request t _ inp =>
    s.threads t = .idle ∧ inp = Client.firstRequest ∨
      ∃ out stamp user, s.threads t = .returned out stamp ∧ Client.next user out = .request inp
  | _ => True

/-- An acceptance takes effect only when no decision was taken on the connector
since the status of the response it replies to was read. -/
def Timely (s : State) : Action → Prop
  | .thread t => ∀ r shown, s.threads t = .acceptHostKey r true →
      s.sh.status = .unknownHostKey → r.answers = some shown → shown.stamp = s.sh.decisions
  | _ => True

/-- What a thread has read of a prompt: when, and the fingerprint once it has read it. -/
structure View where
  stamp : ℕ
  fingerprint : Option Text

def Shown.view (v : Shown) : View := ⟨v.stamp, some v.fingerprint⟩

def ThreadPc.view : ThreadPc → Option View
  | .fingerprint _ stamp => some ⟨stamp, none⟩
  | .returned out stamp => (ThreadPc.shown (.returned out stamp)).map Shown.view
  | .acceptHostKey r _ => r.answers.map Shown.view
  | _ => none

/-- A view that no decision has outdated is one of the prompt that is up. -/
def View.Current (env : Env) (s : State) (v : View) : Prop :=
  v.stamp ≤ s.sh.decisions ∧
    (v.stamp = s.sh.decisions → ∃ c ch, s.hostKey = .receive c ch ∧ s.sh.buffer ch = none ∧
      ∀ f, v.fingerprint = some f → f = env.fingerprintSHA256 c.key)

structure State.Viewed (env : Env) (s : State) : Prop where
  current : ∀ t v, (s.threads t).view = some v → v.Current env s
  /-- The decision that is being sent outdates every view, and an acceptance is
  for the fingerprint of the prompt. -/
  sending : ∀ t r b, s.threads t = .sendDecision r b →
    (∀ t' v, (s.threads t').view = some v → v.stamp < s.sh.decisions) ∧
    (b = true → ∀ c ch, s.hostKey = .receive c ch →
      r.answers.map Shown.fingerprint = some (env.fingerprintSHA256 c.key))
  accepting : ∀ t r, s.threads t = .acceptHostKey r true → r.answers.isSome = true
  passphrase : ∀ t r inp, s.threads t = .setPassphrase r inp → inp.acceptHostKey = none
  decided : ∀ t p shown, .decided t p true shown ∈ s.sh.log → shown = some p.fingerprint

section Steps

variable {env : Env} {s u : State} {a : Action}

theorem State.Viewed.frame (hs : s.Viewed env) (ht : u.threads = s.threads)
    (hd : u.sh.decisions = s.sh.decisions)
    (hk : s.Undecided → u.hostKey = s.hostKey ∧ u.sh.buffer = s.sh.buffer)
    (hsend : ∀ t r b, s.threads t = .sendDecision r b → u.hostKey = s.hostKey)
    (hl : ∀ t p shown, .decided t p true shown ∈ u.sh.log → .decided t p true shown ∈ s.sh.log) :
    u.Viewed env := by
  refine ⟨fun t v hv => ?_, fun t r b hpc => ?_, ?_, ?_, fun t p shown h =>
    hs.decided t p shown (hl t p shown h)⟩
  · rw [ht] at hv
    obtain ⟨hle, hcur⟩ := hs.current t v hv
    refine ⟨hd ▸ hle, fun he => ?_⟩
    obtain ⟨c, ch, hr, hb, hf⟩ := hcur (hd ▸ he)
    obtain ⟨hk, hbuf⟩ := hk ⟨c, ch, hr, hb⟩
    exact ⟨c, ch, hk ▸ hr, hbuf ▸ hb, hf⟩
  · rw [ht] at hpc ⊢
    rw [hd, hsend t r b hpc]
    exact hs.sending t r b hpc
  · rw [ht]
    exact hs.accepting
  · rw [ht]
    exact hs.passphrase

theorem State.Viewed.setThread {sh : Shared} {t : ℕ} {pc : ThreadPc} (hs : s.Viewed env)
    (hd : sh.decisions = s.sh.decisions) (hb : sh.buffer = s.sh.buffer) (hl : sh.log = s.sh.log)
    (hv : ∀ v, pc.view = some v → v.Current env s)
    (hv' : ∀ v, pc.view = some v → ∀ t' r b, s.threads t' = .sendDecision r b →
      v.stamp < s.sh.decisions)
    (hsend : ∀ r b, pc ≠ .sendDecision r b)
    (hacc : ∀ r, pc = .acceptHostKey r true → r.answers.isSome = true)
    (hpass : ∀ r inp, pc = .setPassphrase r inp → inp.acceptHostKey = none) :
    State.Viewed env ({ s with sh := sh }.setThread t pc) := by
  have hcur : ∀ v : View, v.Current env s → v.Current env ({ s with sh := sh }.setThread t pc) := by
    intro v ⟨hle, h⟩
    refine ⟨hd ▸ hle, fun he => ?_⟩
    obtain ⟨c, ch, hr, he', hf⟩ := h (hd ▸ he)
    exact ⟨c, ch, hr, hb ▸ he', hf⟩
  refine ⟨fun t' v h => ?_, fun t' r b h => ?_, fun t' r h => ?_, fun t' r inp h => ?_, ?_⟩
  · rw [setThread_threads] at h
    split at h
    · exact hcur v (hv v h)
    · exact hcur v (hs.current t' v h)
  · rw [setThread_threads] at h
    split at h
    · exact (hsend r b h).elim
    · obtain ⟨hlt, hf⟩ := hs.sending t' r b h
      refine ⟨fun t₁ v hv₁ => ?_, hf⟩
      rw [setThread_threads] at hv₁
      show v.stamp < sh.decisions
      rw [hd]
      split at hv₁
      · exact hv' v hv₁ t' r b h
      · exact hlt t₁ v hv₁
  · rw [setThread_threads] at h
    split at h
    · exact hacc r h
    · exact hs.accepting t' r h
  · rw [setThread_threads] at h
    split at h
    · exact hpass r inp h
    · exact hs.passphrase t' r inp h
  · intro t' p shown h
    exact hs.decided t' p shown (hl ▸ h)

theorem State.Viewed.setThread_blind {t : ℕ} {pc : ThreadPc} (hs : s.Viewed env) (sh : Shared)
    (hd : sh.decisions = s.sh.decisions) (hb : sh.buffer = s.sh.buffer) (hl : sh.log = s.sh.log)
    (hv : pc.view = none) (hsend : ∀ r b, pc ≠ .sendDecision r b)
    (hacc : ∀ r, pc ≠ .acceptHostKey r true)
    (hpass : ∀ r inp, pc = .setPassphrase r inp → inp.acceptHostKey = none) :
    State.Viewed env ({ s with sh := sh }.setThread t pc) :=
  hs.setThread hd hb hl (fun v h => by simp [hv] at h) (fun v h => by simp [hv] at h) hsend
    (fun r h => (hacc r h).elim) hpass

theorem State.Viewed.setThread_keep {t : ℕ} {pc : ThreadPc} (hs : s.Viewed env) (sh : Shared)
    (hd : sh.decisions = s.sh.decisions) (hb : sh.buffer = s.sh.buffer) (hl : sh.log = s.sh.log)
    (hv : pc.view = (s.threads t).view) (hsend : ∀ r b, pc ≠ .sendDecision r b)
    (hacc : ∀ r, pc = .acceptHostKey r true → r.answers.isSome = true)
    (hpass : ∀ r inp, pc ≠ .setPassphrase r inp) :
    State.Viewed env ({ s with sh := sh }.setThread t pc) :=
  hs.setThread hd hb hl (fun v h => hs.current t v (hv ▸ h))
    (fun v h t' r b hpc => (hs.sending t' r b hpc).1 t v (hv ▸ h)) hsend hacc
    fun r inp h => (hpass r inp h).elim

theorem accept_viewed {t : ℕ} {r : Request} {b : Bool} (hpr : s.Prompting env) (hs : s.Viewed env)
    (hpc : s.threads t = .acceptHostKey r b) (hst : s.sh.status = .unknownHostKey)
    (htimely : ∀ shown, b = true → r.answers = some shown → shown.stamp = s.sh.decisions) :
    State.Viewed env ({ s with
      sh := { s.sh with
        status := .handshake
        lock := .held (.thread t)
        decisions := s.sh.decisions + 1 } }.setThread t (.sendDecision r b)) := by
  -- no thread is sending, for the prompt is still undecided
  have hnone : ∀ t' r' b', s.threads t' ≠ .sendDecision r' b' := fun t' r' b' h =>
    (hpr.deciding t' r' b' h).1 hst
  have hview : ∀ t' v, ((s.setThread t (.sendDecision r b)).threads t').view = some v →
      v.stamp < s.sh.decisions + 1 := by
    intro t' v h
    rw [setThread_threads] at h
    split at h
    · cases h
    · exact Nat.lt_succ_of_le (hs.current t' v h).1
  refine ⟨fun t' v h => ⟨Nat.le_of_lt (hview t' v h), fun he => ?_⟩, fun t' r' b' h => ⟨hview, ?_⟩,
    fun t' r' h => ?_, fun t' r' inp h => ?_, hs.decided⟩
  · exact absurd he (Nat.ne_of_lt (hview t' v h))
  · rw [setThread_threads] at h
    split at h
    · cases h
      intro hb c ch hr
      obtain ⟨shown, hsh⟩ := Option.isSome_iff_exists.mp (hs.accepting t r (hb ▸ hpc))
      obtain ⟨-, hcur⟩ := hs.current t shown.view (by rw [hpc]; simp [ThreadPc.view, hsh])
      obtain ⟨c', ch', hr', -, hf⟩ := hcur (htimely shown hb hsh)
      cases (show s.hostKey = _ from hr).symm.trans hr'
      rw [hsh, ← hf shown.fingerprint rfl]
      rfl
    · exact (hnone t' r' b' h).elim
  · exact hs.accepting t' r' (setThread_other h (by simp)).2
  · exact hs.passphrase t' r' inp (setThread_other h (by simp)).2

theorem send_viewed {t : ℕ} {r : Request} {b : Bool} {c : Call} {ch : ℕ} {sh : Shared}
    (hlk : s.Locked) (hs : s.Viewed env)
    (hpc : s.threads t = .sendDecision r b) (hr : s.hostKey = .receive c ch)
    (hd : sh.decisions = s.sh.decisions)
    (hlog : sh.log = .decided t (pendingOf env (c, ch)) b (r.answers.map Shown.fingerprint) ::
      s.sh.log) :
    State.Viewed env ({ s with sh := sh }.setThread t (.messageCount r)) := by
  obtain ⟨hlt, hf⟩ := hs.sending t r b hpc
  have hview : ∀ t' v, ((s.setThread t (.messageCount r)).threads t').view = some v →
      v.stamp < s.sh.decisions := by
    intro t' v h
    rw [setThread_threads] at h
    split at h
    · cases h
    · exact hlt t' v h
  refine ⟨fun t' v h => ⟨?_, fun he => ?_⟩, fun t' r' b' h => ?_, fun t' r' h => ?_,
    fun t' r' inp h => ?_, fun t' p shown h => ?_⟩
  · exact hd ▸ Nat.le_of_lt (hview t' v h)
  · exact absurd he (hd ▸ Nat.ne_of_lt (hview t' v h))
  · obtain ⟨hne, h⟩ := setThread_other h (by simp)
    cases (hlk t' r' b' h).symm.trans (hlk t r b hpc)
    exact (hne rfl).elim
  · exact hs.accepting t' r' (setThread_other h (by simp)).2
  · exact hs.passphrase t' r' inp (setThread_other h (by simp)).2
  · have h : .decided t' p true shown ∈ sh.log := h
    rw [hlog] at h
    rcases List.mem_cons.mp h with he | hm
    · cases he
      exact hf rfl c ch hr
    · exact hs.decided t' p shown hm

/-- The places where a thread has a view or decides are entered from few others. -/
theorem threadStep_blind {t : ℕ} {sh sh' : Shared} {pc pc' : ThreadPc}
    (h : threadStep t sh pc = some (sh', pc')) (hset : ∀ r inp, pc ≠ .setPassphrase r inp)
    (hacc : ∀ r b, pc ≠ .acceptHostKey r b) (hsend : ∀ r b, pc ≠ .sendDecision r b)
    (hout : ∀ r, pc ≠ .outStatus r) (hfp : ∀ r stamp, pc ≠ .fingerprint r stamp) :
    pc'.view = none ∧ (∀ r b, pc' ≠ .sendDecision r b) ∧ (∀ r, pc' ≠ .acceptHostKey r true) ∧
      ∀ r inp, pc' ≠ .setPassphrase r inp := by
  cases pc with
  | wait l w =>
    obtain ⟨⟨_, o⟩, -, he⟩ := Option.map_eq_some_iff.mp h
    cases he
    cases o <;> cases l <;> simp [threadAt, Loop.again, ThreadPc.view]
  | done1 l =>
    cases h
    split <;> cases l <;> simp [Loop.leave, ThreadPc.view]
  | done2 l =>
    cases h
    split
    · cases l <;> simp [Loop.leave, ThreadPc.view]
    · rcases stay_cases l with ⟨r, hr⟩ | hr <;> rw [hr] <;> simp [ThreadPc.view]
  | _ => grind [threadStep, ThreadPc.view]

theorem setPassphrase_viewed {t : ℕ} {r : Request} {inp : ConnectIn} {sh : Shared} {pc : ThreadPc}
    (hs : s.Viewed env) (hpc : s.threads t = .setPassphrase r inp)
    (h : threadStep t s.sh (.setPassphrase r inp) = some (sh, pc)) :
    State.Viewed env ({ s with sh := sh }.setThread t pc) := by
  have hnone := hs.passphrase t r inp hpc
  have hafter : afterPassphrase r inp = .messageCount r := by simp [afterPassphrase, hnone]
  simp only [threadStep, Option.ite_none_right_eq_some, hafter] at h
  obtain ⟨-, h⟩ := h
  split at h <;> cases h <;>
    exact hs.setThread_blind _ rfl rfl rfl rfl (by simp) (by simp) (by simp)

theorem outStatus_viewed {t : ℕ} {r : Request} {sh : Shared} {pc : ThreadPc}
    (hpr : s.Prompting env) (hs : s.Viewed env)
    (h : threadStep t s.sh (.outStatus r) = some (sh, pc)) :
    State.Viewed env ({ s with sh := sh }.setThread t pc) := by
  cases h
  split
  · rename_i hst
    refine hs.setThread rfl rfl rfl (fun v hv => ?_) (fun v hv t' r' b hpc => ?_) (by simp)
      (by simp) (by simp)
    · cases hv
      obtain ⟨c, ch, hr, he⟩ := hpr.undecided hst
      exact ⟨Nat.le_refl _, fun _ => ⟨c, ch, hr, he, by simp⟩⟩
    · exact ((hpr.deciding t' r' b hpc).1 hst).elim
  · rename_i hst
    refine hs.setThread_blind _ rfl rfl rfl ?_ (by simp) (by simp) (by simp)
    simp [ThreadPc.view, ThreadPc.shown, hst]

theorem fingerprint_viewed {t : ℕ} {r : Request} {stamp : ℕ} {sh : Shared} {pc : ThreadPc}
    (hpr : s.Prompting env) (hs : s.Viewed env) (hpc : s.threads t = .fingerprint r stamp)
    (h : threadStep t s.sh (.fingerprint r stamp) = some (sh, pc)) :
    State.Viewed env ({ s with sh := sh }.setThread t pc) := by
  simp only [threadStep, Option.ite_none_right_eq_some, Option.some.injEq] at h
  cases h.2
  have hview : (s.threads t).view = some ⟨stamp, none⟩ := by rw [hpc]; rfl
  refine hs.setThread rfl rfl rfl (fun v hv => ?_) (fun v hv t' r' b hpc' => ?_) (by simp)
    (by simp) (by simp)
  · cases hv
    obtain ⟨hle, hcur⟩ := hs.current t _ hview
    refine ⟨hle, fun he => ?_⟩
    obtain ⟨c, ch, hr, hb, -⟩ := hcur he
    refine ⟨c, ch, hr, hb, fun f hf => ?_⟩
    have hp : s.sh.pendingHostKey = some (pendingOf env (c, ch)) := by
      rw [hpr.pending, hr]
      rfl
    rw [← Option.some.inj hf, hp]
    rfl
  · cases hv
    exact (hs.sending t' r' b hpc').1 t ⟨stamp, none⟩ hview

theorem threadStep_viewed {t : ℕ} {sh : Shared} {pc : ThreadPc} (hlk : s.Locked)
    (hpr : s.Prompting env) (hs : s.Viewed env) (hg : Timely s (.thread t))
    (h : threadStep t s.sh (s.threads t) = some (sh, pc)) :
    State.Viewed env ({ s with sh := sh }.setThread t pc) := by
  cases hpc : s.threads t with
  | setPassphrase r inp => exact setPassphrase_viewed hs hpc (hpc ▸ h)
  | outStatus r => exact outStatus_viewed hpr hs (hpc ▸ h)
  | fingerprint r stamp => exact fingerprint_viewed hpr hs hpc (hpc ▸ h)
  | acceptHostKey r b =>
    rw [hpc] at h
    simp only [threadStep, Option.ite_none_right_eq_some] at h
    obtain ⟨-, h⟩ := h
    split at h
    · rename_i hst
      cases h
      exact accept_viewed hpr hs hpc hst fun shown hb => hg r shown (hb ▸ hpc) hst
    · cases h
      exact hs.setThread_blind _ rfl rfl rfl rfl (by simp) (by simp) (by simp)
  | sendDecision r b =>
    obtain ⟨c, ch, hr, -, hp⟩ := hpr.prompt (hpr.deciding t r b hpc).2
    rw [hpc] at h
    simp only [threadStep, hp, Option.ite_none_right_eq_some, Option.some.injEq] at h
    cases h.2
    exact send_viewed hlk hs hpc hr rfl rfl
  | _ =>
    have hblind := threadStep_blind h (by simp [hpc]) (by simp [hpc]) (by simp [hpc])
      (by simp [hpc]) (by simp [hpc])
    obtain ⟨hv, hsend, hacc, hset⟩ := hblind
    cases threadStep_move h with
    | accept _ _ he => simp [hpc] at he
    | panic _ _ he => simp [hpc] at he
    | send _ _ _ he => simp [hpc] at he
    | passphrase _ _ he => simp [hpc] at he
    | register =>
      exact hs.setThread_blind _ rfl rfl rfl hv hsend hacc fun r inp he => (hset r inp he).elim
    | quiet =>
      exact hs.setThread_blind _ rfl rfl rfl hv hsend hacc fun r inp he => (hset r inp he).elim

theorem request_viewed {t sid : ℕ} {inp : ConnectIn} (hs : s.Viewed env)
    (hg : FromClients s (.request t sid inp)) :
    State.Viewed env (s.setThread t (startRequest ⟨sid, (s.threads t).shown, []⟩ inp)) := by
  have hplain : inp.acceptHostKey = none →
      State.Viewed env (s.setThread t (startRequest ⟨sid, (s.threads t).shown, []⟩ inp)) := by
    intro hn
    refine hs.setThread_blind s.sh rfl rfl rfl ?_ ?_ ?_ ?_ <;>
      (simp only [startRequest, afterPassphrase, hn]; split)
    all_goals simp_all [ThreadPc.view]
  rcases hg with ⟨-, rfl⟩ | ⟨out, stamp, user, hpc, hnext⟩
  · exact hplain rfl
  · rcases Client.next_request hnext with hn | ⟨hst, rfl⟩
    · exact hplain hn
    · -- the reply to a response that asks keeps the view of the response
      have hshown : (s.threads t).shown = some ⟨out.hostKeyFingerprint, stamp⟩ := by
        simp [hpc, ThreadPc.shown, hst]
      refine hs.setThread_keep s.sh rfl rfl rfl ?_ ?_ ?_ ?_
      · rw [hshown, hpc]
        simp [startRequest, afterPassphrase, ThreadPc.view, ThreadPc.shown, hst]
      · simp [startRequest, afterPassphrase]
      · intro r he
        simp only [startRequest, afterPassphrase, hshown] at he
        cases he
        rfl
      · simp [startRequest, afterPassphrase]

theorem step_viewed (hlk : s.Locked) (hpr : s.Prompting env) (hs : s.Viewed env)
    (hg : FromClients s a ∧ Timely s a) (h : step env s a = some u) : u.Viewed env := by
  have hsame : ∀ u : State, u.threads = s.threads → KeepsPrompt s u → u.Viewed env :=
    fun u ht hk => hs.frame ht hk.decisions (fun _ => ⟨hk.hostKey, hk.buffer⟩)
      (fun _ _ _ _ => hk.hostKey) fun _ _ _ hm => hk.log ▸ hm
  have hstill : a.mover = none → a.decides = false → u.Viewed env := fun hm hd =>
    hsame u (funext fun t => step_threads h (by simp [hm])) (step_keepsPrompt h hd)
  -- a callback that moves on has no undecided prompt, and nobody is sending
  have hcall : ∀ (sh : Shared) (pc : HostKeyPc), ¬s.Undecided →
      sh.decisions = s.sh.decisions →
      (∀ t p shown, .decided t p true shown ∈ sh.log → .decided t p true shown ∈ s.sh.log) →
      State.Viewed env { s with sh := sh, hostKey := pc } := fun sh pc hno hd hl =>
    hs.frame rfl hd (fun hu => (hno hu).elim)
      (fun t r b ht => (hno (hpr.deciding t r b ht).2).elim) hl
  cases a with
  | connect | banner | passwordCall | password | setInteractive | unlock => exact hstill rfl rfl
  | hostKeyCall hostname key =>
    obtain ⟨hi, -, rfl⟩ := step_hostKeyCall h
    rw [hostKeyCall_frame]
    refine hcall _ _ (not_undecided fun c ch hr => by simp [hi] at hr) rfl ?_
    simp
  | hostKey written =>
    obtain ⟨-, sh, pc, hc, rfl⟩ := step_hostKey h
    cases hostKeyStep_move hc with
    | prompt c hpc =>
      refine hcall _ _ (not_undecided fun c ch hr => by simp [hpc] at hr) rfl ?_
      simp
    | receive c ch b hpc hb =>
      refine hcall _ _ ?_ rfl fun _ _ _ hd => hd
      rintro ⟨c', ch', hr, he⟩
      rw [hpc] at hr
      cases hr
      simp [hb] at he
    | clear c ch b hpc =>
      exact hcall _ _ (not_undecided fun c ch hr => by simp [hpc] at hr) rfl fun _ _ _ hd => hd
    | quiet _ _ _ _ _ hq _ hlog =>
      refine hcall _ _ (not_undecided fun c ch hr => ?_) rfl fun t p shown => hlog t p true shown
      simp [hr, HostKeyPc.asking] at hq
  | request t sid inp =>
    obtain ⟨-, rfl⟩ := step_request h
    exact request_viewed hs hg.1
  | connectLoop t =>
    obtain ⟨-, rfl⟩ := step_connectLoop h
    exact hs.setThread_blind s.sh rfl rfl rfl rfl (by simp) (by simp) (by simp)
  | thread t =>
    obtain ⟨-, sh, pc, hc, rfl⟩ := step_thread h
    exact threadStep_viewed hlk hpr hs hg.2 hc
  | send w =>
    cases w with
    | password => exact hstill rfl rfl
    | thread t =>
      obtain ⟨b, ch, rest, -, -, rfl⟩ := step_send h
      simp only [State.wake]
      split
      · rename_i l _ _
        refine hs.setThread_blind _ rfl rfl rfl ?_ ?_ ?_ ?_ <;> cases l <;>
          simp [threadAt, Loop.again, ThreadPc.view]
      · exact hsame _ rfl ⟨rfl, rfl, rfl, rfl, rfl, rfl, Nat.le_refl _⟩

theorem run_viewed {interactive : Bool}
    (h : Run (step env) (fun s a => FromClients s a ∧ Timely s a) (init env interactive) s) :
    s.Viewed env := by
  refine h.invariant_under (Q := fun s => s.Locked ∧ s.Prompting env)
    (fun _ hp => ⟨(reach_room hp).1, reach_prompting hp⟩) ?_ ?_
  · refine ⟨?_, ?_, ?_, ?_, ?_⟩ <;> simp [init, newShared, ThreadPc.view]
  · intro t a u hq hs hg he
    exact step_viewed hq.1 hq.2 hs hg he

end Steps

/-- Every acceptance is applied to the key whose fingerprint the client was
shown, and every appended key was accepted by a client that was shown it. -/
theorem accepted_key_was_shown {env : Env} {interactive : Bool} {s : State}
    (h : Run (step env) (fun s a => FromClients s a ∧ Timely s a) (init env interactive) s) :
    (∀ t p shown, .decided t p true shown ∈ s.sh.log → shown = some p.fingerprint) ∧
    ∀ id hostname key, .appended id hostname key ∈ s.sh.log →
      ∃ t p, p.hostname = hostname ∧ p.key = key ∧
        .decided t p true (some (env.fingerprintSHA256 key)) ∈ s.sh.log := by
  have hv := run_viewed h
  refine ⟨hv.decided, fun id hostname key ha => ?_⟩
  obtain ⟨-, -, -, t, ch, shown, -, hd⟩ := (reach_logged h).history.appended id hostname key ha
  have hshown := hv.decided t _ shown hd
  rw [hshown] at hd
  exact ⟨t, pendingOf env (⟨id, hostname, key⟩, ch), rfl, rfl, hd⟩

section Example

/-- Two addresses with unknown keys; the first refuses the login. -/
def twoHostsEnv : Env where
  addresses := [⟨"u".toList, "h:22".toList⟩, ⟨"u".toList, "g:22".toList⟩]
  user := []
  dialTimeout := fun _ => none
  newClientConn := fun i => if i = 0 then some "ssh: unable to authenticate".toList else none
  hostKeyCallback := fun _ _ => .keyError []
  fingerprintSHA256 := fun key => if key = [2] then "SHA256:b".toList else "SHA256:c".toList

def willing : User := ⟨true, none, none⟩

def yes : ConnectIn := ⟨[], some true⟩

def fromWilling (s : State) : Action → Bool
  | .request t _ inp =>
    match s.threads t with
    | .idle => inp = Client.firstRequest
    | .returned out _ => Client.next willing out = .request inp
    | _ => false
  | _ => true

theorem fromWilling_sound {s : State} {a : Action} (h : fromWilling s a = true) :
    FromClients s a := by
  cases a with
  | request t sid inp =>
    simp only [fromWilling] at h
    split at h
    · rename_i hpc
      exact .inl ⟨hpc, by simpa using h⟩
    · rename_i out stamp hpc
      exact .inr ⟨out, stamp, willing, hpc, by simpa using h⟩
    · cases h
  | _ => trivial

/-- The prompt of the first address, read by the clients `0` and `1`. -/
def firstPrompt : List Action :=
  [.connect, .unlock, .connect, .connect, .connect, .hostKeyCall "h:22".toList [2], .hostKey true,
    .hostKey true, .unlock, .request 0 0 Client.firstRequest] ++ List.replicate 12 (.thread 0) ++
    .request 1 1 Client.firstRequest :: List.replicate 12 (.thread 1)

/-- Client `0` accepts the key of the first address, which is appended. -/
def firstAccepted : List Action :=
  [.request 0 0 yes, .thread 0, .thread 0, .unlock, .hostKey true, .hostKey true, .hostKey true,
    .hostKey true, .unlock, .hostKey true]

/-- The login fails and the second address presents its key. -/
def secondPrompt : List Action :=
  [.connect, .connect, .unlock, .connect, .unlock, .connect, .connect, .connect,
    .hostKeyCall "g:22".toList [3], .hostKey true, .hostKey true, .unlock]

/-- The late yes of client `1` for the key of the first address accepts the key
of the second. -/
theorem accepted_key_was_not_shown :
    ¬∀ (env : Env) (interactive : Bool) (s : State),
      Run (step env) FromClients (init env interactive) s →
        ∀ t p shown, .decided t p true shown ∈ s.sh.log → shown = some p.fingerprint := by
  intro hall
  obtain ⟨s, hs, hp⟩ := (Option.any_eq_true ..).mp
    (show (exec (guarded (fun s a => a.below 2 && fromWilling s a) (step twoHostsEnv))
      (init twoHostsEnv true) (firstPrompt ++ firstAccepted ++ secondPrompt ++
        [.request 1 1 yes, .thread 1, .thread 1])).any (fun s =>
          .decided 1 ⟨"g:22".toList, [3], "SHA256:c".toList, 1⟩ true (some "SHA256:b".toList) ∈
            s.sh.log) = true by decide)
  have hpath : Run (step twoHostsEnv) FromClients (init twoHostsEnv true) s :=
    run_of_exec_below (fun _ _ _ => fromWilling_sound) hs
  have heq := hall twoHostsEnv true s hpath 1 _ _ (of_decide_eq_true hp)
  simp at heq

def timely (s : State) : Action → Bool
  | .thread t =>
    match s.threads t with
    | .acceptHostKey r true => r.answers.all fun shown => shown.stamp = s.sh.decisions
    | _ => true
  | _ => true

theorem timely_sound {s : State} {a : Action} (h : timely s a = true) : Timely s a := by
  cases a with
  | thread t =>
    intro r shown hpc _ hr
    simpa [timely, hpc, hr] using h
  | _ => trivial

theorem accepted_first_key_was_shown :
    ∃ s, Run (step twoHostsEnv) (fun s a => FromClients s a ∧ Timely s a) (init twoHostsEnv true) s ∧
      .appended 0 "h:22".toList [2] ∈ s.sh.log ∧
      ∃ t p, p.hostname = "h:22".toList ∧ p.key = [2] ∧
        .decided t p true (some "SHA256:b".toList) ∈ s.sh.log := by
  obtain ⟨s, hs, hp⟩ := (Option.any_eq_true ..).mp
    (show (exec (guarded (fun s a => a.below 2 && (fromWilling s a && timely s a))
      (step twoHostsEnv)) (init twoHostsEnv true) (firstPrompt ++ firstAccepted)).any
        (fun s => .appended 0 "h:22".toList [2] ∈ s.sh.log) = true by decide)
  have ha := of_decide_eq_true hp
  have hpath : Run (step twoHostsEnv) (fun s a => FromClients s a ∧ Timely s a)
      (init twoHostsEnv true) s := by
    refine run_of_exec_below (fun _ _ _ h => ?_) hs
    rw [Bool.and_eq_true] at h
    exact ⟨fromWilling_sound h.1, timely_sound h.2⟩
  exact ⟨s, hpath, ha, (accepted_key_was_shown hpath).2 0 _ _ ha⟩

end Example

end SshTunnel.Connector
