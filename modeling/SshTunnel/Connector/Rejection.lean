import SshTunnel.Connector.Clients

/-!
# A client that rejects a host key (`commands/connect.go:68-87`)

One process of the connect command together with the connector of its id. The
process sends a decision only when its user accepts the key; otherwise it exits
without a request, and nobody else decides the prompt.
-/

namespace SshTunnel.Connector

open Lib.Runs
open Control (ConnectIn ConnectOut)
open Client (User)

structure Dialogue where
  conn : State
  /-- The process has ended; the input its user had given last. -/
  ended : Option User

inductive DialogueAction where
  /-- The process acts on its last response. -/
  | client (user : User)
  | daemon (a : Action)

/-- An action of the daemon that starts no request and leaves the thread of the
client to the client. -/
def Action.internal (t : ℕ) : Action → Bool
  | .request .. => false
  | .connectLoop t' => t' ≠ t
  | _ => true

/-- The client is served by the thread `t` under the id `sid`. -/
def dialogueStep (env : Env) (t sid : ℕ) (s : Dialogue) : DialogueAction → Option Dialogue
  | .client user =>
    if s.ended.isSome then none
    else
      match s.conn.threads t with
      | .idle => (step env s.conn (.request t sid Client.firstRequest)).map fun c =>
          { s with conn := c }
      | .returned out _ =>
        match Client.next user out with
        | .request inp => (step env s.conn (.request t sid inp)).map fun c => { s with conn := c }
        | .exit _ | .fail => some { s with ended := some user }
      -- the error of `Connect` ends the command
      | .failed _ | .panicked => some { s with ended := some user }
      | _ => none
  | .daemon a =>
    if a.internal t then (step env s.conn a).map fun c => { s with conn := c } else none

def start (env : Env) (interactive : Bool) : Dialogue := ⟨init env interactive, none⟩

/-- The callback of the call waits for its decision, and none has been sent. -/
structure State.Awaits (env : Env) (s : State) (c : Call) (ch : ℕ) : Prop where
  receives : s.hostKey = .receive c ch
  pending : s.sh.pendingHostKey = some (pendingOf env (c, ch))
  unsent : s.sh.buffer ch = none

/-- The process has ended after an answer to the prompt of this response that is
not an acceptance. -/
def Dialogue.Rejected (t : ℕ) (s : Dialogue) (out : ConnectOut) : Prop :=
  ∃ user stamp, s.ended = some user ∧ user.accepts = false ∧
    s.conn.threads t = .returned out stamp ∧ out.status = .unknownHostKey

/-- The rejection has been delivered and the prompt is not pending any more. -/
def Dialogue.Settled (env : Env) (t : ℕ) (s : Dialogue) : Prop :=
  ∀ out, s.Rejected t out →
    (∃ p shown, .decided t p false shown ∈ s.conn.sh.log ∧
      p.fingerprint = out.hostKeyFingerprint) ∧
    ¬∃ c ch, s.conn.Awaits env c ch ∧ env.fingerprintSHA256 c.key = out.hostKeyFingerprint

def Accepting (t : ℕ) (s : Dialogue) : DialogueAction → Prop
  | .client user => ∀ out stamp, s.conn.threads t = .returned out stamp →
      out.status = .unknownHostKey → user.accepts = true
  | .daemon _ => True

/-- A thread outside the requests: unused, or in the loop of `SSHDialer.Connect`. -/
def ThreadPc.dials : ThreadPc → Bool
  | .idle | .exited | .done1 .connect | .done2 .connect | .wait .connect _ => true
  | _ => false

/-- Only the thread of the client is in a request, and no decision has been taken
since the response that it has. -/
structure State.Sole (t : ℕ) (s : State) : Prop where
  others : ∀ t', t' ≠ t → (s.threads t').dials = true
  current : ∀ v, (s.threads t).view = some v → v.stamp = s.sh.decisions

section Steps

variable {env : Env} {t sid : ℕ} {s u : State} {a : Action}

theorem threadStep_dials {t' : ℕ} {sh sh' : Shared} {pc pc' : ThreadPc}
    (h : threadStep t' sh pc = some (sh', pc')) (hd : pc.dials = true) :
    pc'.dials = true ∧ sh'.decisions = sh.decisions := by
  cases pc with
  | done1 l | done2 l =>
    cases l with
    | request r st => cases hd
    | connect =>
      cases h
      exact ⟨by split <;> rfl, rfl⟩
  | wait l w =>
    cases l with
    | request r st => cases hd
    | connect =>
      obtain ⟨⟨_, w'⟩, hw, he⟩ := Option.map_eq_some_iff.mp h
      cases he
      cases waitStep_move hw with
      | register => exact ⟨rfl, rfl⟩
      | quiet => cases w' <;> exact ⟨rfl, rfl⟩
  | idle | exited => cases h
  | _ => cases hd

/-- A response, or the reply to it, has the number of decisions at its status read. -/
theorem threadStep_view {sh sh' : Shared} {pc pc' : ThreadPc}
    (h : threadStep t sh pc = some (sh', pc'))
    (hpass : ∀ r inp, pc = .setPassphrase r inp → inp.acceptHostKey = none)
    (hv : ∀ v, pc.view = some v → v.stamp = sh.decisions) (v : View)
    (hv' : pc'.view = some v) : v.stamp = sh'.decisions := by
  cases pc with
  | setPassphrase r inp =>
    have hafter : afterPassphrase r inp = .messageCount r := by
      simp [afterPassphrase, hpass r inp rfl]
    simp only [threadStep, Option.ite_none_right_eq_some, hafter] at h
    obtain ⟨-, h⟩ := h
    split at h <;> cases h <;> cases hv'
  | acceptHostKey r b =>
    simp only [threadStep, Option.ite_none_right_eq_some] at h
    obtain ⟨-, h⟩ := h
    split at h <;> cases h <;> cases hv'
  | sendDecision r b =>
    simp only [threadStep] at h
    split at h
    · cases h
      cases hv'
    · simp only [Option.ite_none_right_eq_some, Option.some.injEq] at h
      cases h.2
      cases hv'
  | outStatus r =>
    cases h
    split at hv'
    · cases hv'
      rfl
    · rename_i hst
      simp [ThreadPc.view, ThreadPc.shown, hst] at hv'
  | fingerprint r stamp =>
    simp only [threadStep, Option.ite_none_right_eq_some, Option.some.injEq] at h
    cases h.2
    cases hv'
    exact hv ⟨stamp, none⟩ rfl
  | _ =>
    obtain ⟨hnone, -⟩ := threadStep_blind h (by simp) (by simp) (by simp) (by simp) (by simp)
    simp [hnone] at hv'

theorem step_decisions (h : step env s a = some u) (ha : ∀ t', a ≠ .thread t') :
    u.sh.decisions = s.sh.decisions := by
  by_cases hd : a.decides = false
  · exact (step_keepsPrompt h hd).decisions
  · cases a with
    | thread t' => exact (ha t' rfl).elim
    | hostKeyCall hostname key =>
      obtain ⟨-, -, rfl⟩ := step_hostKeyCall h
      rw [hostKeyCall_frame]
    | hostKey written =>
      obtain ⟨-, sh, pc, hc, rfl⟩ := step_hostKey h
      cases hostKeyStep_move hc <;> rfl
    | _ => exact (hd rfl).elim

/-- An action that can belong to the system of one client. -/
def Action.OfDialogue (t : ℕ) (s : State) (a : Action) : Prop :=
  FromClients s a ∧ (∀ t' sid inp, a = .request t' sid inp → t' = t) ∧ a ≠ .connectLoop t

theorem State.Sole.timely (hs : s.Sole t) : Timely s a := by
  cases a with
  | thread t' =>
    intro r shown hpc _ hr
    by_cases ht : t' = t
    · subst ht
      exact hs.current shown.view (by simp [hpc, ThreadPc.view, hr])
    · have hd := hs.others t' ht
      rw [hpc] at hd
      cases hd
  | _ => trivial

theorem step_others (hs : s.Sole t) (ha : a.OfDialogue t s) (h : step env s a = some u) (t' : ℕ)
    (ht : t' ≠ t) : (u.threads t').dials = true := by
  by_cases hm : a.mover = some t'
  · cases a with
    | request t₁ sid inp => exact absurd (Option.some.inj hm ▸ ha.2.1 t₁ sid inp rfl) ht
    | connectLoop t₁ =>
      obtain ⟨-, rfl⟩ := step_connectLoop h
      obtain rfl : t₁ = t' := Option.some.inj hm
      rw [setThread_threads, if_pos rfl]
      rfl
    | thread t₁ =>
      obtain ⟨-, sh, pc, hc, rfl⟩ := step_thread h
      obtain rfl : t₁ = t' := Option.some.inj hm
      rw [setThread_threads, if_pos rfl]
      exact (threadStep_dials hc (hs.others t₁ ht)).1
    | send w =>
      obtain ⟨b, ch, rest, -, -, rfl⟩ := step_send h
      cases w with
      | password => cases hm
      | thread t₁ =>
        obtain rfl : t₁ = t' := Option.some.inj hm
        have hd := hs.others t₁ ht
        simp only [State.wake]
        split
        · rename_i l w hw
          rw [show s.threads t₁ = .wait l w from hw] at hd
          rw [setThread_threads, if_pos rfl]
          cases l with
          | request r st => cases hd
          | connect => rfl
        · exact hd
    | _ => cases hm
  · rw [step_threads h hm]
    exact hs.others t' ht

theorem step_sole (hv : s.Viewed env) (hs : s.Sole t) (ha : a.OfDialogue t s)
    (h : step env s a = some u) : u.Sole t := by
  refine ⟨fun t' ht => step_others hs ha h t' ht, fun v hview => ?_⟩
  -- a view that is kept is outdated only by a decision, which another thread cannot take
  have hkeep : ∀ v, (s.threads t).view = some v → (∀ t', a ≠ .thread t') →
      v.stamp = u.sh.decisions := fun v hold hno =>
    (hs.current v hold).trans (step_decisions h hno).symm
  by_cases hm : a.mover = some t
  · cases a with
    | request t₁ sid inp =>
      obtain rfl : t₁ = t := Option.some.inj hm
      have hu : u = s.setThread t₁ (startRequest ⟨sid, (s.threads t₁).shown, []⟩ inp) :=
        (step_request h).2
      rw [hu, setThread_threads, if_pos rfl] at hview
      rcases startRequest_cases ⟨sid, (s.threads t₁).shown, []⟩ inp with hr | ⟨b, hr⟩ | hr
      · rw [hr] at hview
        cases hview
      · rw [hr] at hview
        refine hkeep v ?_ (by simp)
        rcases ha.1 with ⟨hidle, -⟩ | ⟨out, stamp, user, hret, -⟩
        · simp [hidle, ThreadPc.view, ThreadPc.shown] at hview
        · rw [hret] at hview ⊢
          exact hview
      · rw [hr] at hview
        cases hview
    | connectLoop t₁ =>
      obtain rfl : t₁ = t := Option.some.inj hm
      exact (ha.2.2 rfl).elim
    | thread t₁ =>
      obtain ⟨-, sh, pc, hc, rfl⟩ := step_thread h
      obtain rfl : t₁ = t := Option.some.inj hm
      rw [setThread_threads, if_pos rfl] at hview
      exact threadStep_view hc (hv.passphrase t₁) hs.current v hview
    | send w =>
      obtain ⟨b, ch, rest, -, hp, hu⟩ := step_send h
      cases w with
      | password => cases hm
      | thread t₁ =>
        obtain rfl : t₁ = t := Option.some.inj hm
        rw [hu] at hview
        simp only [State.wake] at hview
        split at hview
        · rename_i l w hw
          rw [setThread_threads, if_pos rfl] at hview
          cases l <;> cases hview
        · exact hkeep v hview (by simp)
    | _ => cases hm
  · rw [step_threads h hm] at hview
    by_cases hth : ∃ t', a = .thread t'
    · obtain ⟨t', rfl⟩ := hth
      obtain ⟨-, sh, pc, hc, rfl⟩ := step_thread h
      have hne : t' ≠ t := fun he => hm (congrArg some he)
      exact (hs.current v hview).trans (threadStep_dials hc (hs.others t' hne)).2.symm
    · exact hkeep v hview fun t' he => hth ⟨t', he⟩

theorem step_receive {c : Call} {ch : ℕ} (hr : s.hostKey = .receive c ch)
    (hb : s.sh.buffer ch = none) (hno : ∀ t r b, s.threads t ≠ .sendDecision r b)
    (h : step env s a = some u) : u.hostKey = .receive c ch ∧ u.sh.buffer ch = none := by
  by_cases ha : a.decides = false
  · have hk := step_keepsPrompt h ha
    exact ⟨hk.hostKey.trans hr, by rw [hk.buffer]; exact hb⟩
  · cases a with
    | hostKeyCall hostname key =>
      obtain ⟨hi, -, -⟩ := step_hostKeyCall h
      rw [hr] at hi
      cases hi
    | hostKey written =>
      obtain ⟨-, sh, pc, hc, -⟩ := step_hostKey h
      rw [hr] at hc
      simp [hostKeyStep, hb] at hc
    | thread t' =>
      obtain ⟨-, sh, pc, hc, rfl⟩ := step_thread h
      cases threadStep_move hc with
      | panic r b hpc => exact (hno t' r b hpc).elim
      | send r b p hpc => exact (hno t' r b hpc).elim
      | _ => exact ⟨hr, hb⟩
    | _ => exact (ha rfl).elim

end Steps

section Dialogues

variable {env : Env} {interactive : Bool} {t sid : ℕ} {s u : Dialogue} {a : DialogueAction}

theorem dialogueStep_cases (h : dialogueStep env t sid s a = some u) :
    (∃ b, step env s.conn b = some u.conn ∧ b.OfDialogue t s.conn ∧ u.ended = s.ended ∧
      (s.ended.isSome = true → b.internal t = true)) ∨
    ∃ user, a = .client user ∧ s.ended = none ∧ (s.conn.threads t).atRest = true ∧
      u = { s with ended := some user } := by
  cases a with
  | client user =>
    simp only [dialogueStep, Option.ite_none_left_eq_some, Option.not_isSome_iff_eq_none] at h
    obtain ⟨hend, h⟩ := h
    have hreq : ∀ inp, FromClients s.conn (.request t sid inp) →
        (step env s.conn (.request t sid inp)).map (fun c => { s with conn := c }) = some u →
        ∃ b, step env s.conn b = some u.conn ∧ b.OfDialogue t s.conn ∧ u.ended = s.ended ∧
          (s.ended.isSome = true → b.internal t = true) := by
      intro inp hfrom he
      obtain ⟨c, hc, rfl⟩ := Option.map_eq_some_iff.mp he
      refine ⟨.request t sid inp, hc, ⟨hfrom, ?_, by simp⟩, rfl, by simp [hend]⟩
      rintro t' sid' inp' he'
      cases he'
      rfl
    split at h
    · rename_i hidle
      exact .inl (hreq _ (.inl ⟨hidle, rfl⟩) h)
    · rename_i out stamp hret
      split at h
      · rename_i inp hn
        exact .inl (hreq inp (.inr ⟨out, stamp, user, hret, hn⟩) h)
      · exact .inr ⟨user, rfl, hend, by rw [hret]; rfl, (Option.some.inj h).symm⟩
      · exact .inr ⟨user, rfl, hend, by rw [hret]; rfl, (Option.some.inj h).symm⟩
    · rename_i hfail
      exact .inr ⟨user, rfl, hend, by rw [hfail]; rfl, (Option.some.inj h).symm⟩
    · rename_i hpanic
      exact .inr ⟨user, rfl, hend, by rw [hpanic]; rfl, (Option.some.inj h).symm⟩
    · cases h
  | daemon b =>
    simp only [dialogueStep, Option.ite_none_right_eq_some] at h
    obtain ⟨hint, h⟩ := h
    obtain ⟨c, hc, rfl⟩ := Option.map_eq_some_iff.mp h
    refine .inl ⟨b, hc, ?_, rfl, fun _ => hint⟩
    cases b with
    | request => cases hint
    | connectLoop t' =>
      refine ⟨trivial, by simp, fun he => ?_⟩
      cases he
      simp [Action.internal] at hint
    | _ => exact ⟨trivial, by simp, by simp⟩

/-- The runs of the system are runs of the connector whose acceptances are all
for the prompt that the client was shown. -/
theorem dialogue_run {G : Dialogue → DialogueAction → Prop}
    (h : Run (dialogueStep env t sid) G (start env interactive) s) :
    Run (step env) (fun s a => FromClients s a ∧ Timely s a) (init env interactive) s.conn ∧
      s.conn.Sole t := by
  refine h.invariant (P := fun s => Run (step env) (fun s a => FromClients s a ∧ Timely s a)
    (init env interactive) s.conn ∧ s.conn.Sole t) ?_ ?_
  · refine ⟨.refl, fun _ _ => rfl, fun v hv => ?_⟩
    cases hv
  · rintro s a u ⟨hrun, hsole⟩ - hs
    rcases dialogueStep_cases hs with ⟨b, hb, hof, -⟩ | ⟨user, -, -, -, rfl⟩
    · exact ⟨.tail hrun ⟨hof.1, hsole.timely⟩ hb, step_sole (run_viewed hrun) hsole hof hb⟩
    · exact ⟨hrun, hsole⟩

/-- A response that asks is about the prompt that is still undecided. -/
theorem response_awaits {out : ConnectOut} {stamp : ℕ}
    (h : Reach (dialogueStep env t sid) (start env interactive) s)
    (hret : s.conn.threads t = .returned out stamp) (hst : out.status = .unknownHostKey) :
    ∃ c ch, s.conn.Awaits env c ch ∧ env.fingerprintSHA256 c.key = out.hostKeyFingerprint := by
  obtain ⟨hrun, hsole⟩ := dialogue_run h
  have hview : (s.conn.threads t).view = some ⟨stamp, some out.hostKeyFingerprint⟩ := by
    simp [hret, ThreadPc.view, ThreadPc.shown, hst, Shown.view]
  obtain ⟨-, hcur⟩ := (run_viewed hrun).current t _ hview
  obtain ⟨c, ch, hr, hb, hf⟩ := hcur (hsole.current _ hview)
  refine ⟨c, ch, ⟨hr, ?_, hb⟩, (hf _ rfl).symm⟩
  rw [(reach_prompting hrun).pending, hr]
  rfl

theorem step_ended (hend : s.ended.isSome = true) (hrest : (s.conn.threads t).atRest = true)
    (h : dialogueStep env t sid s a = some u) :
    u.ended = s.ended ∧ u.conn.threads t = s.conn.threads t := by
  rcases dialogueStep_cases h with ⟨b, hb, hof, hended, hint⟩ | ⟨_, -, hnone, -⟩
  · refine ⟨hended, step_threads hb fun hm => ?_⟩
    have hb' := hint hend
    cases b with
    | request => cases hb'
    | connectLoop t' =>
      obtain rfl : t' = t := Option.some.inj hm
      exact hof.2.2 rfl
    | thread t' =>
      obtain rfl : t' = t := Option.some.inj hm
      obtain ⟨-, sh, pc, hc, -⟩ := step_thread hb
      cases hpc : s.conn.threads t' <;> simp [hpc, threadStep, ThreadPc.atRest] at hc hrest
    | send w =>
      obtain ⟨_, _, _, -, hp, -⟩ := step_send hb
      cases w with
      | password => cases hm
      | thread t' =>
        obtain rfl : t' = t := Option.some.inj hm
        rw [State.parked, atRest_channel hrest] at hp
        cases hp
    | _ => cases hm
  · rw [hnone] at hend
    cases hend

theorem ended_atRest {G : Dialogue → DialogueAction → Prop}
    (h : Run (dialogueStep env t sid) G (start env interactive) s) :
    s.ended.isSome = true → (s.conn.threads t).atRest = true := by
  refine h.invariant (P := fun s => s.ended.isSome = true → (s.conn.threads t).atRest = true)
    (fun hend => by cases hend) ?_
  intro s a u hs _ hstep hend
  cases hold : s.ended with
  | some user =>
    have hsome : s.ended.isSome = true := by rw [hold]; rfl
    rw [(step_ended hsome (hs hsome) hstep).2]
    exact hs hsome
  | none =>
    rcases dialogueStep_cases hstep with ⟨b, -, -, hended, -⟩ | ⟨_, -, -, hrest, rfl⟩
    · rw [hended, hold] at hend
      cases hend
    · exact hrest

theorem step_rejected {out : ConnectOut} (hrej : s.Rejected t out)
    (h : dialogueStep env t sid s a = some u) : u.Rejected t out := by
  obtain ⟨user, stamp, hend, hacc, hret, hst⟩ := hrej
  obtain ⟨hended, hthread⟩ := step_ended (by rw [hend]; rfl) (by rw [hret]; rfl) h
  exact ⟨user, stamp, hended.trans hend, hacc, hthread.trans hret, hst⟩

/-- Nobody decides a prompt that the client has rejected. -/
theorem rejected_awaits {out : ConnectOut} {c : Call} {ch : ℕ} {v : Dialogue}
    (hr : Reach (dialogueStep env t sid) (start env interactive) u) (hrej : u.Rejected t out)
    (hw : u.conn.Awaits env c ch) (h : Reach (dialogueStep env t sid) u v) :
    v.Rejected t out ∧ v.conn.Awaits env c ch := by
  refine h.invariant_under (P := fun v => v.Rejected t out ∧ v.conn.Awaits env c ch)
    (Q := fun v => Reach (dialogueStep env t sid) (start env interactive) v)
    (fun v hv => hr.trans hv) ⟨hrej, hw⟩ ?_
  rintro v a w hreach ⟨hrej, hw⟩ - hs
  refine ⟨step_rejected hrej hs, ?_⟩
  rcases dialogueStep_cases hs with ⟨b, hb, -⟩ | ⟨user, -, -, -, rfl⟩
  · have hno : ∀ t' r b, v.conn.threads t' ≠ .sendDecision r b := by
      intro t' r b hpc
      by_cases ht : t' = t
      · obtain ⟨_, _, -, -, hret, -⟩ := hrej
        rw [ht, hret] at hpc
        cases hpc
      · have hd := (dialogue_run hreach).2.others t' ht
        rw [hpc] at hd
        cases hd
    obtain ⟨hk, hbuf⟩ := step_receive hw.receives hw.unsent hno hb
    have hrun := (dialogue_run (hreach.trans (.tail .refl trivial hs))).1
    refine ⟨hk, ?_, hbuf⟩
    rw [(reach_prompting hrun).pending, hk]
    rfl
  · exact hw

theorem run_not_rejected (h : Run (dialogueStep env t sid) (Accepting t) (start env interactive) s)
    (out : ConnectOut) : ¬s.Rejected t out := by
  refine (h.invariant_under (P := fun s => ∀ out, ¬s.Rejected t out)
    (Q := fun s => s.ended.isSome = true → (s.conn.threads t).atRest = true)
    (fun _ => ended_atRest) ?_ ?_) out
  · rintro out ⟨user, stamp, hend, -⟩
    cases hend
  · rintro s a u hrest hs hg hstep out ⟨user, stamp, hend, hacc, hret, hst⟩
    rcases dialogueStep_cases hstep with ⟨_, -, -, hended, -⟩ | ⟨_, rfl, -, -, rfl⟩
    · have hold : s.ended = some user := hended.symm.trans hend
      have hsome : s.ended.isSome = true := by rw [hold]; rfl
      have hthread := (step_ended hsome (hrest hsome) hstep).2
      exact hs out ⟨user, stamp, hold, hacc, hthread.symm.trans hret, hst⟩
    · cases hend
      rw [hg out stamp hret hst] at hacc
      cases hacc

theorem not_accepting (h : dialogueStep env t sid s a = some u) (ha : ¬Accepting t s a) :
    ∃ out, u.Rejected t out ∧ u.conn = s.conn := by
  cases a with
  | daemon b => exact (ha trivial).elim
  | client user =>
    simp only [Accepting, not_forall] at ha
    obtain ⟨out, stamp, hret, hst, hacc⟩ := ha
    have hacc : user.accepts = false := by simpa using hacc
    simp only [dialogueStep, Option.ite_none_left_eq_some, hret, Client.next_unknownHostKey hst,
      hacc] at h
    cases h.2
    exact ⟨out, ⟨user, stamp, rfl, hacc, hret, hst⟩, rfl⟩

end Dialogues

/-- As long as the user accepts every key, no rejected prompt is pending. An
answer that is not an acceptance ends the process, and the callback of the key
it was shown waits for a decision in every later state. -/
theorem rejected_prompt_settled (env : Env) (interactive : Bool) (t sid : ℕ) :
    (∀ s, Run (dialogueStep env t sid) (Accepting t) (start env interactive) s →
      s.Settled env t) ∧
    ∀ s a u, Reach (dialogueStep env t sid) (start env interactive) s →
      dialogueStep env t sid s a = some u → ¬Accepting t s a →
      ∃ out c ch, u.Rejected t out ∧ env.fingerprintSHA256 c.key = out.hostKeyFingerprint ∧
        ∀ v, Reach (dialogueStep env t sid) u v → v.conn.Awaits env c ch ∧ ¬v.Settled env t := by
  refine ⟨fun s h out hrej => (run_not_rejected h out hrej).elim, fun s a u hr hs ha => ?_⟩
  obtain ⟨out, hrej, hconn⟩ := not_accepting hs ha
  have hu : Reach (dialogueStep env t sid) (start env interactive) u := .tail hr trivial hs
  obtain ⟨user, stamp, -, -, hret, hst⟩ := id hrej
  obtain ⟨c, ch, hw, hf⟩ := response_awaits hu hret hst
  refine ⟨out, c, ch, hrej, hf, fun v hv => ?_⟩
  obtain ⟨hrej', hw'⟩ := rejected_awaits hu hrej hw hv
  exact ⟨hw', fun hset => (hset out hrej').2 ⟨c, ch, hw', hf⟩⟩

section Example

/-- The host presents an unknown key and the client reads the prompt. -/
def toPrompt : List DialogueAction :=
  [.connect, .unlock, .connect, .connect, .connect, .hostKeyCall "h:22".toList [2], .hostKey true,
    .hostKey true, .unlock].map .daemon ++
    .client ⟨false, none, none⟩ :: List.replicate 12 (.daemon (.thread 0))

/-- The process has a response that asks about a host key. -/
def asks (t : ℕ) (s : Dialogue) : Bool :=
  match s.conn.threads t with
  | .returned out _ => out.status = .unknownHostKey
  | _ => false

theorem asks_iff {t : ℕ} {s : Dialogue} : asks t s = true ↔
    ∃ out stamp, s.conn.threads t = .returned out stamp ∧ out.status = .unknownHostKey := by
  cases hpc : s.conn.threads t <;> simp [asks, hpc]

/-- The user types `no`. -/
theorem rejecting_client_leaves_prompt :
    ¬∀ (env : Env) (interactive : Bool) (t sid : ℕ) (s : Dialogue),
      Reach (dialogueStep env t sid) (start env interactive) s → s.Settled env t := by
  intro hall
  obtain ⟨s, hr, hs⟩ := reach_of_check (dialogueStep sampleEnv 0 0) (start sampleEnv true)
    (toPrompt ++ [.client ⟨false, none, some "no\n".toList⟩])
    (fun s => s.ended.any (fun user => !user.accepts) && asks 0 s) (by decide)
  rw [Bool.and_eq_true] at hs
  obtain ⟨user, hend, hacc⟩ := (Option.any_eq_true ..).mp hs.1
  obtain ⟨out, stamp, hret, hst⟩ := asks_iff.mp hs.2
  have hrej : s.Rejected 0 out := ⟨user, stamp, hend, by simpa using hacc, hret, hst⟩
  exact (hall sampleEnv true 0 0 s hr out hrej).2 (response_awaits hr hret hst)

def accepting (t : ℕ) (s : Dialogue) : DialogueAction → Bool
  | .client user => !asks t s || user.accepts
  | .daemon _ => true

theorem accepting_sound {t : ℕ} {s : Dialogue} {a : DialogueAction} (h : accepting t s a = true) :
    Accepting t s a := by
  cases a with
  | client user =>
    intro out stamp hret hst
    simpa [accepting, asks_iff.mpr ⟨out, stamp, hret, hst⟩] using h
  | daemon b => trivial

/-- The acceptance of the same prompt is delivered. -/
theorem accepting_client_settles_prompt :
    ∃ s, Run (dialogueStep sampleEnv 0 0) (Accepting 0) (start sampleEnv true) s ∧
      .decided 0 ⟨"h:22".toList, [2], "SHA256:b".toList, 0⟩ true (some "SHA256:b".toList) ∈
        s.conn.sh.log ∧ s.Settled sampleEnv 0 := by
  obtain ⟨s, hs, hp⟩ := (Option.any_eq_true ..).mp
    (show (exec (guarded (accepting 0) (dialogueStep sampleEnv 0 0)) (start sampleEnv true)
      (toPrompt ++ [.client ⟨false, none, some "yes\n".toList⟩, .daemon (.thread 0),
        .daemon (.thread 0)])).any (fun s =>
          .decided 0 ⟨"h:22".toList, [2], "SHA256:b".toList, 0⟩ true (some "SHA256:b".toList) ∈
            s.conn.sh.log) = true by decide)
  have hrun : Run (dialogueStep sampleEnv 0 0) (Accepting 0) (start sampleEnv true) s :=
    run_of_exec (I := fun _ => True) (fun _ _ _ _ _ _ => trivial)
      (fun _ _ _ => accepting_sound) trivial hs
  exact ⟨s, hrun, of_decide_eq_true hp, (rejected_prompt_settled sampleEnv true 0 0).1 s hrun⟩

end Example

end SshTunnel.Connector
