import SshTunnel.Connector.Progress

/-!
# The calls of `AcceptHostKey` (`dialer/sshdialer.go:279-290`)

The status, the pointer and the decision channel change in different critical
sections. The log ties them together: its last event about prompts says whether
the callback still waits for its decision, and every decision in it belongs to
one callback, which returns it.
-/

namespace SshTunnel.Connector

open Lib.Runs
open Lib.Net (Text)

/-- The channel of the last prompt, unless that has been decided. -/
def openPrompt : List Event → Option ℕ
  | [] => none
  | .prompted _ ch :: _ => some ch
  | .decided .. :: _ => none
  | _ :: log => openPrompt log

/-- The channel on which the callback waits for a decision. -/
def State.awaited (s : State) : Option ℕ :=
  match s.hostKey with
  | .receive _ ch => if s.sh.buffer ch = none then some ch else none
  | _ => none

/-- The channel on which the event sends a decision. -/
def Event.settles : Event → Option ℕ
  | .decided _ p _ _ => some p.decision
  | _ => none

/-- The decision that the running call has received. -/
def HostKeyPc.verdict : HostKeyPc → Option (ℕ × Bool)
  | .clearPending c _ b => some (c.id, b)
  | .append c | .printAdded c => some (c.id, true)
  | .ret c ok => some (c.id, ok)
  | _ => none

/-- The call `id` returns `b` or has done so. -/
def State.Resolves (s : State) (id : ℕ) (b : Bool) : Prop :=
  s.hostKey.verdict = some (id, b) ∨ .returned id b ∈ s.sh.log

structure State.Paired (s : State) : Prop where
  latest : openPrompt s.sh.log = s.awaited
  once : (s.sh.log.filterMap Event.settles).Nodup
  answered : ∀ id ch, .prompted id ch ∈ s.sh.log →
    (∃ c, c.id = id ∧ s.hostKey = .receive c ch) ∨
      ∃ t p b shown, .decided t p b shown ∈ s.sh.log ∧ p.decision = ch ∧ s.Resolves id b
  called : ∀ id ch, .prompted id ch ∈ s.sh.log → ∃ h k, .called id h k ∈ s.sh.log

/-- An event that is neither a prompt nor a decision. -/
def Event.aside : Event → Bool
  | .prompted .. | .decided .. => false
  | _ => true

section Log

variable {log es : List Event}

theorem openPrompt_aside (h : ∀ e ∈ es, e.aside = true) :
    openPrompt (es ++ log) = openPrompt log := by
  induction es with
  | nil => rfl
  | cons e es ih =>
    have ht := ih fun e' he' => h e' (.tail _ he')
    have he := h e (.head _)
    cases e with
    | prompted | decided => cases he
    | _ => exact ht

theorem settles_aside (h : ∀ e ∈ es, e.aside = true) :
    (es ++ log).filterMap Event.settles = log.filterMap Event.settles := by
  induction es with
  | nil => rfl
  | cons e es ih =>
    have ht := ih fun e' he' => h e' (.tail _ he')
    have he := h e (.head _)
    cases e with
    | decided => cases he
    | _ => exact ht

theorem prompted_aside {id ch : ℕ} (h : ∀ e ∈ es, e.aside = true)
    (hp : .prompted id ch ∈ es ++ log) : .prompted id ch ∈ log :=
  (List.mem_append.mp hp).resolve_left fun hm => by cases h _ hm

/-- Nothing is open after a decision until the next prompt. -/
theorem openPrompt_decided {t : ℕ} {p : PendingHostKeyInfo} {b : Bool} {shown : Option Text}
    (h : ∀ id ch, .prompted id ch ∉ es) :
    openPrompt (es ++ .decided t p b shown :: log) = none := by
  induction es with
  | nil => rfl
  | cons e es ih =>
    have ht := ih fun id ch hm => h id ch (.tail _ hm)
    cases e with
    | prompted id ch => exact (h id ch (.head _)).elim
    | decided => rfl
    | _ => exact ht

end Log

section Steps

variable {env : Env} {s u : State} {a : Action}

theorem awaited_eq_none (h : ∀ c ch, s.hostKey ≠ .receive c ch) : s.awaited = none := by
  simp only [State.awaited]

theorem State.Paired.frame (hs : s.Paired) (hk : u.hostKey = s.hostKey)
    (hl : u.sh.log = s.sh.log) (hb : u.sh.buffer = s.sh.buffer) : u.Paired := by
  refine ⟨?_, ?_, ?_, ?_⟩
  · simp only [State.awaited, hl, hk, hb]
    exact hs.latest
  · rw [hl]
    exact hs.once
  · simp only [State.Resolves, hl, hk]
    exact hs.answered
  · rw [hl]
    exact hs.called

/-- The call does not wait for a decision before or after the step. -/
theorem State.Paired.callback (hs : s.Paired) (es : List Event)
    (hk : ∀ c ch, s.hostKey ≠ .receive c ch) (hk' : ∀ c ch, u.hostKey ≠ .receive c ch)
    (hl : u.sh.log = es ++ s.sh.log) (hes : ∀ e ∈ es, e.aside = true)
    (hv : ∀ id b, s.hostKey.verdict = some (id, b) → u.Resolves id b) : u.Paired := by
  refine ⟨?_, ?_, ?_, ?_⟩
  · rw [hl, openPrompt_aside hes, hs.latest, awaited_eq_none hk, awaited_eq_none hk']
  · rw [hl, settles_aside hes]
    exact hs.once
  · intro id ch hp
    rw [hl] at hp
    rcases hs.answered id ch (prompted_aside hes hp) with ⟨c, -, hr⟩ | ⟨t, p, b, shown, hd, hpd, hr⟩
    · exact (hk c ch hr).elim
    · refine .inr ⟨t, p, b, shown, hl ▸ List.mem_append_right _ hd, hpd, ?_⟩
      rcases hr with hr | hr
      · exact hv id b hr
      · exact .inr (hl ▸ List.mem_append_right _ hr)
  · intro id ch hp
    rw [hl] at hp ⊢
    obtain ⟨h, k, hc⟩ := hs.called id ch (prompted_aside hes hp)
    exact ⟨h, k, List.mem_append_right _ hc⟩

theorem prompt_paired {c : Call} {sh : Shared} (hs : s.Paired) (hpr : s.Prompting env)
    (hlogged : s.Logged env) (hpc : s.hostKey = .prompt c)
    (hlog : sh.log = .prompted c.id s.sh.nextChan :: s.sh.log) (hb : sh.buffer = s.sh.buffer) :
    State.Paired { s with sh := sh, hostKey := .receive c s.sh.nextChan } := by
  have hempty : sh.buffer s.sh.nextChan = none := by
    rw [hb]
    exact hpr.fresh _ (Nat.le_refl _)
  have hcur := hlogged.current
  rw [hpc] at hcur
  refine ⟨?_, ?_, ?_, ?_⟩
  · simp only [State.awaited, hlog, openPrompt, hempty, if_true]
  · rw [hlog]
    exact hs.once
  · intro id ch hp
    rw [hlog] at hp
    rcases List.mem_cons.mp hp with he | hm
    · cases he
      exact .inl ⟨c, rfl, rfl⟩
    · rcases hs.answered id ch hm with ⟨c', -, hr⟩ | ⟨t, p, b, shown, hd, hpd, hr⟩
      · cases hpc.symm.trans hr
      · refine .inr ⟨t, p, b, shown, hlog ▸ .tail _ hd, hpd, .inr (hlog ▸ .tail _ ?_)⟩
        rcases hr with hr | hr
        · rw [hpc] at hr
          cases hr
        · exact hr
  · intro id ch hp
    rw [hlog] at hp ⊢
    rcases List.mem_cons.mp hp with he | hm
    · cases he
      exact ⟨c.hostname, c.key, .tail _ hcur.1.1⟩
    · obtain ⟨h, k, hc⟩ := hs.called id ch hm
      exact ⟨h, k, .tail _ hc⟩

theorem receive_paired {c : Call} {ch : ℕ} {b : Bool} (hs : s.Paired) (hlog : s.Logged env)
    (hpc : s.hostKey = .receive c ch) (hb : s.sh.buffer ch = some b) :
    State.Paired { s with
      sh := { s.sh with buffer := Function.update s.sh.buffer ch none }
      hostKey := .clearPending c ch b } := by
  have hcur := hlog.current
  rw [hpc] at hcur
  obtain ⟨t, shown, hd⟩ := hcur.2.2 b hb
  refine ⟨?_, hs.once, ?_, hs.called⟩
  · have hnone : s.awaited = none := by simp [State.awaited, hpc, hb]
    exact hs.latest.trans hnone
  · intro id ch' hp
    refine .inr ?_
    rcases hs.answered id ch' hp with ⟨c', hid, hr⟩ | ⟨t', p, b', shown', hd', hpd, hr⟩
    · cases hpc.symm.trans hr
      exact ⟨t, _, b, shown, hd, rfl, .inl (by rw [← hid]; rfl)⟩
    · refine ⟨t', p, b', shown', hd', hpd, .inr ?_⟩
      rcases hr with hr | hr
      · rw [hpc] at hr
        cases hr
      · exact hr

theorem hostKeyStep_paired {written : Bool} {sh : Shared} {pc : HostKeyPc} (hs : s.Paired)
    (hpr : s.Prompting env) (hlog : s.Logged env)
    (h : hostKeyStep env written s.sh s.hostKey = some (sh, pc)) :
    State.Paired { s with sh := sh, hostKey := pc } := by
  cases hpc : s.hostKey with
  | idle =>
    rw [hpc] at h
    cases h
  | prompt c =>
    rw [hpc] at h
    simp only [hostKeyStep, Option.ite_none_right_eq_some, Option.some.injEq] at h
    cases h.2
    exact prompt_paired hs hpr hlog hpc rfl rfl
  | receive c ch =>
    rw [hpc] at h
    obtain ⟨b, hb, he⟩ := Option.map_eq_some_iff.mp h
    cases he
    exact receive_paired hs hlog hpc hb
  | printMismatch | printUnknown =>
    rw [hpc] at h
    obtain ⟨_, hp, he⟩ := Option.map_eq_some_iff.mp h
    cases he
    obtain ⟨-, rfl⟩ := print_eq hp
    refine hs.callback [] (by simp [hpc]) (by simp) rfl (by simp) ?_
    simp [hpc, HostKeyPc.verdict]
  | testInteractive c =>
    rw [hpc] at h
    cases h
    refine hs.callback [.tested c.id s.sh.interactive] (by simp [hpc]) ?_ rfl
      (by simp [Event.aside]) (by simp [hpc, HostKeyPc.verdict])
    intro c' ch
    dsimp only
    split <;> simp
  | clearPending c ch b =>
    rw [hpc] at h
    simp only [hostKeyStep, Option.ite_none_right_eq_some, Option.some.injEq] at h
    cases h.2
    refine hs.callback [] (by simp [hpc]) (by cases b <;> simp) rfl (by simp) ?_
    intro id b' hv
    refine .inl (Eq.trans ?_ (hpc ▸ hv))
    cases b <;> rfl
  | append c =>
    rw [hpc] at h
    cases h
    refine hs.callback [.appended c.id c.hostname c.key] (by simp [hpc])
      (by cases written <;> simp) rfl (by simp [Event.aside]) ?_
    intro id b hv
    refine .inl (Eq.trans ?_ (hpc ▸ hv))
    cases written <;> rfl
  | printAdded c =>
    rw [hpc] at h
    obtain ⟨_, hp, he⟩ := Option.map_eq_some_iff.mp h
    cases he
    obtain ⟨-, rfl⟩ := print_eq hp
    refine hs.callback [] (by simp [hpc]) (by simp) rfl (by simp) ?_
    intro id b hv
    rw [hpc] at hv
    exact .inl hv
  | ret c ok =>
    rw [hpc] at h
    cases h
    refine hs.callback [.returned c.id ok] (by simp [hpc]) (by simp) rfl
      (by simp [Event.aside]) ?_
    intro id b hv
    rw [hpc] at hv
    cases hv
    exact .inr (.head _)

theorem hostKeyCall_paired {hostname : Text} {key : PublicKey} (hs : s.Paired)
    (hi : s.hostKey = .idle) :
    State.Paired { s with
      sh := (hostKeyCall env s.sh hostname key).1
      hostKey := (hostKeyCall env s.sh hostname key).2 } := by
  rw [hostKeyCall_frame]
  refine hs.callback [.called s.sh.calls hostname key] (by simp [hi]) ?_ rfl
    (by simp [Event.aside]) (by simp [hi, HostKeyPc.verdict])
  intro c ch hr
  have hask : (hostKeyCall env s.sh hostname key).2.asking = none := hostKeyCall_asking ..
  dsimp only at hr
  rw [hr] at hask
  cases hask

/-- The send of a decision ends the wait of the callback for it. -/
theorem sendDecision_paired {t : ℕ} {c : Call} {p : PendingHostKeyInfo} {b : Bool}
    {shown : Option Text} {sh : Shared} {threads : ℕ → ThreadPc} (hs : s.Paired)
    (hlog : s.Logged env) (hpc : s.hostKey = .receive c p.decision)
    (he : s.sh.buffer p.decision = none) (hl : sh.log = .decided t p b shown :: s.sh.log)
    (hb : sh.buffer = Function.update s.sh.buffer p.decision (some b)) :
    State.Paired { s with sh := sh, threads := threads } := by
  refine ⟨?_, ?_, ?_, ?_⟩
  · simp [State.awaited, openPrompt, hl, hpc, hb]
  · rw [hl]
    refine List.nodup_cons.mpr ⟨?_, hs.once⟩
    intro hm
    obtain ⟨e, hem, hes⟩ := List.mem_filterMap.mp hm
    cases e with
    | decided t' q b' shown' =>
      exact hlog.undecided c p.decision hpc he t' q b' shown' hem (Option.some.inj hes)
    | _ => cases hes
  · intro id ch hp
    rw [hl] at hp
    have hp : .prompted id ch ∈ s.sh.log := by simpa using hp
    rcases hs.answered id ch hp with hr | ⟨t', q, b', shown', hd, hq, hr⟩
    · exact .inl hr
    · refine .inr ⟨t', q, b', shown', hl ▸ .tail _ hd, hq, ?_⟩
      exact hr.imp_right fun hm => hl ▸ .tail _ hm
  · intro id ch hp
    rw [hl] at hp ⊢
    obtain ⟨h, k, hc⟩ := hs.called id ch (by simpa using hp)
    exact ⟨h, k, .tail _ hc⟩

theorem step_paired (hpr : s.Prompting env) (hlog : s.Logged env) (hs : s.Paired)
    (h : step env s a = some u) : u.Paired := by
  by_cases ha : a.decides = false
  · have hk := step_keepsPrompt h ha
    exact hs.frame hk.hostKey hk.log hk.buffer
  · cases a with
    | hostKeyCall hostname key =>
      obtain ⟨hi, -, rfl⟩ := step_hostKeyCall h
      exact hostKeyCall_paired hs hi
    | hostKey written =>
      obtain ⟨-, sh, pc, hc, rfl⟩ := step_hostKey h
      exact hostKeyStep_paired hs hpr hlog hc
    | thread t =>
      obtain ⟨-, sh, pc, hc, rfl⟩ := step_thread h
      cases threadStep_move hc with
      | send r b p hpc hp hb =>
        obtain ⟨c, ch, hr, -, hset⟩ := hpr.prompt (hpr.deciding t r b hpc).2
        obtain rfl : p = pendingOf env (c, ch) := Option.some.inj (hp.symm.trans hset)
        exact sendDecision_paired (s := s) hs hlog hr hb rfl rfl
      | _ => exact hs.frame rfl rfl rfl
    | _ => exact (ha rfl).elim

theorem reach_paired {G : State → Action → Prop} {interactive : Bool}
    (h : Run (step env) G (init env interactive) s) : s.Paired := by
  refine h.invariant_under (Q := fun s => s.Prompting env ∧ s.Logged env)
    (fun _ hr => ⟨reach_prompting hr, reach_logged hr⟩) ?_ ?_
  · exact ⟨rfl, List.nodup_nil, fun _ _ hp => (by cases hp), fun _ _ hp => (by cases hp)⟩
  · intro t a u ⟨hp, hl⟩ hs _ he
    exact step_paired hp hl hs he

end Steps

/-- The decision `b` reaches the call `id`, which prompted on `ch`, and the call
returns nothing else. -/
structure State.Determined (s : State) (id ch : ℕ) (b : Bool) : Prop where
  reaches : (∃ c, c.id = id ∧ s.hostKey = .receive c ch ∧ s.sh.buffer ch = some b) ∨
    s.Resolves id b
  returned : ∀ ok, .returned id ok ∈ s.sh.log → ok = b

structure State.AcceptsOnce (env : Env) (s : State) : Prop where
  /-- What the status `unknown_host_key` says while the mutex is free. -/
  pending : s.sh.lock = .free → s.sh.status = .unknownHostKey →
    ∃ p c, s.sh.pendingHostKey = some p ∧ s.sh.buffer p.decision = none ∧
      s.hostKey = .receive c p.decision
  /-- A call that has passed its check can send and returns `nil`. -/
  sends : ∀ t r b, s.threads t = .sendDecision r b → s.sh.lock = .held (.thread t) ∧
    ∃ p u, s.sh.pendingHostKey = some p ∧ step env s (.thread t) = some u ∧
      u.threads t = .messageCount r ∧
      u.sh.log = .decided t p b (r.answers.map Shown.fingerprint) :: s.sh.log
  /-- Meanwhile no other call can make its check. -/
  alone : ∀ t r b, s.threads t = .sendDecision r b → ∀ t' r' b',
    s.threads t' = .acceptHostKey r' b' → step env s (.thread t') = none
  determines : ∀ t p b shown, .decided t p b shown ∈ s.sh.log →
    ∃ id, .prompted id p.decision ∈ s.sh.log ∧
      (∀ id', .prompted id' p.decision ∈ s.sh.log → id' = id) ∧ s.Determined id p.decision b
  /-- No two calls decide the same prompt. -/
  once : (s.sh.log.filterMap Event.settles).Nodup
  /-- A call made between a decision and the next prompt is refused. -/
  refuses : ∀ es log t p b shown, s.sh.log = es ++ .decided t p b shown :: log →
    (∀ id ch, .prompted id ch ∉ es) → ∀ t' r b' u, s.threads t' = .acceptHostKey r b' →
      step env s (.thread t') = some u →
        u = s.setThread t' (.failed (wrongStatusText .unknownHostKey s.sh.status))

section Outcome

variable {env : Env} {s u : State}

theorem awaited_of_undecided (h : s.Undecided) : s.awaited ≠ none := by
  obtain ⟨c, ch, hr, he⟩ := h
  simp [State.awaited, hr, he]

theorem acceptHostKey_refused {t : ℕ} {r : Request} {b : Bool}
    (ht : s.threads t = .acceptHostKey r b) (hst : s.sh.status ≠ .unknownHostKey)
    (h : step env s (.thread t) = some u) :
    u = s.setThread t (.failed (wrongStatusText .unknownHostKey s.sh.status)) := by
  obtain ⟨-, sh, pc, hc, rfl⟩ := step_thread h
  rw [ht] at hc
  simp only [threadStep, Option.ite_none_right_eq_some, if_neg hst, Option.some.injEq] at hc
  cases hc.2
  rfl

theorem running_of_verdict {id : ℕ} {b : Bool} (hlog : s.Logged env)
    (hv : s.hostKey.verdict = some (id, b)) (ok : Bool) : .returned id ok ∉ s.sh.log := by
  have hcur := hlog.current
  cases hpc : s.hostKey with
  | clearPending | append | printAdded | ret =>
    rw [hpc] at hcur hv
    cases hv
    exact hcur.1.2 ok
  | _ =>
    rw [hpc] at hv
    cases hv

theorem decided_determined {t : ℕ} {p : PendingHostKeyInfo} {b : Bool} {shown : Option Text}
    (hlog : s.Logged env) (hs : s.Paired) (hd : .decided t p b shown ∈ s.sh.log) :
    ∃ id, .prompted id p.decision ∈ s.sh.log ∧
      (∀ id', .prompted id' p.decision ∈ s.sh.log → id' = id) ∧
        s.Determined id p.decision b := by
  have hist := hlog.history
  obtain ⟨id, hp⟩ := hist.asked t p b shown hd
  refine ⟨id, hp, fun id' hp' => hist.one_prompt _ _ _ hp' hp, ?_⟩
  rcases hs.answered id p.decision hp with ⟨c, rfl, hr⟩ | ⟨t', q, b', shown', hd', hq, hres⟩
  · -- the callback has not received, so the decision is still in its channel
    have hcur := hlog.current
    rw [hr] at hcur
    obtain ⟨hrun, -, hbuf⟩ := hcur
    cases hb : s.sh.buffer p.decision with
    | none => exact (hlog.undecided c _ hr hb t p b shown hd rfl).elim
    | some b' =>
      obtain ⟨t', shown', hd'⟩ := hbuf b' hb
      obtain rfl : b = b' := hist.one_decision _ _ _ _ _ _ _ _ hd hd' rfl
      exact ⟨.inl ⟨c, rfl, hr, hb⟩, fun ok hret => (hrun.2 ok hret).elim⟩
  · obtain rfl : b = b' := hist.one_decision _ _ _ _ _ _ _ _ hd hd' hq.symm
    refine ⟨.inr hres, fun ok hret => ?_⟩
    rcases hres with hv | hr
    · exact (running_of_verdict hlog hv ok hret).elim
    · -- both answers of the call are what its log says
      obtain ⟨hn, k, hc⟩ := hs.called id _ hp
      have hok := (hist.returned id hn k ok hc hret).1
      have hb := (hist.returned id hn k b hc hr).1
      exact Bool.eq_iff_iff.mpr (hok.trans hb.symm)

end Outcome

/-- The status `unknown_host_key` stands for a prompt whose callback still has to
receive, `AcceptHostKey` sends without blocking, and each call that returns `nil`
decides a prompt of its own. -/
theorem acceptHostKey_decides_once {env : Env} {interactive : Bool} {s : State}
    (h : Reach (step env) (init env interactive) s) : s.AcceptsOnce env := by
  have hlk := (reach_room h).1
  have hpr := reach_prompting h
  have hlog := reach_logged h
  have hs := reach_paired h
  refine ⟨?_, ?_, ?_, ?_, hs.once, ?_⟩
  · intro _ hst
    obtain ⟨c, ch, hr, he, hp⟩ := hpr.prompt (hpr.undecided hst)
    exact ⟨_, c, hp, he, hr⟩
  · intro t r b ht
    obtain ⟨p, u, hp, hu, hret, -, hl⟩ := sendDecision_enabled hlk hpr ht
    exact ⟨hlk t r b ht, p, u, hp, hu, hret, hl⟩
  · intro t r b ht t' r' b' ht'
    simp [step, ht', threadStep, hlk t r b ht]
  · intro t p b shown hd
    exact decided_determined hlog hs hd
  · intro es log t p b shown hl hes t' r b' u ht hstep
    have hnone : s.awaited = none := by
      rw [← hs.latest, hl]
      exact openPrompt_decided hes
    have hst : s.sh.status ≠ .unknownHostKey := fun he =>
      awaited_of_undecided (hpr.undecided he) hnone
    exact acceptHostKey_refused ht hst hstep

/-- Two clients answer one prompt: the first decides it, the second is refused. -/
theorem first_answer_decides :
    ∃ s, Reach (step sampleEnv) (init sampleEnv true) s ∧
      s.sh.log.filterMap Event.settles = [0] ∧
        s.threads 1 = .failed (wrongStatusText .unknownHostKey .handshake) ∧
          s.AcceptsOnce sampleEnv := by
  obtain ⟨s, hr, hs⟩ := reach_of_check (step sampleEnv) (init sampleEnv true)
    ([.connect, .unlock, .connect, .connect, .connect, .hostKeyCall "h:22".toList [2],
      .hostKey true, .hostKey true, .unlock, .request 0 0 ⟨[], some true⟩,
      .request 1 1 ⟨[], some false⟩, .thread 0, .thread 0, .unlock, .thread 1])
    (fun s => s.sh.log.filterMap Event.settles = [0] &&
      s.threads 1 = .failed (wrongStatusText .unknownHostKey .handshake))
    (by decide)
  simp only [Bool.and_eq_true, decide_eq_true_eq] at hs
  exact ⟨s, hr, hs.1, hs.2, acceptHostKey_decides_once hr⟩

end SshTunnel.Connector
