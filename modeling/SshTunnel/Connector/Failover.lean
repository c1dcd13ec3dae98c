import SshTunnel.Connector.Termination

/-!
# Failover over the addresses (`dialer/sshdialer.go:303-317`, `439-472`)

`connect` tries the addresses in list order and keeps the client of the first
one whose dial and handshake succeed. A final status, and a thread that has left
its loop, mean that the loop over the addresses has ended. The field `err` is
never given an error.
-/

namespace SshTunnel.Connector

open Lib.Runs

/-- The TCP dial and the handshake with the address both succeed. -/
def Env.succeeds (env : Env) (i : ℕ) : Bool :=
  (env.dialTimeout i).isNone && (env.newClientConn i).isNone

def Env.firstSuccess (env : Env) : Option ℕ :=
  (List.range env.addresses.length).find? env.succeeds

/-- No address before the `i`-th succeeds. -/
def Env.FailsBelow (env : Env) (i : ℕ) : Prop := ∀ j < i, env.succeeds j = false

def ConnectPc.ended : ConnectPc → Bool
  | .setSucceeded | .clearErr | .deferTest | .deferFail | .deferClear | .deferNotify | .done => true
  | _ => false

/-- What `connect` has found out, by its place. -/
def AttemptOk (env : Env) (client : Option ℕ) : ConnectPc → Prop
  | .loop i _ => client = none ∧ env.FailsBelow i
  | .setConnecting i _ | .dialTimeout i _ =>
    client = none ∧ env.FailsBelow i ∧ i < env.addresses.length
  | .setHandshake i _ | .newClientConn i _ =>
    client = none ∧ env.FailsBelow i ∧ i < env.addresses.length ∧ env.dialTimeout i = none
  | .printDialFailed i _ _ | .printHandshakeFailed i _ _ =>
    client = none ∧ env.FailsBelow (i + 1) ∧ i < env.addresses.length
  | .printHandshakeSucceeded i _ | .setClient i => client = none ∧ env.firstSuccess = some i
  | .setSucceeded | .clearErr | .deferTest | .deferFail | .deferClear | .deferNotify | .done =>
    client = env.firstSuccess

structure State.Attempt (env : Env) (s : State) : Prop where
  place : AttemptOk env s.sh.client s.connect
  err : s.sh.err = none
  status : IsDone s.sh.status → s.connect.ended = true
  exited : ∀ t, s.threads t = .exited → s.connect.ended = true

section FirstSuccess

variable {env : Env} {i : ℕ}

theorem FailsBelow.succ (h : env.FailsBelow i) (hi : env.succeeds i = false) :
    env.FailsBelow (i + 1) := by
  intro j hj
  rcases Nat.lt_succ_iff_lt_or_eq.mp hj with hlt | rfl
  · exact h j hlt
  · exact hi

theorem firstSuccess_of_fails (h : env.FailsBelow i) (hlt : i < env.addresses.length)
    (hi : env.succeeds i = true) : env.firstSuccess = some i := by
  refine List.find?_range_eq_some.mpr ⟨hi, by simpa using hlt, fun j hj => ?_⟩
  simp [h j hj]

theorem firstSuccess_none (h : env.FailsBelow i) (hle : env.addresses.length ≤ i) :
    env.firstSuccess = none := by
  refine List.find?_range_eq_none.mpr fun j hj => ?_
  simp [h j (Nat.lt_of_lt_of_le hj hle)]

end FirstSuccess

section Steps

variable {env : Env} {s u : State} {a : Action}

theorem connectStep_attempt {calm : Bool} {sh sh' : Shared} {pc pc' : ConnectPc}
    (hs : AttemptOk env sh.client pc) (h : connectStep env calm sh pc = some (sh', pc')) :
    AttemptOk env sh'.client pc' := by
  cases pc with
  | loop i user =>
    simp only [connectStep] at h
    split at h
    · rename_i hnone
      cases h
      exact hs.1.trans (firstSuccess_none hs.2 (List.getElem?_eq_none_iff.mp hnone)).symm
    · rename_i addr hsome
      obtain ⟨_, hp, he⟩ := Option.map_eq_some_iff.mp h
      cases he
      obtain ⟨-, rfl⟩ := print_eq hp
      exact ⟨hs.1, hs.2, (List.getElem?_eq_some_iff.mp hsome).1⟩
  | dialTimeout i user =>
    simp only [connectStep] at h
    split at h
    · rename_i err hd
      cases h
      exact ⟨hs.1, FailsBelow.succ hs.2.1 (by simp [Env.succeeds, hd]), hs.2.2⟩
    · rename_i hd
      cases h
      exact ⟨hs.1, hs.2.1, hs.2.2, hd⟩
  | newClientConn i user =>
    simp only [connectStep] at h
    split at h
    · obtain ⟨hc, hf, hlt, hd⟩ := hs
      split at h
      · rename_i err hn
        cases h
        exact ⟨hc, FailsBelow.succ hf (by simp [Env.succeeds, hn]), hlt⟩
      · rename_i hn
        cases h
        exact ⟨hc, firstSuccess_of_fails hf hlt (by simp [Env.succeeds, hd, hn])⟩
    · cases h
  | printDialFailed i | printHandshakeFailed i =>
    obtain ⟨_, hp, he⟩ := Option.map_eq_some_iff.mp h
    cases he
    obtain ⟨-, rfl⟩ := print_eq hp
    exact ⟨hs.1, hs.2.1⟩
  | printHandshakeSucceeded i =>
    obtain ⟨_, hp, he⟩ := Option.map_eq_some_iff.mp h
    cases he
    obtain ⟨-, rfl⟩ := print_eq hp
    exact hs
  | setClient i =>
    cases h
    exact hs.2.symm
  | deferTest =>
    cases h
    split <;> exact hs
  | deferNotify =>
    obtain ⟨_, hn, he⟩ := Option.map_eq_some_iff.mp h
    cases he
    obtain ⟨-, rfl⟩ := notifyWaiting_eq hn
    exact hs
  | setConnecting | setHandshake | setSucceeded | clearErr | deferFail | deferClear =>
    cases h
    exact hs
  | done => cases h

/-- A final status is written after the loop, and nothing leads back into it. -/
theorem connectStep_ended {calm : Bool} {sh sh' : Shared} {pc pc' : ConnectPc}
    (h : connectStep env calm sh pc = some (sh', pc')) :
    (pc.ended = true → pc'.ended = true) ∧ (sh.err = none → sh'.err = none) ∧
      (IsDone sh'.status → IsDone sh.status ∨ pc'.ended = true) := by
  cases pc with
  | deferTest =>
    cases h
    refine ⟨fun _ => ?_, id, .inl⟩
    split <;> rfl
  | deferNotify =>
    obtain ⟨_, hn, he⟩ := Option.map_eq_some_iff.mp h
    cases he
    obtain ⟨-, rfl⟩ := notifyWaiting_eq hn
    exact ⟨fun _ => rfl, id, .inl⟩
  | _ => grind [connectStep, ConnectPc.ended, Shared.print, Shared.notifyWaitingLocked, IsDone]

theorem connectStep_client {calm : Bool} {sh sh' : Shared} {pc pc' : ConnectPc}
    (h : connectStep env calm sh pc = some (sh', pc')) (hpc : ∀ i, pc ≠ .setClient i) :
    sh'.client = sh.client := by
  cases pc with
  | setClient i => exact (hpc i rfl).elim
  | deferNotify =>
    obtain ⟨_, hn, he⟩ := Option.map_eq_some_iff.mp h
    cases he
    obtain ⟨-, rfl⟩ := notifyWaiting_eq hn
    rfl
  | _ => grind [connectStep, Shared.print, Shared.notifyWaitingLocked]

/-- The other goroutines do not touch the attempt, and write no final status. -/
theorem step_attempt_frame (h : step env s a = some u) (ha : a ≠ .connect) :
    u.connect = s.connect ∧ u.sh.client = s.sh.client ∧ u.sh.err = s.sh.err ∧
      (u.sh.status = s.sh.status ∨ ¬IsDone u.sh.status) := by
  cases a with
  | connect => exact (ha rfl).elim
  | banner msg =>
    obtain ⟨-, -, rfl⟩ := step_banner h
    exact ⟨rfl, rfl, rfl, .inl rfl⟩
  | hostKeyCall hostname key =>
    obtain ⟨-, -, rfl⟩ := step_hostKeyCall h
    rw [hostKeyCall_frame]
    exact ⟨rfl, rfl, rfl, .inl rfl⟩
  | hostKey written =>
    obtain ⟨-, sh, pc, hc, rfl⟩ := step_hostKey h
    cases hostKeyStep_move hc with
    | prompt => exact ⟨rfl, rfl, rfl, .inr (by simp [IsDone])⟩
    | _ => exact ⟨rfl, rfl, rfl, .inl rfl⟩
  | passwordCall =>
    obtain ⟨-, -, rfl⟩ := step_passwordCall h
    exact ⟨rfl, rfl, rfl, .inl rfl⟩
  | password =>
    obtain ⟨-, sh, pc, hc, rfl⟩ := step_password h
    cases passwordStep_move hc with
    | setStatus => exact ⟨rfl, rfl, rfl, .inr (by simp [IsDone])⟩
    | register => exact ⟨rfl, rfl, rfl, .inl rfl⟩
    | quiet _ _ st _ _ hst =>
      refine ⟨rfl, rfl, rfl, hst.imp id fun he => ?_⟩
      simp [he, IsDone]
  | request t sid inp =>
    obtain ⟨-, rfl⟩ := step_request h
    exact ⟨rfl, rfl, rfl, .inl rfl⟩
  | connectLoop t =>
    obtain ⟨-, rfl⟩ := step_connectLoop h
    exact ⟨rfl, rfl, rfl, .inl rfl⟩
  | thread t =>
    obtain ⟨-, sh, pc, hc, rfl⟩ := step_thread h
    cases threadStep_move hc with
    | accept => exact ⟨rfl, rfl, rfl, .inr (by simp [IsDone, State.setThread])⟩
    | passphrase => exact ⟨rfl, rfl, rfl, .inr (by simp [IsDone, State.setThread])⟩
    | _ => exact ⟨rfl, rfl, rfl, .inl rfl⟩
  | setInteractive =>
    obtain rfl := step_setInteractive h
    exact ⟨rfl, rfl, rfl, .inl rfl⟩
  | send w =>
    obtain ⟨b, ch, rest, -, -, rfl⟩ := step_send h
    rw [wake_sh, wake_connect]
    exact ⟨rfl, rfl, rfl, .inl rfl⟩
  | unlock =>
    obtain ⟨b, -, rfl⟩ := step_unlock h
    exact ⟨rfl, rfl, rfl, .inl rfl⟩

theorem threadStep_exited {t : ℕ} {sh sh' : Shared} {pc : ThreadPc}
    (h : threadStep t sh pc = some (sh', .exited)) : IsDone sh.status := by
  cases pc with
  | done1 l =>
    simp only [threadStep, Option.some.injEq, Prod.mk.injEq] at h
    by_contra hd
    rw [if_neg fun hs => hd (.inl hs)] at h
    cases h.2
  | done2 l =>
    simp only [threadStep, Option.some.injEq, Prod.mk.injEq] at h
    by_contra hd
    rw [if_neg fun hs => hd (.inr hs)] at h
    rcases stay_cases l with ⟨r, hl⟩ | hl <;> cases hl.symm.trans h.2
  | wait l w =>
    obtain ⟨⟨_, w'⟩, -, he⟩ := Option.map_eq_some_iff.mp h
    simp only [Prod.mk.injEq] at he
    cases w' with
    | some w' => cases he.2
    | none => rcases again_cases l with ⟨r, hl⟩ | hl <;> cases hl.symm.trans he.2
  | setPassphrase r inp =>
    rcases afterPassphrase_cases r inp with ⟨b, hb⟩ | hb <;> grind [threadStep]
  | _ => grind [threadStep]

theorem State.Attempt.frame (hs : s.Attempt env) (hc : u.connect = s.connect)
    (hcl : u.sh.client = s.sh.client) (herr : u.sh.err = s.sh.err)
    (hst : IsDone u.sh.status → IsDone s.sh.status)
    (hex : ∀ t, u.threads t = .exited → s.threads t = .exited ∨ IsDone s.sh.status) :
    u.Attempt env := by
  refine ⟨?_, herr.trans hs.err, fun hd => ?_, fun t ht => ?_⟩
  · rw [hc, hcl]
    exact hs.place
  · rw [hc]
    exact hs.status (hst hd)
  · rw [hc]
    exact (hex t ht).elim (hs.exited t) hs.status

theorem step_attempt (hs : s.Attempt env) (h : step env s a = some u) : u.Attempt env := by
  by_cases ha : a = .connect
  · subst ha
    obtain ⟨-, sh, pc, hc, rfl⟩ := step_connect h
    obtain ⟨hend, herr, hst⟩ := connectStep_ended hc
    refine ⟨connectStep_attempt hs.place hc, herr hs.err, fun hd => ?_, fun t ht => ?_⟩
    · exact (hst hd).elim (fun hd => hend (hs.status hd)) id
    · exact hend (hs.exited t ht)
  obtain ⟨hc, hcl, herr, hst⟩ := step_attempt_frame h ha
  refine hs.frame hc hcl herr (fun hd => hst.elim (fun he => he ▸ hd) fun hn => (hn hd).elim)
    fun t ht => ?_
  by_cases hm : a.mover = some t
  · cases a with
    | request t' sid inp =>
      obtain ⟨-, rfl⟩ := step_request h
      refine .inl (setThread_other ht ?_).2
      unfold startRequest afterPassphrase
      split
      · split <;> simp
      · simp
    | connectLoop t' =>
      obtain ⟨-, rfl⟩ := step_connectLoop h
      exact .inl (setThread_other ht (by simp)).2
    | thread t' =>
      obtain rfl : t' = t := Option.some.inj hm
      obtain ⟨-, sh, pc, hstep, rfl⟩ := step_thread h
      rw [setThread_threads, if_pos rfl] at ht
      subst ht
      exact .inr (threadStep_exited hstep)
    | send w =>
      obtain ⟨b, ch, rest, -, -, rfl⟩ := step_send h
      cases w with
      | password => cases hm
      | thread t' =>
        simp only [State.wake] at ht
        split at ht
        · rename_i l w hw
          refine .inl (setThread_other ht ?_).2
          rcases again_cases l with ⟨r, hl⟩ | hl <;> simp [threadAt, hl]
        · exact .inl ht
    | _ => cases hm
  · exact .inl (step_threads h hm ▸ ht)

theorem reach_attempt {G : State → Action → Prop} {interactive : Bool}
    (h : Run (step env) G (init env interactive) s) : s.Attempt env := by
  refine h.invariant ⟨⟨rfl, fun _ hj => (by cases hj)⟩, rfl, fun hd => ?_, fun t ht => ?_⟩
    fun _ _ _ hs _ he => step_attempt hs he
  · simp [init, newShared, IsDone] at hd
  · cases ht

theorem State.Attempt.client_of_ended (hs : s.Attempt env) (h : s.connect.ended = true) :
    s.sh.client = env.firstSuccess := by
  have hp := hs.place
  cases hpc : s.connect <;> rw [hpc] at hp h <;> first | exact hp | cases h

end Steps

section Completion

variable {env : Env} {s u : State}

/-- Nobody waits on the connector and no callback runs. -/
structure State.Undisturbed (s : State) : Prop where
  lock : s.sh.lock = .free
  waiting : s.sh.waiting = []
  hostKey : s.hostKey = .idle
  password : s.password = .idle
  status : s.connect.closing = true → IsDone s.sh.status

/-- A bound on the steps that `connect` still takes. -/
def ConnectPc.rank (n : ℕ) : ConnectPc → ℕ
  | .loop i _ => 8 * (n - i) + 8
  | .setConnecting i _ => 8 * (n - i) + 7
  | .dialTimeout i _ => 8 * (n - i) + 6
  | .setHandshake i _ => 8 * (n - i) + 5
  | .newClientConn i _ => 8 * (n - i) + 4
  | .printDialFailed i _ _ | .printHandshakeFailed i _ _ => 8 * (n - i) + 1
  | .printHandshakeSucceeded .. => 9
  | .setClient _ => 8
  | .setSucceeded => 7
  | .clearErr => 6
  | .deferTest => 5
  | .deferFail => 4
  | .deferClear => 3
  | .deferNotify => 2
  | .done => 0

theorem connectStep_enabled (env : Env) {sh : Shared} {pc : ConnectPc} (hl : sh.lock = .free)
    (hpc : pc ≠ .done) : ∃ sh' pc', connectStep env true sh pc = some (sh', pc') := by
  cases pc with
  | loop i user => cases hi : env.addresses[i]? <;> simp [connectStep, hi, Shared.print, hl]
  | dialTimeout i user => cases hd : env.dialTimeout i <;> simp [connectStep, hd]
  | newClientConn i user => cases hn : env.newClientConn i <;> simp [connectStep, hn]
  | done => exact (hpc rfl).elim
  | _ => simp [connectStep, Shared.print, Shared.notifyWaiting, hl]

/-- Every step brings `connect` nearer to its end. -/
theorem connectStep_rank {calm : Bool} {sh sh' : Shared} {pc pc' : ConnectPc}
    (hs : AttemptOk env sh.client pc) (h : connectStep env calm sh pc = some (sh', pc')) :
    pc'.rank env.addresses.length < pc.rank env.addresses.length := by
  cases pc with
  | loop i user =>
    simp only [connectStep] at h
    split at h
    · cases h
      simp only [ConnectPc.rank]
      omega
    · obtain ⟨_, -, he⟩ := Option.map_eq_some_iff.mp h
      cases he
      exact Nat.lt_succ_self _
  | dialTimeout i user =>
    simp only [connectStep] at h
    split at h <;> cases h <;> simp only [ConnectPc.rank] <;> omega
  | newClientConn i user =>
    have hlt := hs.2.2.1
    simp only [connectStep] at h
    split at h
    · split at h <;> cases h <;> simp only [ConnectPc.rank] <;> omega
    · cases h
  | printDialFailed i | printHandshakeFailed i =>
    have hlt := hs.2.2
    obtain ⟨_, -, he⟩ := Option.map_eq_some_iff.mp h
    cases he
    simp only [ConnectPc.rank]
    omega
  | printHandshakeSucceeded i =>
    obtain ⟨_, -, he⟩ := Option.map_eq_some_iff.mp h
    cases he
    exact Nat.lt_succ_self _
  | deferNotify =>
    obtain ⟨_, -, he⟩ := Option.map_eq_some_iff.mp h
    cases he
    exact Nat.zero_lt_succ _
  | deferTest =>
    cases h
    split <;> simp [ConnectPc.rank]
  | done => cases h
  | _ =>
    cases h
    simp only [ConnectPc.rank]
    omega

/-- The steps of `connect` and of its notifications. -/
def Action.connects : Action → Bool
  | .connect | .unlock => true
  | _ => false

theorem undisturbed_step (env : Env) (hu : s.Undisturbed) (hpc : s.connect ≠ .done) :
    ∃ sh pc m, connectStep env true s.sh s.connect = some (sh, pc) ∧
      Run (step env) (fun _ a => a.connects = true) s m ∧ m.Undisturbed ∧ m.connect = pc ∧
      m.threads = s.threads := by
  obtain ⟨sh, pc, hc⟩ := connectStep_enabled env hu.lock hpc
  have hcalm : s.calm = true := by
    simp [State.calm, hu.hostKey, hu.password, Shared.busy, hu.lock]
  have hstep : step env s .connect = some { s with sh := sh, connect := pc } := by
    simp [step, Shared.busy, hu.lock, hcalm, hc]
  have hst : pc.closing = true → IsDone sh.status := fun hcl =>
    (connectStep_closing hc hcl).elim id fun h => h.2 ▸ hu.status h.1
  obtain ⟨messages, lock, status, err, client, rfl, hl, -⟩ := connectStep_frame hc
  rcases hl with rfl | ⟨-, rfl⟩
  · refine ⟨_, pc, _, hc, Run.tail .refl rfl hstep, ?_, rfl, rfl⟩
    exact ⟨hu.lock, hu.waiting, hu.hostKey, hu.password, hst⟩
  · -- nobody is registered, so the notification ends at once
    refine ⟨_, pc, { s with
      sh := { s.sh with
        messages := messages, lock := .free, waiting := [], status := status, err := err
        client := client }
      connect := pc }, hc, .tail (.tail .refl rfl hstep) (a := .unlock) rfl ?_, ?_, rfl, rfl⟩
    · simp only [step, hu.waiting]
    · exact ⟨rfl, rfl, hu.hostKey, hu.password, hst⟩

/-- Undisturbed, `connect` runs to its end. -/
theorem attempt_completes (hs : s.Attempt env) (hu : s.Undisturbed) :
    ∃ u, Run (step env) (fun _ a => a.connects = true) s u ∧ u.Undisturbed ∧
      u.connect = .done ∧ u.threads = s.threads := by
  induction hr : s.connect.rank env.addresses.length using Nat.strong_induction_on
    generalizing s with
  | _ r ih =>
    by_cases hpc : s.connect = .done
    · exact ⟨s, .refl, hu, hpc, rfl⟩
    obtain ⟨sh, pc, m, hc, hp, hm, rfl, ht⟩ := undisturbed_step env hu hpc
    have hrank := connectStep_rank hs.place hc
    have hma : m.Attempt env := hp.invariant hs fun _ _ _ hs _ he => step_attempt hs he
    obtain ⟨u, hpu, huu, hdone, htu⟩ := ih _ (hr ▸ hrank) hma hm rfl
    exact ⟨u, hp.trans hpu, huu, hdone, htu.trans ht⟩

theorem loop_exits (env : Env) {t : ℕ} (hl : s.sh.lock = .free) (hd : IsDone s.sh.status)
    (ht : s.threads t = .done1 .connect) :
    ∃ u, Run (step env) (fun _ a => a = .thread t) s u ∧ u.threads t = .exited := by
  have hb : s.sh.busy (.thread t) = false := by simp [Shared.busy, hl]
  rcases hd with hd | hd
  · refine ⟨s.setThread t .exited, .tail .refl rfl ?_, by simp [State.setThread]⟩
    simp [step, hb, ht, threadStep, hd, Loop.leave]
  · refine ⟨(s.setThread t (.done2 .connect)).setThread t .exited,
      .tail (.tail .refl rfl (u := s.setThread t (.done2 .connect)) ?_) rfl ?_,
      by simp [State.setThread]⟩
    · simp [step, hb, ht, threadStep, hd]
    · simp [step, State.setThread, hb, threadStep, hd, Loop.leave]

end Completion

end SshTunnel.Connector
