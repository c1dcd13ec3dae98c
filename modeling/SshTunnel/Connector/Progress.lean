import SshTunnel.Connector.Decision

/-!
# Progress of the host key callback

How the log grows, and that a callback which does not ask the user can always
return: a notifier finds all its receivers parked, so the mutex can be freed
without the help of any other thread.
-/

namespace SshTunnel.Connector

open Lib.Notify Lib.Runs
open Lib.Net (Text)

inductive LogMove (s u : State) (a : Action) : Prop
  | same (hl : u.sh.log = s.sh.log)
  | called (hostname : Text) (key : PublicKey) (ha : a = .hostKeyCall hostname key)
      (hl : u.sh.log = .called s.sh.calls hostname key :: s.sh.log)
  | tested (written : Bool) (c : Call) (ha : a = .hostKey written)
      (hpc : s.hostKey = .testInteractive c)
      (hl : u.sh.log = .tested c.id s.sh.interactive :: s.sh.log)
  | other (e : Event) (hl : u.sh.log = e :: s.sh.log) (hc : ∀ id h k, e ≠ .called id h k)
      (ht : ∀ id b, e ≠ .tested id b)

section Log

variable {env : Env} {s u : State} {a : Action}

theorem hostKeyStep_log {written : Bool} {sh : Shared} {pc : HostKeyPc}
    (h : hostKeyStep env written s.sh s.hostKey = some (sh, pc)) :
    LogMove s { s with sh := sh, hostKey := pc } (.hostKey written) := by
  cases hpc : s.hostKey with
  | idle =>
    rw [hpc] at h
    cases h
  | printMismatch | printUnknown | printAdded =>
    rw [hpc] at h
    obtain ⟨_, hp, he⟩ := Option.map_eq_some_iff.mp h
    cases he
    obtain ⟨-, rfl⟩ := print_eq hp
    exact .same rfl
  | testInteractive c =>
    rw [hpc] at h
    cases h
    exact .tested written c rfl hpc rfl
  | prompt c =>
    rw [hpc] at h
    simp only [hostKeyStep, Option.ite_none_right_eq_some, Option.some.injEq] at h
    cases h.2
    exact .other _ rfl (by simp) (by simp)
  | receive c ch =>
    rw [hpc] at h
    obtain ⟨b, hb, he⟩ := Option.map_eq_some_iff.mp h
    cases he
    exact .same rfl
  | clearPending c ch b =>
    rw [hpc] at h
    simp only [hostKeyStep, Option.ite_none_right_eq_some, Option.some.injEq] at h
    cases h.2
    exact .same rfl
  | append | ret =>
    rw [hpc] at h
    cases h
    exact .other _ rfl (by simp) (by simp)

theorem step_log (h : step env s a = some u) : LogMove s u a := by
  by_cases ha : a.decides = false
  · exact .same (step_keepsPrompt h ha).log
  · cases a with
    | hostKeyCall hostname key =>
      obtain ⟨-, -, rfl⟩ := step_hostKeyCall h
      exact .called hostname key rfl (by rw [hostKeyCall_frame])
    | hostKey written =>
      obtain ⟨-, sh, pc, hc, rfl⟩ := step_hostKey h
      exact hostKeyStep_log hc
    | thread t =>
      obtain ⟨-, sh, pc, hc, rfl⟩ := step_thread h
      cases threadStep_move hc with
      | send => exact .other _ rfl (by simp) (by simp)
      | _ => exact .same rfl
    | _ => exact (ha rfl).elim

theorem step_log_mono {e : Event} (h : step env s a = some u) (he : e ∈ s.sh.log) :
    e ∈ u.sh.log := by
  cases step_log h with
  | same hl => rwa [hl]
  | called _ _ _ hl => exact hl ▸ .tail _ he
  | tested _ _ _ _ hl => exact hl ▸ .tail _ he
  | other _ hl => exact hl ▸ .tail _ he

theorem step_called {id : ℕ} {hostname : Text} {key : PublicKey} (h : step env s a = some u)
    (he : .called id hostname key ∈ u.sh.log) :
    .called id hostname key ∈ s.sh.log ∨ a = .hostKeyCall hostname key ∧ id = s.sh.calls := by
  cases step_log h with
  | same hl => exact .inl (hl ▸ he)
  | called h' k' ha hl =>
    rcases List.mem_cons.mp (hl ▸ he) with heq | hm
    · cases heq
      exact .inr ⟨ha, rfl⟩
    · exact .inl hm
  | tested _ _ _ _ hl => exact .inl (by simpa [hl] using he)
  | other e hl hc =>
    exact .inl ((List.mem_cons.mp (hl ▸ he)).resolve_left fun heq => hc _ _ _ heq.symm)

theorem step_tested {id : ℕ} {b : Bool} (h : step env s a = some u)
    (he : .tested id b ∈ u.sh.log) :
    .tested id b ∈ s.sh.log ∨ ∃ written c, a = .hostKey written ∧
      s.hostKey = .testInteractive c ∧ c.id = id ∧ s.sh.interactive = b := by
  cases step_log h with
  | same hl => exact .inl (hl ▸ he)
  | called _ _ _ hl => exact .inl (by simpa [hl] using he)
  | tested written c ha hpc hl =>
    rcases List.mem_cons.mp (hl ▸ he) with heq | hm
    · cases heq
      exact .inr ⟨written, c, ha, hpc, rfl, rfl⟩
    · exact .inl hm
  | other e hl _ ht =>
    exact .inl ((List.mem_cons.mp (hl ▸ he)).resolve_left fun heq => ht _ _ heq.symm)

end Log

def HostKeyPc.call : HostKeyPc → Option Call
  | .idle => none
  | .printMismatch c _ | .testInteractive c | .printUnknown c | .prompt c | .receive c _
  | .clearPending c _ _ | .append c | .printAdded c | .ret c _ => some c

/-- Every call has returned or is running. -/
def State.Attended (s : State) : Prop :=
  ∀ id h k, .called id h k ∈ s.sh.log →
    (∃ ok, .returned id ok ∈ s.sh.log) ∨ s.hostKey.call = some ⟨id, h, k⟩

section Attended

variable {env : Env} {s u : State} {a : Action}

theorem hostKeyCall_call (sh : Shared) (hostname : Text) (key : PublicKey) :
    (hostKeyCall env sh hostname key).2.call = some ⟨sh.calls, hostname, key⟩ := by
  simp only [hostKeyCall]
  split <;> rfl

theorem hostKeyStep_call {written : Bool} {sh sh' : Shared} {pc pc' : HostKeyPc}
    (h : hostKeyStep env written sh pc = some (sh', pc')) :
    pc'.call = pc.call ∨ ∃ c ok, pc = .ret c ok ∧ sh'.log = .returned c.id ok :: sh.log := by
  cases pc with
  | idle => cases h
  | printMismatch | printUnknown | printAdded =>
    obtain ⟨_, -, he⟩ := Option.map_eq_some_iff.mp h
    cases he
    exact .inl rfl
  | testInteractive c | append c =>
    cases h
    exact .inl (by split <;> rfl)
  | prompt c =>
    simp only [hostKeyStep, Option.ite_none_right_eq_some, Option.some.injEq] at h
    cases h.2
    exact .inl rfl
  | receive c ch =>
    obtain ⟨_, -, he⟩ := Option.map_eq_some_iff.mp h
    cases he
    exact .inl rfl
  | clearPending c ch b =>
    simp only [hostKeyStep, Option.ite_none_right_eq_some, Option.some.injEq] at h
    cases h.2
    exact .inl (by split <;> rfl)
  | ret c ok =>
    cases h
    exact .inr ⟨c, ok, rfl, rfl⟩

theorem step_hostKeyPc (h : step env s a = some u) (hk : ∀ w, a ≠ .hostKey w)
    (hc : ∀ hostname key, a ≠ .hostKeyCall hostname key) : u.hostKey = s.hostKey := by
  by_cases ha : a.decides = false
  · exact (step_keepsPrompt h ha).hostKey
  · cases a with
    | hostKeyCall hostname key => exact (hc hostname key rfl).elim
    | hostKey w => exact (hk w rfl).elim
    | thread =>
      obtain ⟨-, _, _, -, rfl⟩ := step_thread h
      rfl
    | _ => exact (ha rfl).elim

theorem step_attended (hs : s.Attended) (h : step env s a = some u) : u.Attended := by
  intro id hn k hcalled
  rcases step_called h hcalled with hold | ⟨rfl, rfl⟩
  · rcases hs id hn k hold with ⟨ok, hr⟩ | hcur
    · exact .inl ⟨ok, step_log_mono h hr⟩
    · by_cases hcall : ∃ hostname key, a = .hostKeyCall hostname key
      · obtain ⟨hostname, key, rfl⟩ := hcall
        obtain ⟨hi, -, -⟩ := step_hostKeyCall h
        simp [hi, HostKeyPc.call] at hcur
      · by_cases hhk : ∃ w, a = .hostKey w
        · obtain ⟨w, rfl⟩ := hhk
          obtain ⟨-, sh, pc, hc, rfl⟩ := step_hostKey h
          rcases hostKeyStep_call hc with heq | ⟨c, ok, hpc, hlog⟩
          · exact .inr (heq.trans hcur)
          · rw [hpc] at hcur
            cases hcur
            exact .inl ⟨ok, by simp [hlog]⟩
        · right
          rw [step_hostKeyPc h (fun w hw => hhk ⟨w, hw⟩) fun h' k' hw => hcall ⟨h', k', hw⟩]
          exact hcur
  · obtain ⟨-, -, rfl⟩ := step_hostKeyCall h
    exact .inr (hostKeyCall_call ..)

theorem reach_attended {G : State → Action → Prop} {interactive : Bool}
    (h : Run (step env) G (init env interactive) s) : s.Attended :=
  h.invariant (fun _ _ _ hc => by cases hc) fun _ _ _ hs _ he => step_attended hs he

end Attended

/-- A mutex that is held without notifying is held by a thread that is about to
send its decision. -/
def State.HeldToSend (s : State) : Prop :=
  ∀ a, s.sh.lock = .held a → ∃ t r b, s.threads t = .sendDecision r b

section HeldToSend

variable {env : Env} {s u : State} {a : Action}

theorem lockMove_not_held {b c : Agent} {sh : Shared} {lock : Lock} (h : LockMove b sh lock)
    (hl : lock = .held c) : sh.lock = .held c := by
  rcases h with h | ⟨-, h⟩
  · exact h.symm.trans hl
  · cases h.symm.trans hl

theorem HeldToSend.setThread {t : ℕ} {pc : ThreadPc} (hs : s.HeldToSend)
    (ht : ∀ r b, s.threads t ≠ .sendDecision r b) : (s.setThread t pc).HeldToSend := by
  intro c hl
  obtain ⟨t', r, b, hpc⟩ := hs c hl
  have hne : t' ≠ t := by
    rintro rfl
    exact ht r b hpc
  exact ⟨t', r, b, by rw [setThread_threads, if_neg hne]; exact hpc⟩

theorem step_heldToSend (hs : s.HeldToSend) (h : step env s a = some u) : u.HeldToSend := by
  have hrest : ∀ t, (s.threads t).atRest = true → ∀ r b, s.threads t ≠ .sendDecision r b := by
    intro t ht r b hpc
    rw [hpc] at ht
    cases ht
  cases a with
  | connect =>
    obtain ⟨-, sh, pc, hc, rfl⟩ := step_connect h
    obtain ⟨_, _, _, _, _, rfl, hl, -⟩ := connectStep_frame hc
    exact fun c hc => hs c (lockMove_not_held hl hc)
  | banner msg =>
    obtain ⟨-, -, rfl⟩ := step_banner h
    exact fun c hc => (by cases hc)
  | hostKeyCall hostname key =>
    obtain ⟨-, -, rfl⟩ := step_hostKeyCall h
    rw [hostKeyCall_frame]
    exact hs
  | hostKey written =>
    obtain ⟨-, sh, pc, hc, rfl⟩ := step_hostKey h
    cases hostKeyStep_move hc with
    | prompt => exact fun c hc => (by cases hc)
    | receive => exact hs
    | clear => exact hs
    | quiet _ _ _ _ hl => exact fun c hc => hs c (lockMove_not_held hl hc)
  | passwordCall =>
    obtain ⟨-, -, rfl⟩ := step_passwordCall h
    exact hs
  | password =>
    obtain ⟨-, sh, pc, hc, rfl⟩ := step_password h
    cases passwordStep_move hc with
    | setStatus => exact hs
    | register => exact hs
    | quiet _ _ _ _ hl => exact fun c hc => hs c (lockMove_not_held hl hc)
  | request t sid inp =>
    obtain ⟨hr, rfl⟩ := step_request h
    exact HeldToSend.setThread hs (hrest t hr)
  | connectLoop t =>
    obtain ⟨hr, rfl⟩ := step_connectLoop h
    exact HeldToSend.setThread hs (hrest t hr)
  | thread t =>
    obtain ⟨-, sh, pc, hc, rfl⟩ := step_thread h
    cases threadStep_move hc with
    | accept r b => exact fun _ _ => ⟨t, r, b, by rw [setThread_threads, if_pos rfl]⟩
    | panic => exact fun c hc => (by cases hc)
    | send => exact fun c hc => (by cases hc)
    | passphrase => exact fun c hc => (by cases hc)
    | register l hpc => exact HeldToSend.setThread hs (by simp [hpc])
    | quiet _ _ _ _ hns _ => exact HeldToSend.setThread hs hns
  | setInteractive =>
    obtain rfl := step_setInteractive h
    exact hs
  | send w =>
    obtain ⟨b, ch, rest, -, -, rfl⟩ := step_send h
    intro c hc
    rw [wake_sh] at hc
    cases hc
  | unlock =>
    obtain ⟨b, -, rfl⟩ := step_unlock h
    exact fun c hc => (by cases hc)

theorem reach_heldToSend {G : State → Action → Prop} {interactive : Bool}
    (h : Run (step env) G (init env interactive) s) : s.HeldToSend :=
  h.invariant (fun _ hc => by cases hc) fun _ _ _ hs _ he => step_heldToSend hs he

end HeldToSend

/-- The steps by which a notifier ends its section. -/
def Action.releases : Action → Bool
  | .send _ | .unlock => true
  | _ => false

section Return

variable {env : Env} {s : State}

/-- A notifier serves its list by as many sends, each to a parked receiver. -/
theorem drain_exec (env : Env) {b : Agent} {rest : List ℕ} (hlk : s.Locked)
    (hroom : s.room.Valid) (hl : s.sh.lock = .notifying b rest) :
    ∃ (ws : List Waiter) (u : State), ws.length = rest.length ∧
      exec (step env) s (ws.map Action.send ++ [.unlock]) = some u ∧ u.sh.lock = .free ∧
        u.sh.waiting = [] ∧ u.hostKey = s.hostKey ∧ u.sh.log = s.sh.log ∧
          u.sh.interactive = s.sh.interactive := by
  induction rest generalizing s with
  | nil =>
    refine ⟨[], { s with sh := { s.sh with lock := .free, waiting := [] } }, rfl, ?_, rfl, rfl,
      rfl, rfl, rfl⟩
    simp only [List.map_nil, List.nil_append, exec, step, hl, Option.bind_some]
  | cons ch rest ih =>
    obtain ⟨w, hw⟩ := hroom.owned ch (by
      simp only [Room.unserved, State.room, Shared.room, Lock.phase, hl]
      exact .head _)
    have hw : s.parked w = some ch := hw
    have hstep : step env s (.send w) =
        some (State.wake { s with sh := { s.sh with lock := .notifying b rest } } w) := by
      simp only [step, hl, hw, if_true]
    have hsh := wake_sh { s with sh := { s.sh with lock := .notifying b rest } } w
    obtain ⟨ws, u, hlen, hu, hf, hnil, hk, hlog, hint⟩ := ih (step_locked hlk hstep)
      (moves_valid hroom (step_room hlk hstep)) (by rw [hsh])
    refine ⟨w :: ws, u, congrArg Nat.succ hlen, ?_, hf, hnil, ?_, ?_, ?_⟩
    · simp only [List.map_cons, List.cons_append, exec, hstep, Option.bind_some]
      exact hu
    · rw [hk, wake_hostKey]
    · rw [hlog, hsh]
    · rw [hint, hsh]

theorem drain (env : Env) {b : Agent} {rest : List ℕ} (hlk : s.Locked) (hroom : s.room.Valid)
    (hl : s.sh.lock = .notifying b rest) :
    ∃ u, Run (step env) (fun _ a => a.releases = true) s u ∧ u.sh.lock = .free ∧
      u.hostKey = s.hostKey ∧ u.sh.log = s.sh.log ∧ u.sh.interactive = s.sh.interactive := by
  obtain ⟨ws, u, -, hu, hf, -, hk, hlog, hint⟩ := drain_exec env hlk hroom hl
  refine ⟨u, run_of_exec_all ?_ hu, hf, hk, hlog, hint⟩
  intro a ha
  rcases List.mem_append.mp ha with ha | ha
  · obtain ⟨w, -, rfl⟩ := List.mem_map.mp ha
    rfl
  · cases List.mem_singleton.mp ha
    rfl

/-- The invariants that progress rests on. -/
structure State.Sound (env : Env) (s : State) : Prop where
  locked : s.Locked
  room : s.room.Valid
  prompting : s.Prompting env
  held : s.HeldToSend

theorem reach_sound {G : State → Action → Prop} {interactive : Bool}
    (h : Run (step env) G (init env interactive) s) : s.Sound env :=
  ⟨(reach_room h).1, (reach_room h).2, reach_prompting h, reach_heldToSend h⟩

theorem run_sound {G : State → Action → Prop} {u : State} (hs : s.Sound env)
    (h : Run (step env) G s u) : u.Sound env := by
  refine h.invariant hs fun t a u hs _ he => ?_
  exact ⟨step_locked hs.locked he, moves_valid hs.room (step_room hs.locked he),
    step_prompting hs.locked hs.prompting he, step_heldToSend hs.held he⟩

/-- Outside a prompt the mutex can be freed without the callback moving. -/
theorem free_mutex (hs : s.Sound env) (hask : s.hostKey.asking = none) :
    ∃ u, Run (step env) (fun _ a => a.releases = true) s u ∧ u.sh.lock = .free ∧
      u.hostKey = s.hostKey ∧ u.sh.log = s.sh.log ∧ u.sh.interactive = s.sh.interactive := by
  cases hl : s.sh.lock with
  | free => exact ⟨s, .refl, hl, rfl, rfl, rfl⟩
  | notifying b rest => exact drain env hs.locked hs.room hl
  | held c =>
    obtain ⟨t, r, b, hpc⟩ := hs.held c hl
    obtain ⟨-, c', ch, hr, -⟩ := hs.prompting.deciding t r b hpc
    simp [hr, HostKeyPc.asking] at hask

/-- The steps of a callback on its way out. -/
def Action.leaves : Action → Bool
  | .hostKey _ => true
  | a => a.releases

theorem leaves_of_releases {a : Action} (h : a.releases = true) : a.leaves = true := by
  cases a <;> first | rfl | cases h

/-- The call can return `ok` without raising a prompt. -/
def State.Returns (env : Env) (s : State) (c : Call) (ok : Bool) : Prop :=
  ∃ u, Run (step env) (fun _ a => a.leaves = true) s u ∧ .returned c.id ok ∈ u.sh.log ∧
    ∀ ch, .prompted c.id ch ∈ u.sh.log → .prompted c.id ch ∈ s.sh.log

theorem State.Returns.after {m : State} {c : Call} {ok : Bool} (h : m.Returns env c ok)
    (hp : Run (step env) (fun _ a => a.leaves = true) s m)
    (hl : ∀ ch, .prompted c.id ch ∈ m.sh.log → .prompted c.id ch ∈ s.sh.log) :
    s.Returns env c ok := by
  obtain ⟨u, hu, hr, hk⟩ := h
  exact ⟨u, hp.trans hu, hr, fun ch hc => hl ch (hk ch hc)⟩

theorem leave_step (hs : s.Sound env) (hask : s.hostKey.asking = none) :
    ∃ m, Run (step env) (fun _ a => a.leaves = true) s m ∧ m.sh.lock = .free ∧
      m.hostKey = s.hostKey ∧ m.sh.log = s.sh.log ∧ m.sh.interactive = s.sh.interactive ∧
      step env m (.hostKey false) = (hostKeyStep env false m.sh m.hostKey).map
        fun (sh, pc) => { m with sh := sh, hostKey := pc } := by
  obtain ⟨m, hp, hf, hk, hlog, hi⟩ := free_mutex hs hask
  refine ⟨m, hp.mono fun _ a h => leaves_of_releases h, hf, hk, hlog, hi, ?_⟩
  simp [step, Shared.busy, hf]

theorem ret_returns {c : Call} {ok : Bool} (hs : s.Sound env) (hpc : s.hostKey = .ret c ok) :
    s.Returns env c ok := by
  obtain ⟨m, hp, -, hk, hlog, -, hstep⟩ := leave_step hs (by rw [hpc]; rfl)
  rw [hk, hpc] at hstep
  refine ⟨_, .tail hp rfl hstep, .head _, fun ch h => ?_⟩
  simpa [Shared.record, hlog] using h

theorem print_returns {c : Call} (hs : s.Sound env)
    (hpc : (∃ want, s.hostKey = .printMismatch c want) ∨ s.hostKey = .printUnknown c) :
    s.Returns env c false := by
  have hask : s.hostKey.asking = none := by
    rcases hpc with ⟨want, hpc⟩ | hpc <;> rw [hpc] <;> rfl
  obtain ⟨m, hp, hf, hk, hlog, -, hstep⟩ := leave_step hs hask
  obtain ⟨u, hu, hret, hul⟩ : ∃ u, step env m (.hostKey false) = some u ∧
      u.hostKey = .ret c false ∧ u.sh.log = m.sh.log := by
    rcases hpc with ⟨want, hpc⟩ | hpc <;>
      simp [hstep, Shared.print, Shared.notifyWaitingLocked, hf, hk, hpc, hostKeyStep]
  have hpath := Run.tail hp rfl hu
  refine (ret_returns (run_sound hs hpath) hret).after hpath fun ch h => ?_
  rwa [hul, hlog] at h

theorem testInteractive_returns {c : Call} (hs : s.Sound env)
    (hpc : s.hostKey = .testInteractive c) (hi : s.sh.interactive = false) :
    s.Returns env c false := by
  obtain ⟨m, hp, -, hk, hlog, hint, hstep⟩ := leave_step hs (by rw [hpc]; rfl)
  rw [hk, hpc] at hstep
  have hpath := Run.tail hp rfl hstep
  refine (print_returns (run_sound hs hpath) (.inr ?_)).after hpath fun ch h => ?_
  · simp [hint, hi]
  · simpa [Shared.record, hlog] using h

end Return

section Silent

variable {env : Env} {s : State} {c : Call}

/-- The callback has answered at most `ok` and has not asked the user. -/
structure State.Answers (s : State) (c : Call) (ok : Bool) : Prop where
  silent : ∀ ch, .prompted c.id ch ∉ s.sh.log
  right : ∀ b, .returned c.id b ∈ s.sh.log → b = ok

theorem State.Logged.running_call {c' : Call} (hs : s.Logged env)
    (hc : .called c.id c.hostname c.key ∈ s.sh.log) (hpc : s.hostKey = .testInteractive c')
    (hid : c'.id = c.id) : c' = c := by
  have hcur := hs.current
  rw [hpc] at hcur
  obtain ⟨id, h, k⟩ := c
  obtain ⟨id', h', k'⟩ := c'
  cases hid
  obtain ⟨rfl, rfl⟩ := hs.history.one_call _ _ _ _ _ hcur.1.1 hc
  rfl

/-- A key that the base callback knows is accepted without a prompt. -/
theorem known_answers (hs : s.Logged env) (hc : .called c.id c.hostname c.key ∈ s.sh.log)
    (hv : env.hostKeyCallback c.hostname c.key = .ok) : s.Answers c true := by
  refine ⟨fun ch hp => ?_, fun b hr => ?_⟩
  · cases hv.symm.trans ((hs.history.raised c.id ch hp).2 _ _ hc)
  · exact (hs.history.returned c.id _ _ b hc hr).1.mpr (.inl hv)

theorem known_returns (hs : s.Logged env) (hsnd : s.Sound env)
    (hcall : s.hostKey.call = some c)
    (hv : env.hostKeyCallback c.hostname c.key = .ok) : s.Returns env c true := by
  have hcur := hs.current
  cases hpc : s.hostKey with
  | idle =>
    rw [hpc] at hcall
    cases hcall
  | ret c' ok =>
    rw [hpc] at hcur hcall
    cases hcall
    obtain rfl := hcur.2.1.mpr (.inl hv)
    exact ret_returns hsnd hpc
  | _ =>
    -- every other place belongs to a key that the base callback does not know
    rw [hpc] at hcur hcall
    cases hcall
    have hu : ∀ want, env.hostKeyCallback c.hostname c.key ≠ .keyError want := by
      intro want hw
      cases hv.symm.trans hw
    simp only [CallOk] at hcur
    grind [Asked.unknown, Granted.unknown]

/-- A key that the base callback refuses is refused without a prompt, for an
unknown host as long as the call is not made interactive. -/
theorem refused_answers (hs : s.Logged env) (hc : .called c.id c.hostname c.key ∈ s.sh.log)
    (hv : env.hostKeyCallback c.hostname c.key ≠ .ok)
    (ht : env.hostKeyCallback c.hostname c.key = .keyError [] → .tested c.id true ∉ s.sh.log) :
    s.Answers c false := by
  refine ⟨fun ch hp => ?_, fun b hr => ?_⟩
  · obtain ⟨htest, hunk⟩ := hs.history.raised c.id ch hp
    exact ht (hunk _ _ hc) htest
  · have hiff := (hs.history.returned c.id _ _ b hc hr).1
    cases b with
    | false => rfl
    | true =>
      rcases hiff.mp rfl with hok | hg
      · exact (hv hok).elim
      · exact (ht hg.unknown hg.interactive).elim

theorem refused_returns {want : List PublicKey} (hs : s.Logged env) (hsnd : s.Sound env)
    (hcall : s.hostKey.call = some c)
    (hv : env.hostKeyCallback c.hostname c.key = .keyError want)
    (ht : want = [] → .tested c.id true ∉ s.sh.log)
    (hi : s.hostKey = .testInteractive c → s.sh.interactive = false) :
    s.Returns env c false := by
  have hcur := hs.current
  have hnot : env.hostKeyCallback c.hostname c.key = .keyError [] → .tested c.id true ∉ s.sh.log :=
    fun hu => ht (by simpa [hv] using hu)
  cases hpc : s.hostKey with
  | idle =>
    rw [hpc] at hcall
    cases hcall
  | printMismatch c' w =>
    rw [hpc] at hcall
    cases hcall
    exact print_returns hsnd (.inl ⟨w, hpc⟩)
  | testInteractive c' =>
    rw [hpc] at hcall
    cases hcall
    exact testInteractive_returns hsnd hpc (hi hpc)
  | printUnknown c' =>
    rw [hpc] at hcall
    cases hcall
    exact print_returns hsnd (.inr hpc)
  | ret c' ok =>
    rw [hpc] at hcur hcall
    cases hcall
    cases ok with
    | false => exact ret_returns hsnd hpc
    | true =>
      rcases hcur.2.1.mp rfl with hok | hg
      · cases hv.symm.trans hok
      · exact (hnot hg.unknown hg.interactive).elim
  | _ =>
    -- every other place belongs to a call that was tested interactive
    rw [hpc] at hcur hcall
    cases hcall
    simp only [CallOk] at hcur
    grind [Asked.unknown, Asked.interactive, Granted.unknown, Granted.interactive]

end Silent

end SshTunnel.Connector
