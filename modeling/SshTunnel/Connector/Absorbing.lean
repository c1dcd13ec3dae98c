import SshTunnel.Connector.Failover

/-!
# A final status (`dialer/sshdialer.go:265-268`, `303-404`, `439-472`)

`connect` writes a final status at its end, when the password callback is over
and nobody waits for a decision. The host key callback outlives it: the
established connection calls it at every new key exchange, and its prompt writes
the status whatever it is. Nothing else changes a status that `Done` reports.
-/

namespace SshTunnel.Connector

open Lib.Runs
open Control (ConnectStatus)

/-- No prompt is raised under a final status. -/
def Unprompted (s : State) : Action → Prop
  | .hostKey _ => IsDone s.sh.status → ∀ c, s.hostKey ≠ .prompt c
  | _ => True

/-- `connect` has written `succeeded`, or is past that place. -/
def ConnectPc.settled : ConnectPc → Bool
  | .clearErr | .deferTest | .deferClear | .deferNotify | .done => true
  | _ => false

/-- Where `connect` is while the password callback runs, and under each of the
two final statuses. -/
structure State.Ordered (s : State) : Prop where
  password : s.password ≠ .idle → s.handshaking = true
  succeeded : s.sh.status = .succeeded → s.connect.settled = true
  failed : s.sh.status = .failed → s.connect.closing = true

section Steps

variable {env : Env} {s u : State} {a : Action}

theorem connectStep_settled {calm : Bool} {sh sh' : Shared} {pc pc' : ConnectPc}
    (h : connectStep env calm sh pc = some (sh', pc')) :
    (sh'.status = .succeeded → (sh.status = .succeeded → pc.settled = true) →
      pc'.settled = true) ∧
    (sh'.status = .failed → (sh.status = .failed → pc.closing = true) →
      pc'.closing = true) := by
  cases pc with
  | deferTest =>
    cases h
    refine ⟨fun hs _ => ?_, fun hf hc => (Bool.false_ne_true (hc hf)).elim⟩
    rw [if_pos hs]
    rfl
  | deferNotify =>
    obtain ⟨_, -, he⟩ := Option.map_eq_some_iff.mp h
    cases he
    exact ⟨fun _ _ => rfl, fun _ _ => rfl⟩
  | _ =>
    grind [connectStep, ConnectPc.settled, ConnectPc.closing, Shared.print,
      Shared.notifyWaitingLocked]

/-- Before `connect` can leave the handshake the password callback is over. -/
theorem State.Ordered.idle {sh : Shared} {pc : ConnectPc} (hs : s.Ordered)
    (h : connectStep env s.calm s.sh s.connect = some (sh, pc)) : s.password = .idle := by
  by_contra hp
  obtain ⟨i, user, he⟩ := handshaking_iff.mp (hs.password hp)
  have hcalm : s.calm = false := by simp [State.calm, hp]
  simp [connectStep, he, hcalm] at h

theorem step_password_idle (h : step env s a = some u) (ha : a ≠ .connect)
    (hs : s.password ≠ .idle → s.handshaking = true) (hu : u.password ≠ .idle) :
    s.handshaking = true := by
  cases a with
  | connect => exact (ha rfl).elim
  | passwordCall => exact (step_passwordCall h).1
  | password =>
    obtain ⟨-, sh, pc, hc, rfl⟩ := step_password h
    refine hs fun hp => ?_
    rw [hp] at hc
    cases hc
  | send w =>
    obtain ⟨b, ch, rest, -, hpk, rfl⟩ := step_send h
    cases w with
    | password =>
      refine hs fun hp => ?_
      simp [State.parked, hp, PasswordPc.channel] at hpk
    | thread t =>
      refine hs ?_
      simp only [State.wake] at hu
      split at hu <;> exact hu
  | banner msg =>
    obtain ⟨-, -, rfl⟩ := step_banner h
    exact hs hu
  | hostKeyCall hostname key =>
    obtain ⟨-, -, rfl⟩ := step_hostKeyCall h
    exact hs hu
  | hostKey written =>
    obtain ⟨-, sh, pc, -, rfl⟩ := step_hostKey h
    exact hs hu
  | request t sid inp =>
    obtain ⟨-, rfl⟩ := step_request h
    exact hs hu
  | connectLoop t =>
    obtain ⟨-, rfl⟩ := step_connectLoop h
    exact hs hu
  | thread t =>
    obtain ⟨-, sh, pc, -, rfl⟩ := step_thread h
    exact hs hu
  | setInteractive =>
    obtain rfl := step_setInteractive h
    exact hs hu
  | unlock =>
    obtain ⟨b, -, rfl⟩ := step_unlock h
    exact hs hu

theorem step_ordered (hs : s.Ordered) (h : step env s a = some u) : u.Ordered := by
  by_cases ha : a = .connect
  · subst ha
    obtain ⟨-, sh, pc, hc, rfl⟩ := step_connect h
    obtain ⟨hsucc, hfail⟩ := connectStep_settled hc
    refine ⟨fun hp => ?_, fun hst => hsucc hst hs.succeeded, fun hst => hfail hst hs.failed⟩
    exact (hp (hs.idle hc)).elim
  · obtain ⟨hc, -, -, hst⟩ := step_attempt_frame h ha
    have hkeep : ∀ st, IsDone st → u.sh.status = st → s.sh.status = st := by
      rintro st hd rfl
      exact (hst.resolve_right fun hn => hn hd).symm
    refine ⟨fun hp => ?_, fun h' => ?_, fun h' => ?_⟩
    · rw [State.handshaking, hc]
      exact step_password_idle h ha hs.password hp
    · rw [hc]
      exact hs.succeeded (hkeep _ (.inl rfl) h')
    · rw [hc]
      exact hs.failed (hkeep _ (.inr rfl) h')

theorem run_ordered {G : State → Action → Prop} {interactive : Bool}
    (h : Run (step env) G (init env interactive) s) : s.Ordered :=
  h.invariant ⟨fun hp => (hp rfl).elim, fun hst => (by cases hst), fun hst => (by cases hst)⟩
    fun _ _ _ hs _ he => step_ordered hs he

theorem State.Ordered.of_done (hs : s.Ordered) (hd : IsDone s.sh.status) :
    s.connect.settled = true ∧ s.password = .idle := by
  have hset : s.connect.settled = true := by
    rcases hd with hd | hd
    · exact hs.succeeded hd
    · have hc := hs.failed hd
      cases hpc : s.connect <;> rw [hpc] at hc <;> first | rfl | cases hc
  refine ⟨hset, ?_⟩
  by_contra hp
  obtain ⟨i, user, he⟩ := handshaking_iff.mp (hs.password hp)
  rw [he] at hset
  cases hset

theorem connectStep_final {calm : Bool} {sh sh' : Shared} {pc pc' : ConnectPc}
    (hpc : pc.settled = true) (h : connectStep env calm sh pc = some (sh', pc')) :
    sh'.status = sh.status := by
  cases pc with
  | deferNotify =>
    obtain ⟨_, hn, he⟩ := Option.map_eq_some_iff.mp h
    cases he
    obtain ⟨-, rfl⟩ := notifyWaiting_eq hn
    rfl
  | clearErr | deferTest | deferClear =>
    cases h
    rfl
  | done => cases h
  | _ => cases hpc

/-- Only a prompt changes a final status. -/
theorem step_final (hs : s.Ordered) (hd : IsDone s.sh.status) (h : step env s a = some u) :
    u.sh.status = s.sh.status ∨ ∃ written c, a = .hostKey written ∧ s.hostKey = .prompt c := by
  obtain ⟨hset, hidle⟩ := hs.of_done hd
  cases a with
  | connect =>
    obtain ⟨-, sh, pc, hc, rfl⟩ := step_connect h
    exact .inl (connectStep_final hset hc)
  | hostKey written =>
    obtain ⟨-, sh, pc, hc, rfl⟩ := step_hostKey h
    cases hostKeyStep_move hc with
    | prompt c hpc => exact .inr ⟨written, c, rfl, hpc⟩
    | _ => exact .inl rfl
  | password =>
    obtain ⟨-, sh, pc, hc, rfl⟩ := step_password h
    rw [hidle] at hc
    cases hc
  | thread t =>
    obtain ⟨-, sh, pc, hc, rfl⟩ := step_thread h
    exact .inl (isDone_status hd hc)
  | banner msg =>
    obtain ⟨-, -, rfl⟩ := step_banner h
    exact .inl rfl
  | hostKeyCall hostname key =>
    obtain ⟨-, -, rfl⟩ := step_hostKeyCall h
    rw [hostKeyCall_frame]
    exact .inl rfl
  | passwordCall =>
    obtain ⟨-, -, rfl⟩ := step_passwordCall h
    exact .inl rfl
  | request t sid inp =>
    obtain ⟨-, rfl⟩ := step_request h
    exact .inl rfl
  | connectLoop t =>
    obtain ⟨-, rfl⟩ := step_connectLoop h
    exact .inl rfl
  | setInteractive =>
    obtain rfl := step_setInteractive h
    exact .inl rfl
  | send w =>
    obtain ⟨b, ch, rest, -, -, rfl⟩ := step_send h
    rw [wake_sh]
    exact .inl rfl
  | unlock =>
    obtain ⟨b, -, rfl⟩ := step_unlock h
    exact .inl rfl

theorem step_prompt_status {written : Bool} {c : Call} (hpc : s.hostKey = .prompt c)
    (h : step env s (.hostKey written) = some u) : u.sh.status = .unknownHostKey := by
  obtain ⟨-, sh, pc, hc, rfl⟩ := step_hostKey h
  rw [hpc] at hc
  simp only [hostKeyStep, Option.ite_none_right_eq_some, Option.some.injEq] at hc
  obtain ⟨-, he⟩ := hc
  cases he
  rfl

theorem step_final_iff (hs : s.Ordered) (hd : IsDone s.sh.status) (h : step env s a = some u) :
    u.sh.status = s.sh.status ↔ Unprompted s a := by
  refine ⟨fun hsame => ?_, fun hu => (step_final hs hd h).resolve_right ?_⟩
  · cases a with
    | hostKey written =>
      intro _ c hpc
      rw [← hsame, step_prompt_status hpc h] at hd
      simp [IsDone] at hd
    | _ => trivial
  · rintro ⟨written, c, rfl, hpc⟩
    exact hu hd c hpc

end Steps

/-- Once `Done` is true the status never changes again, in every run in which no
prompt is raised under a final status; a single step keeps a final status only
under that condition. -/
theorem final_status_stays (env : Env) (interactive : Bool) :
    (∀ s u, Run (step env) Unprompted (init env interactive) s → IsDone s.sh.status →
      Run (step env) Unprompted s u → u.sh.status = s.sh.status) ∧
    ∀ s a u, Reach (step env) (init env interactive) s → IsDone s.sh.status →
      step env s a = some u → (u.sh.status = s.sh.status ↔ Unprompted s a) := by
  refine ⟨fun s u h hd hrun => ?_, fun s a u hr hd hs => step_final_iff (run_ordered hr) hd hs⟩
  refine hrun.invariant_under (P := fun u => u.sh.status = s.sh.status) (Q := State.Ordered)
    (fun m hm => run_ordered (h.trans hm)) rfl ?_
  intro m a m' hord hst hg hs
  exact ((step_final_iff hord (hst ▸ hd) hs).mpr hg).trans hst

section Example

def toSuccess : List Action :=
  toHandshake ++ [.connect, .connect, .unlock, .connect, .connect, .connect, .connect, .connect,
    .connect, .unlock]

/-- The known hosts are read once: a host that is not in them is unknown to every call of
the callback, also after its key has been accepted and added to the file. -/
def strangeHostEnv : Env := { sampleEnv with hostKeyCallback := fun _ _ => .keyError [] }

/-- A client is asked about the key of the host and accepts it, and `connect` succeeds. -/
def acceptedToSuccess : List Action :=
  [.connect, .unlock, .connect, .connect, .connect, .hostKeyCall "h:22".toList [1],
    .hostKey true, .hostKey true, .unlock, .request 0 0 noInput] ++
    List.replicate 12 (.thread 0) ++
    [.request 0 0 ⟨[], some true⟩, .thread 0, .thread 0, .unlock] ++
    [.hostKey true, .hostKey true, .hostKey true, .hostKey true, .unlock, .hostKey true] ++
    [.connect, .connect, .unlock, .connect, .connect, .connect, .connect, .connect, .connect,
      .unlock]

/-- At a new key exchange after success the host presents the key that was accepted: the
interactive connector prompts again, over the final status. -/
theorem final_status_overwritten :
    ¬∀ (env : Env) (interactive : Bool) (s u : State),
      Reach (step env) (init env interactive) s → IsDone s.sh.status → Reach (step env) s u →
        u.sh.status = s.sh.status := by
  intro hall
  obtain ⟨s, hr, hs⟩ := reach_of_check (step strangeHostEnv) (init strangeHostEnv true)
    (acceptedToSuccess ++ [.hostKeyCall "h:22".toList [1], .hostKey true])
    (fun s => s.sh.status = .succeeded && s.sh.lock = .free &&
      s.hostKey = .prompt ⟨1, "h:22".toList, [1]⟩) (by decide)
  simp only [Bool.and_eq_true, decide_eq_true_eq] at hs
  obtain ⟨⟨hst, hl⟩, hpc⟩ := hs
  obtain ⟨u, hu⟩ : ∃ u, step strangeHostEnv s (.hostKey true) = some u := by
    simp [step, Shared.busy, hl, hpc, hostKeyStep]
  have hsame := hall strangeHostEnv true s u hr (.inl hst) (.tail .refl trivial hu)
  rw [step_prompt_status hpc hu, hst] at hsame
  cases hsame

def unprompted (s : State) : Action → Bool
  | .hostKey _ =>
    match s.hostKey with
    | .prompt _ => !(s.sh.status = .succeeded || s.sh.status = .failed)
    | _ => true
  | _ => true

theorem unprompted_sound {s : State} {a : Action} (h : unprompted s a = true) :
    Unprompted s a := by
  cases a with
  | hostKey written =>
    intro hd c hpc
    rcases hd with hd | hd <;> simp [unprompted, hpc, hd] at h
  | _ => trivial

/-- A new key exchange with the known key leaves the status alone. -/
theorem final_status_stays_sample :
    ∃ s u, Run (step sampleEnv) Unprompted (init sampleEnv true) s ∧
      s.sh.status = .succeeded ∧ Run (step sampleEnv) Unprompted s u ∧ u.sh.calls = 2 ∧
      u.sh.status = .succeeded := by
  obtain ⟨s, hs, hp⟩ := (Option.any_eq_true ..).mp
    (show (exec (guarded unprompted (step sampleEnv)) (init sampleEnv true) toSuccess).any
      (fun s => s.sh.status = .succeeded && ((exec (guarded unprompted (step sampleEnv)) s
        [.hostKeyCall "h:22".toList [1], .hostKey true]).any
          fun u => u.sh.calls = 2)) = true by decide)
  simp only [Bool.and_eq_true, decide_eq_true_eq] at hp
  obtain ⟨hst, hnext⟩ := hp
  obtain ⟨u, hu, hcalls⟩ := (Option.any_eq_true ..).mp hnext
  have hrun : ∀ {s u : State} {as : List Action},
      exec (guarded unprompted (step sampleEnv)) s as = some u →
      Run (step sampleEnv) Unprompted s u := fun he =>
    run_of_exec (I := fun _ => True) (fun _ _ _ _ _ _ => trivial)
      (fun _ _ _ => unprompted_sound) trivial he
  have hkeep := (final_status_stays sampleEnv true).1 s u (hrun hs) (.inl hst) (hrun hu)
  exact ⟨s, u, hrun hs, hst, hrun hu, of_decide_eq_true hcalls, hkeep.trans hst⟩

end Example

end SshTunnel.Connector
