import SshTunnel.Connector.HostKey

/-!
# The verdict of the host key callback

The log of a run ties every answer of the wrapped `HostKeyCallback` to its
reason. `Granted` is the only reason besides the base callback: the host is
unknown, the connector was interactive when tested, and `AcceptHostKey(true)`
decided the prompt of this very call.
-/

namespace SshTunnel.Connector

open Lib.Notify Lib.Runs
open Lib.Net (Text)
open Control (ConnectStatus ConnectIn)

/-- The call was accepted by a user. -/
structure Granted (env : Env) (log : List Event) (c : Call) : Prop where
  unknown : env.hostKeyCallback c.hostname c.key = .keyError []
  interactive : .tested c.id true ∈ log
  accepted : ∃ t ch shown, .prompted c.id ch ∈ log ∧
    .decided t (pendingOf env (c, ch)) true shown ∈ log

def Event.id : Event → Option ℕ
  | .called id _ _ | .tested id _ | .prompted id _ | .appended id _ _ | .returned id _ => some id
  | .decided .. => none

/-- What the log says about calls, prompts and decisions as a whole. -/
structure History (env : Env) (log : List Event) (calls nextChan : ℕ) : Prop where
  known : ∀ e ∈ log, ∀ id, e.id = some id → id < calls
  one_call : ∀ id h k h' k', .called id h k ∈ log → .called id h' k' ∈ log → h = h' ∧ k = k'
  made : ∀ id ch, .prompted id ch ∈ log → ch < nextChan
  one_prompt : ∀ id id' ch, .prompted id ch ∈ log → .prompted id' ch ∈ log → id = id'
  raised : ∀ id ch, .prompted id ch ∈ log → .tested id true ∈ log ∧
    ∀ h k, .called id h k ∈ log → env.hostKeyCallback h k = .keyError []
  asked : ∀ t p b shown, .decided t p b shown ∈ log → ∃ id, .prompted id p.decision ∈ log
  one_decision : ∀ t p b shown t' p' b' shown', .decided t p b shown ∈ log →
    .decided t' p' b' shown' ∈ log → p.decision = p'.decision → b = b'
  appended : ∀ id h k, .appended id h k ∈ log → .called id h k ∈ log ∧ Granted env log ⟨id, h, k⟩
  returned : ∀ id h k ok, .called id h k ∈ log → .returned id ok ∈ log →
    (ok = true ↔ env.hostKeyCallback h k = .ok ∨ Granted env log ⟨id, h, k⟩) ∧
      (Granted env log ⟨id, h, k⟩ → .appended id h k ∈ log)

section Log

variable {env : Env} {log : List Event} {calls nextChan : ℕ} {c : Call} {e : Event}

theorem Granted.cons (h : Granted env log c) (e : Event) : Granted env (e :: log) c := by
  obtain ⟨hu, hi, t, ch, shown, hp, hd⟩ := h
  exact ⟨hu, .tail _ hi, t, ch, shown, .tail _ hp, .tail _ hd⟩

theorem Granted.of_cons (h : Granted env (e :: log) c) (hid : e.id ≠ some c.id)
    (hdec : ∀ t p b shown, e = .decided t p b shown → .prompted c.id p.decision ∉ log) :
    Granted env log c := by
  obtain ⟨hu, hi, t, ch, shown, hp, hd⟩ := h
  have hi' : .tested c.id true ∈ log := by
    refine (List.mem_cons.mp hi).resolve_left fun he => hid ?_
    rw [← he]
    rfl
  have hp' : .prompted c.id ch ∈ log := by
    refine (List.mem_cons.mp hp).resolve_left fun he => hid ?_
    rw [← he]
    rfl
  refine ⟨hu, hi', t, ch, shown, hp', (List.mem_cons.mp hd).resolve_left fun he => ?_⟩
  exact hdec t _ true shown he.symm hp'

/-- An event that concerns no call that has returned. -/
def Event.Open (log : List Event) (e : Event) : Prop :=
  ∀ id ok, .returned id ok ∈ log → e.id ≠ some id ∧
    ∀ t p b shown, e = .decided t p b shown → .prompted id p.decision ∉ log

/-- The conditions under which an event extends a history. -/
structure Event.Extends (env : Env) (log : List Event) (calls nextChan : ℕ) (e : Event) : Prop where
  known : ∀ id, e.id = some id → id < calls
  fresh : e.Open log
  prompted : ∀ id ch, e = .prompted id ch → ch < nextChan ∧ (∀ id', .prompted id' ch ∉ log) ∧
    .tested id true ∈ log ∧ ∀ h k, .called id h k ∈ log → env.hostKeyCallback h k = .keyError []
  fresh_call : ∀ id h k, e = .called id h k → ∀ e' ∈ log, e'.id ≠ some id
  decided : ∀ t p b shown, e = .decided t p b shown → (∃ id, .prompted id p.decision ∈ log) ∧
    ∀ t' p' b' shown', .decided t' p' b' shown' ∈ log → p'.decision ≠ p.decision
  appended : ∀ id h k, e = .appended id h k → .called id h k ∈ log ∧ Granted env log ⟨id, h, k⟩
  returned : ∀ id ok, e = .returned id ok → ∀ h k, .called id h k ∈ log →
    (ok = true ↔ env.hostKeyCallback h k = .ok ∨ Granted env log ⟨id, h, k⟩) ∧
      (Granted env log ⟨id, h, k⟩ → .appended id h k ∈ log)

theorem History.cons (h : History env log calls nextChan) {calls' nextChan' : ℕ}
    (hc : calls ≤ calls') (hn : nextChan ≤ nextChan') (he : e.Extends env log calls' nextChan') :
    History env (e :: log) calls' nextChan' := by
  have hup : ∀ c, Granted env log c → Granted env (e :: log) c := fun c hg => hg.cons e
  have hdown : ∀ c ok, .returned c.id ok ∈ log → Granted env (e :: log) c → Granted env log c :=
    fun c ok hr hg => hg.of_cons (he.fresh _ _ hr).1 (he.fresh _ _ hr).2
  have hret : ∀ c ok, e = .returned c.id ok → Granted env (e :: log) c → Granted env log c := by
    rintro c ok rfl ⟨hu, hi, t, ch, shown, hp, hd⟩
    refine ⟨hu, ?_, t, ch, shown, ?_, ?_⟩ <;> simp_all
  refine ⟨?_, ?_, ?_, ?_, ?_, ?_, ?_, ?_, ?_⟩
  · intro e' he' id hid
    rcases List.mem_cons.mp he' with rfl | hm
    · exact he.known id hid
    · exact Nat.lt_of_lt_of_le (h.known e' hm id hid) hc
  · intro id h' k h'' k' h1 h2
    have := h.one_call
    have := he.fresh_call
    grind [Event.id]
  · intro id ch hp
    rcases List.mem_cons.mp hp with rfl | hm
    · exact (he.prompted id ch rfl).1
    · exact Nat.lt_of_lt_of_le (h.made id ch hm) hn
  · intro id id' ch h1 h2
    have := h.one_prompt
    have := he.prompted
    grind
  · intro id ch hp
    rcases List.mem_cons.mp hp with rfl | hm
    · obtain ⟨-, -, ht, hv⟩ := he.prompted id ch rfl
      exact ⟨.tail _ ht, fun h' k hcall => hv h' k (by simpa using hcall)⟩
    · obtain ⟨ht, hv⟩ := h.raised id ch hm
      refine ⟨.tail _ ht, fun h' k hcall => ?_⟩
      rcases List.mem_cons.mp hcall with rfl | hcall
      · exact (he.fresh_call id h' k rfl _ hm rfl).elim
      · exact hv h' k hcall
  · intro t p b shown hd
    rcases List.mem_cons.mp hd with rfl | hm
    · obtain ⟨id, hp⟩ := (he.decided t p b shown rfl).1
      exact ⟨id, .tail _ hp⟩
    · obtain ⟨id, hp⟩ := h.asked t p b shown hm
      exact ⟨id, .tail _ hp⟩
  · intro t p b shown t' p' b' shown' h1 h2 hd
    have := h.one_decision
    have := he.decided
    grind
  · intro id h' k ha
    rcases List.mem_cons.mp ha with rfl | hm
    · obtain ⟨hcall, hg⟩ := he.appended id h' k rfl
      exact ⟨.tail _ hcall, hup _ hg⟩
    · obtain ⟨hcall, hg⟩ := h.appended id h' k hm
      exact ⟨.tail _ hcall, hup _ hg⟩
  · intro id h' k ok hcall hr
    rcases List.mem_cons.mp hr with rfl | hm
    · have hcall' : .called id h' k ∈ log := by simpa using hcall
      obtain ⟨hiff, happ⟩ := he.returned id ok rfl h' k hcall'
      have hsame : Granted env (.returned id ok :: log) ⟨id, h', k⟩ ↔
          Granted env log ⟨id, h', k⟩ := ⟨hret ⟨id, h', k⟩ ok rfl, hup _⟩
      rw [hsame]
      exact ⟨hiff, fun hg => .tail _ (happ hg)⟩
    · -- a call that has returned is not touched by the event
      have hcall' : .called id h' k ∈ log := by
        refine (List.mem_cons.mp hcall).resolve_left fun heq => (he.fresh id ok hm).1 ?_
        rw [← heq]
        rfl
      obtain ⟨hiff, happ⟩ := h.returned id h' k ok hcall' hm
      have hsame : Granted env (e :: log) ⟨id, h', k⟩ ↔ Granted env log ⟨id, h', k⟩ :=
        ⟨hdown ⟨id, h', k⟩ ok hm, hup _⟩
      rw [hsame]
      exact ⟨hiff, fun hg => .tail _ (happ hg)⟩

end Log

/-- The call has been made and has not returned. -/
def Running (log : List Event) (c : Call) : Prop :=
  .called c.id c.hostname c.key ∈ log ∧ ∀ ok, .returned c.id ok ∉ log

/-- The call has raised its prompt, with the channel `ch`. -/
structure Asked (env : Env) (log : List Event) (c : Call) (ch : ℕ) : Prop where
  unknown : env.hostKeyCallback c.hostname c.key = .keyError []
  interactive : .tested c.id true ∈ log
  prompted : .prompted c.id ch ∈ log
  once : ∀ ch', .prompted c.id ch' ∈ log → ch' = ch

/-- What the log says about the call that is running, by its place. -/
def CallOk (env : Env) (sh : Shared) : HostKeyPc → Prop
  | .idle => True
  | .printMismatch c want => Running sh.log c ∧
      ∃ rest, env.hostKeyCallback c.hostname c.key = .keyError (want :: rest)
  | .testInteractive c => Running sh.log c ∧
      env.hostKeyCallback c.hostname c.key = .keyError [] ∧
      (∀ b, .tested c.id b ∉ sh.log) ∧ ∀ ch, .prompted c.id ch ∉ sh.log
  | .printUnknown c => Running sh.log c ∧
      env.hostKeyCallback c.hostname c.key = .keyError [] ∧ .tested c.id true ∉ sh.log
  | .prompt c => Running sh.log c ∧ env.hostKeyCallback c.hostname c.key = .keyError [] ∧
      .tested c.id true ∈ sh.log ∧ ∀ ch, .prompted c.id ch ∉ sh.log
  | .receive c ch => Running sh.log c ∧ Asked env sh.log c ch ∧
      ∀ b, sh.buffer ch = some b →
        ∃ t shown, .decided t (pendingOf env (c, ch)) b shown ∈ sh.log
  | .clearPending c ch b => Running sh.log c ∧ Asked env sh.log c ch ∧
      ∃ t shown, .decided t (pendingOf env (c, ch)) b shown ∈ sh.log
  | .append c => Running sh.log c ∧ Granted env sh.log c
  | .printAdded c => Running sh.log c ∧ Granted env sh.log c ∧
      .appended c.id c.hostname c.key ∈ sh.log
  | .ret c ok => Running sh.log c ∧
      (ok = true ↔ env.hostKeyCallback c.hostname c.key = .ok ∨ Granted env sh.log c) ∧
      (Granted env sh.log c → .appended c.id c.hostname c.key ∈ sh.log)

structure State.Logged (env : Env) (s : State) : Prop where
  history : History env s.sh.log s.sh.calls s.sh.nextChan
  current : CallOk env s.sh s.hostKey
  undecided : ∀ c ch, s.hostKey = .receive c ch → s.sh.buffer ch = none →
    ∀ t p b shown, .decided t p b shown ∈ s.sh.log → p.decision ≠ ch

section Steps

variable {env : Env} {s u : State} {a : Action}

theorem CallOk.congr {sh sh' : Shared} {pc : HostKeyPc} (h : CallOk env sh pc)
    (hl : sh'.log = sh.log) (hb : sh'.buffer = sh.buffer) : CallOk env sh' pc := by
  cases pc <;> simp only [CallOk, hl, hb] at h ⊢ <;> exact h

theorem History.mono {log : List Event} {calls nextChan nextChan' : ℕ}
    (h : History env log calls nextChan) (hn : nextChan ≤ nextChan') :
    History env log calls nextChan' :=
  { h with made := fun id ch hp => Nat.lt_of_lt_of_le (h.made id ch hp) hn }

theorem State.Logged.frame (hs : s.Logged env) (hk : u.hostKey = s.hostKey)
    (hl : u.sh.log = s.sh.log) (hb : u.sh.buffer = s.sh.buffer) (hc : u.sh.calls = s.sh.calls)
    (hn : s.sh.nextChan ≤ u.sh.nextChan) : u.Logged env := by
  refine ⟨?_, ?_, ?_⟩
  · rw [hl, hc]
    exact hs.history.mono hn
  · rw [hk]
    exact hs.current.congr hl hb
  · rw [hk, hl, hb]
    exact hs.undecided

theorem Running.cons {log : List Event} {c : Call} {e : Event} (h : Running log c)
    (he : ∀ ok, e ≠ .returned c.id ok) : Running (e :: log) c :=
  ⟨.tail _ h.1, fun ok hr => (List.mem_cons.mp hr).elim (fun heq => he ok heq.symm) (h.2 ok)⟩

theorem History.running_lt {log : List Event} {calls nextChan : ℕ} {c : Call}
    (h : History env log calls nextChan) (hr : Running log c) : c.id < calls :=
  h.known _ hr.1 c.id rfl

theorem Running.open {log : List Event} {c : Call} {e : Event} (h : Running log c)
    (hid : e.id = some c.id) : e.Open log := by
  intro id ok hr
  refine ⟨fun he => ?_, fun t p b shown heq => ?_⟩
  · rw [hid] at he
    cases he
    exact h.2 ok hr
  · rw [heq] at hid
    cases hid

theorem hostKeyCall_logged {hostname : Text} {key : PublicKey} (hs : s.Logged env) :
    State.Logged env { s with
      sh := (hostKeyCall env s.sh hostname key).1
      hostKey := (hostKeyCall env s.sh hostname key).2 } := by
  have hnew : ∀ e ∈ s.sh.log, e.id ≠ some s.sh.calls := fun e he hid =>
    Nat.lt_irrefl _ (hs.history.known e he _ hid)
  have hnew' : ∀ e ∈ (.called s.sh.calls hostname key :: s.sh.log : List Event),
      e.id = some s.sh.calls → e = .called s.sh.calls hostname key := by
    intro e he hid
    exact (List.mem_cons.mp he).resolve_right fun hm => hnew e hm hid
  have hrun : Running (.called s.sh.calls hostname key :: s.sh.log)
      ⟨s.sh.calls, hostname, key⟩ := by
    refine ⟨.head _, fun ok hr => ?_⟩
    cases hnew' _ hr rfl
  have hext : Event.Extends env s.sh.log (s.sh.calls + 1) s.sh.nextChan
      (.called s.sh.calls hostname key) := by
    refine ⟨?_, ?_, by simp, ?_, by simp, by simp, by simp⟩
    · intro id hid
      cases hid
      exact Nat.lt_succ_self _
    · refine fun id ok hr => ⟨fun he => hnew _ hr ?_, by simp⟩
      cases he
      rfl
    · intro id h k he
      cases he
      exact hnew
  have hhist := hs.history.cons (Nat.le_succ _) (Nat.le_refl _) hext
  simp only [hostKeyCall]
  split
  · rename_i hv
    refine ⟨hhist, ⟨hrun, ⟨fun _ => .inl hv, fun _ => rfl⟩, fun hg => ?_⟩, by simp⟩
    cases hg.unknown.symm.trans hv
  · rename_i err hv
    refine ⟨hhist, ⟨hrun, ⟨fun h => (by cases h), fun h => ?_⟩, fun hg => ?_⟩, by simp⟩
    · rcases h with h | hg
      · cases h.symm.trans hv
      · cases hg.unknown.symm.trans hv
    · cases hg.unknown.symm.trans hv
  · rename_i want rest hv
    exact ⟨hhist, ⟨hrun, rest, hv⟩, by simp⟩
  · rename_i hv
    refine ⟨hhist, ⟨hrun, hv, fun b hb => ?_, fun ch hp => ?_⟩, by simp⟩
    · cases hnew' _ hb rfl
    · cases hnew' _ hp rfl

theorem not_granted_of_mismatch (log : List Event) {c : Call} {v : Verdict}
    (h : env.hostKeyCallback c.hostname c.key = v) (hv : v ≠ .keyError []) :
    ¬Granted env log c := fun hg => hv (h.symm.trans hg.unknown)

theorem not_granted_of_rejected {log : List Event} {calls nextChan ch : ℕ} {c : Call}
    (h : History env log calls nextChan) (ha : Asked env log c ch)
    (hd : ∃ t shown, .decided t (pendingOf env (c, ch)) false shown ∈ log) :
    ¬Granted env log c := by
  obtain ⟨t, shown, hd⟩ := hd
  rintro ⟨-, -, t', ch', shown', hp, hd'⟩
  obtain rfl := ha.once ch' hp
  cases h.one_decision _ _ _ _ _ _ _ _ hd hd' rfl

theorem State.Logged.record {c : Call} {e : Event} {pc : HostKeyPc} (hs : s.Logged env)
    (hrun : Running s.sh.log c) (hid : e.id = some c.id)
    (hext : c.id < s.sh.calls → e.Open s.sh.log →
      e.Extends env s.sh.log s.sh.calls s.sh.nextChan)
    (hcur : CallOk env (s.sh.record e) pc) (hr : ∀ c ch, pc ≠ .receive c ch) :
    State.Logged env { s with sh := s.sh.record e, hostKey := pc } := by
  have he := hext (hs.history.running_lt hrun) (hrun.open hid)
  refine ⟨hs.history.cons (Nat.le_refl _) (Nat.le_refl _) he, hcur, fun c ch hpc => ?_⟩
  exact (hr c ch hpc).elim

theorem State.Logged.print {c : Call} {msg : Text} {sh : Shared} {ok : Bool} (hs : s.Logged env)
    (hp : s.sh.print .hostKey msg = some sh) (hrun : Running s.sh.log c)
    (hiff : ok = true ↔ env.hostKeyCallback c.hostname c.key = .ok ∨ Granted env s.sh.log c)
    (happ : Granted env s.sh.log c → .appended c.id c.hostname c.key ∈ s.sh.log) :
    State.Logged env { s with sh := sh, hostKey := .ret c ok } := by
  obtain ⟨-, rfl⟩ := print_eq hp
  exact ⟨hs.history, ⟨hrun, hiff, happ⟩, by simp⟩

theorem testInteractive_logged {c : Call} (hs : s.Logged env)
    (hpc : s.hostKey = .testInteractive c) :
    State.Logged env { s with
      sh := s.sh.record (.tested c.id s.sh.interactive)
      hostKey := if s.sh.interactive then .prompt c else .printUnknown c } := by
  have hcur := hs.current
  rw [hpc] at hcur
  obtain ⟨hrun, hv, hnt, hnp⟩ := hcur
  have hrun' : Running (s.sh.record (.tested c.id s.sh.interactive)).log c := hrun.cons (by simp)
  refine hs.record hrun rfl (fun hlt hop => ?_) ?_ fun c' ch hr => ?_
  · refine ⟨fun id hid => ?_, hop, by simp, by simp, by simp, by simp, by simp⟩
    cases hid
    exact hlt
  · cases hi : s.sh.interactive with
    | true =>
      refine ⟨hi ▸ hrun', hv, .head _, fun ch hp => hnp ch ?_⟩
      simpa [Shared.record] using hp
    | false =>
      refine ⟨hi ▸ hrun', hv, fun ht => hnt true ?_⟩
      simpa [Shared.record] using ht
  · split at hr <;> cases hr

theorem prompt_logged {c : Call} (hpr : s.Prompting env) (hs : s.Logged env)
    (hpc : s.hostKey = .prompt c) {sh : Shared}
    (hlog : sh.log = .prompted c.id s.sh.nextChan :: s.sh.log) (hc : sh.calls = s.sh.calls)
    (hn : sh.nextChan = s.sh.nextChan + 1) (hb : sh.buffer = s.sh.buffer) :
    State.Logged env { s with sh := sh, hostKey := .receive c s.sh.nextChan } := by
  have hcur := hs.current
  rw [hpc] at hcur
  obtain ⟨hrun, hv, ht, hnp⟩ := hcur
  have hnew : ∀ id, .prompted id s.sh.nextChan ∉ s.sh.log := fun id hp =>
    Nat.lt_irrefl _ (hs.history.made id _ hp)
  have hempty : sh.buffer s.sh.nextChan = none := by
    rw [hb]
    exact hpr.fresh _ (Nat.le_refl _)
  refine ⟨?_, ⟨?_, ⟨hv, ?_, ?_, fun ch hp => ?_⟩, fun b hbuf => ?_⟩, fun c' ch hr _ => ?_⟩
  · rw [hlog, hc, hn]
    refine hs.history.cons (Nat.le_refl _) (Nat.le_succ _) ?_
    refine ⟨fun id hid => ?_, hrun.open rfl, fun id ch he => ?_, by simp, by simp, by simp,
      by simp⟩
    · cases hid
      exact hs.history.running_lt hrun
    · cases he
      refine ⟨Nat.lt_succ_self _, hnew, ht, fun h k hcall => ?_⟩
      obtain ⟨rfl, rfl⟩ := hs.history.one_call _ _ _ _ _ hcall hrun.1
      exact hv
  · rw [hlog]
    exact hrun.cons (by simp)
  · rw [hlog]
    exact .tail _ ht
  · rw [hlog]
    exact .head _
  · rw [hlog] at hp
    rcases List.mem_cons.mp hp with he | hm
    · cases he
      rfl
    · exact (hnp ch hm).elim
  · simp [hempty] at hbuf
  · cases hr
    intro t p b shown hd hdec
    have hd : .decided t p b shown ∈ s.sh.log := by simpa [hlog] using hd
    obtain ⟨id, hp⟩ := hs.history.asked t p b shown hd
    exact hnew id (hdec ▸ hp)

theorem clearPending_logged {c : Call} {ch : ℕ} {b : Bool} (hs : s.Logged env)
    (hpc : s.hostKey = .clearPending c ch b) :
    State.Logged env { s with
      sh := { s.sh with pendingHostKey := none }
      hostKey := if b then .append c else .ret c false } := by
  have hcur := hs.current
  rw [hpc] at hcur
  obtain ⟨hrun, ha, t, shown, hd⟩ := hcur
  refine ⟨hs.history, ?_, fun c' ch' hr => ?_⟩
  · cases b with
    | true => exact ⟨hrun, ha.unknown, ha.interactive, t, ch, shown, ha.prompted, hd⟩
    | false =>
      have hng := not_granted_of_rejected hs.history ha ⟨t, shown, hd⟩
      exact ⟨hrun, by simp [ha.unknown, hng], fun hg => (hng hg).elim⟩
  · dsimp only at hr
    split at hr <;> cases hr

theorem append_logged {c : Call} {written : Bool} (hs : s.Logged env)
    (hpc : s.hostKey = .append c) :
    State.Logged env { s with
      sh := s.sh.record (.appended c.id c.hostname c.key)
      hostKey := if written then .printAdded c else .ret c true } := by
  have hcur := hs.current
  rw [hpc] at hcur
  obtain ⟨hrun, hg⟩ := hcur
  have hrun' : Running (s.sh.record (.appended c.id c.hostname c.key)).log c := hrun.cons (by simp)
  have hg' : Granted env (s.sh.record (.appended c.id c.hostname c.key)).log c := hg.cons _
  refine hs.record hrun rfl (fun hlt hop => ?_) ?_ fun c' ch hr => ?_
  · refine ⟨fun id hid => ?_, hop, by simp, by simp, by simp, fun id h k he => ?_, by simp⟩
    · cases hid
      exact hlt
    · cases he
      exact ⟨hrun.1, hg⟩
  · cases written with
    | true => exact ⟨hrun', hg', .head _⟩
    | false => exact ⟨hrun', ⟨fun _ => .inr hg', fun _ => rfl⟩, fun _ => .head _⟩
  · split at hr <;> cases hr

theorem ret_logged {c : Call} {ok : Bool} (hs : s.Logged env) (hpc : s.hostKey = .ret c ok) :
    State.Logged env { s with sh := s.sh.record (.returned c.id ok), hostKey := .idle } := by
  have hcur := hs.current
  rw [hpc] at hcur
  obtain ⟨hrun, hiff, happ⟩ := hcur
  refine hs.record hrun rfl (fun hlt hop => ?_) trivial (by simp)
  refine ⟨fun id hid => ?_, hop, by simp, by simp, by simp, by simp, fun id ok' he h k hcall => ?_⟩
  · cases hid
    exact hlt
  · cases he
    obtain ⟨rfl, rfl⟩ := hs.history.one_call _ _ _ _ _ hcall hrun.1
    exact ⟨hiff, happ⟩

theorem hostKeyStep_logged {written : Bool} {sh : Shared} {pc : HostKeyPc}
    (hpr : s.Prompting env) (hs : s.Logged env)
    (h : hostKeyStep env written s.sh s.hostKey = some (sh, pc)) :
    State.Logged env { s with sh := sh, hostKey := pc } := by
  have hcur := hs.current
  cases hpc : s.hostKey with
  | idle =>
    rw [hpc] at h
    cases h
  | printMismatch c want =>
    rw [hpc] at h hcur
    obtain ⟨hrun, rest, hv⟩ := hcur
    obtain ⟨_, hp, he⟩ := Option.map_eq_some_iff.mp h
    cases he
    have hng := not_granted_of_mismatch s.sh.log hv (by simp)
    exact hs.print hp hrun (by simp [hv, hng]) fun hg => (hng hg).elim
  | testInteractive c =>
    rw [hpc] at h
    cases h
    exact testInteractive_logged hs hpc
  | printUnknown c =>
    rw [hpc] at h hcur
    obtain ⟨hrun, hv, hnt⟩ := hcur
    obtain ⟨_, hp, he⟩ := Option.map_eq_some_iff.mp h
    cases he
    have hng : ¬Granted env s.sh.log c := fun hg => hnt hg.interactive
    exact hs.print hp hrun (by simp [hv, hng]) fun hg => (hng hg).elim
  | prompt c =>
    rw [hpc] at h
    simp only [hostKeyStep, Option.ite_none_right_eq_some, Option.some.injEq] at h
    cases h.2
    exact prompt_logged hpr hs hpc rfl rfl rfl rfl
  | receive c ch =>
    rw [hpc] at h hcur
    obtain ⟨hrun, ha, hdec⟩ := hcur
    obtain ⟨b, hb, he⟩ := Option.map_eq_some_iff.mp h
    cases he
    exact ⟨hs.history, ⟨hrun, ha, hdec b hb⟩, by simp⟩
  | clearPending c ch b =>
    rw [hpc] at h
    simp only [hostKeyStep, Option.ite_none_right_eq_some, Option.some.injEq] at h
    cases h.2
    exact clearPending_logged hs hpc
  | append c =>
    rw [hpc] at h
    cases h
    exact append_logged hs hpc
  | printAdded c =>
    rw [hpc] at h hcur
    obtain ⟨hrun, hg, happ⟩ := hcur
    obtain ⟨_, hp, he⟩ := Option.map_eq_some_iff.mp h
    cases he
    exact hs.print hp hrun ⟨fun _ => .inr hg, fun _ => rfl⟩ fun _ => happ
  | ret c ok =>
    rw [hpc] at h
    cases h
    exact ret_logged hs hpc

theorem sendDecision_logged {t : ℕ} {c : Call} {ch : ℕ} {b : Bool} {shown : Option Text}
    {sh : Shared} {threads : ℕ → ThreadPc} (hs : s.Logged env) (hpc : s.hostKey = .receive c ch)
    (he : s.sh.buffer ch = none)
    (hlog : sh.log = .decided t (pendingOf env (c, ch)) b shown :: s.sh.log)
    (hb : sh.buffer = Function.update s.sh.buffer ch (some b)) (hc : sh.calls = s.sh.calls)
    (hn : sh.nextChan = s.sh.nextChan) :
    State.Logged env { s with sh := sh, threads := threads } := by
  have hcur := hs.current
  rw [hpc] at hcur
  obtain ⟨hrun, ha, -⟩ := hcur
  have hund := hs.undecided c ch hpc he
  refine ⟨?_, ?_, fun c' ch' hr hbuf => ?_⟩
  · rw [hlog, hc, hn]
    refine hs.history.cons (Nat.le_refl _) (Nat.le_refl _) ?_
    refine ⟨by simp [Event.id], fun id ok hr => ⟨by simp [Event.id], ?_⟩, by simp, by simp, ?_,
      by simp, by simp⟩
    · -- the prompt belongs to the running call
      intro t' p b' shown' heq hp
      cases heq
      obtain rfl := hs.history.one_prompt _ _ _ hp ha.prompted
      exact hrun.2 ok hr
    · intro t' p b' shown' heq
      cases heq
      exact ⟨⟨c.id, ha.prompted⟩, fun t₁ p₁ b₁ shown₁ hd => hund t₁ p₁ b₁ shown₁ hd⟩
  · rw [hpc]
    refine ⟨?_, ⟨ha.unknown, ?_, ?_, fun ch' hp => ?_⟩, fun b' hb' => ?_⟩
    · rw [hlog]
      exact hrun.cons (by simp)
    · rw [hlog]
      exact .tail _ ha.interactive
    · rw [hlog]
      exact .tail _ ha.prompted
    · exact ha.once ch' (by simpa [hlog] using hp)
    · rw [hb, Function.update_self] at hb'
      cases hb'
      exact ⟨t, shown, hlog ▸ .head _⟩
  · rw [hpc] at hr
    cases hr
    simp [hb] at hbuf

theorem threadStep_logged {t : ℕ} {sh : Shared} {pc : ThreadPc} (hpr : s.Prompting env)
    (hs : s.Logged env) (h : threadStep t s.sh (s.threads t) = some (sh, pc)) :
    State.Logged env ({ s with sh := sh }.setThread t pc) := by
  cases threadStep_move h with
  | send r b p hpc hp hb =>
    obtain ⟨c, ch, hr, he, hset⟩ := hpr.prompt (hpr.deciding t r b hpc).2
    obtain rfl : p = pendingOf env (c, ch) := Option.some.inj (hp.symm.trans hset)
    exact sendDecision_logged (s := s) hs hr he rfl rfl rfl rfl
  | register => exact hs.frame rfl rfl rfl rfl (Nat.le_succ _)
  | _ => exact hs.frame rfl rfl rfl rfl (Nat.le_refl _)

theorem step_logged (hpr : s.Prompting env) (hs : s.Logged env) (h : step env s a = some u) :
    u.Logged env := by
  by_cases ha : a.decides = false
  · have hk := step_keepsPrompt h ha
    exact hs.frame hk.hostKey hk.log hk.buffer hk.calls hk.nextChan
  · cases a with
    | hostKeyCall hostname key =>
      obtain ⟨-, -, rfl⟩ := step_hostKeyCall h
      exact hostKeyCall_logged hs
    | hostKey written =>
      obtain ⟨-, sh, pc, hc, rfl⟩ := step_hostKey h
      exact hostKeyStep_logged hpr hs hc
    | thread t =>
      obtain ⟨-, sh, pc, hc, rfl⟩ := step_thread h
      exact threadStep_logged hpr hs hc
    | _ => exact (ha rfl).elim

theorem reach_logged {G : State → Action → Prop} {interactive : Bool}
    (h : Run (step env) G (init env interactive) s) : s.Logged env := by
  refine h.invariant_under (Q := State.Prompting env) (fun _ => reach_prompting) ?_ ?_
  · refine ⟨⟨?_, ?_, ?_, ?_, ?_, ?_, ?_, ?_, ?_⟩, trivial, ?_⟩ <;> simp [init, newShared]
  · intro t a u hp hs _ he
    exact step_logged hp hs he

end Steps

/-- The wrapped callback returns `nil` exactly when the base callback did or a
user accepted this key at the prompt of this call; only then is the key
appended to `known_hosts`. -/
theorem hostKeyCallback_ok_iff {env : Env} {interactive : Bool} {s : State}
    (h : Reach (step env) (init env interactive) s) :
    (∀ id hostname key ok, .called id hostname key ∈ s.sh.log → .returned id ok ∈ s.sh.log →
      (ok = true ↔ env.hostKeyCallback hostname key = .ok ∨
        Granted env s.sh.log ⟨id, hostname, key⟩)) ∧
    (∀ id hostname key, .appended id hostname key ∈ s.sh.log →
      .called id hostname key ∈ s.sh.log ∧ Granted env s.sh.log ⟨id, hostname, key⟩) ∧
    ∀ id hostname key ok, .called id hostname key ∈ s.sh.log → .returned id ok ∈ s.sh.log →
      Granted env s.sh.log ⟨id, hostname, key⟩ → .appended id hostname key ∈ s.sh.log := by
  have hist := (reach_logged h).history
  refine ⟨?_, hist.appended, ?_⟩
  · intro id hostname key ok hc hr
    exact (hist.returned id hostname key ok hc hr).1
  · intro id hostname key ok hc hr
    exact (hist.returned id hostname key ok hc hr).2

/-- A key that is not in `known_hosts` is presented, shown, accepted and appended. -/
theorem unknown_key_accepted :
    ∃ s, Reach (step sampleEnv) (init sampleEnv true) s ∧
      .called 0 "h:22".toList [2] ∈ s.sh.log ∧ .returned 0 true ∈ s.sh.log ∧
        Granted sampleEnv s.sh.log ⟨0, "h:22".toList, [2]⟩ := by
  obtain ⟨s, hr, hs⟩ := reach_of_check (step sampleEnv) (init sampleEnv true)
    ([.connect, .unlock, .connect, .connect, .connect, .hostKeyCall "h:22".toList [2],
      .hostKey true, .hostKey true, .unlock, .request 0 0 ⟨[], some true⟩, .thread 0, .thread 0,
      .unlock, .hostKey true, .hostKey true, .hostKey true, .hostKey true, .unlock, .hostKey true])
    (fun s => .called 0 "h:22".toList [2] ∈ s.sh.log && .returned 0 true ∈ s.sh.log)
    (by decide)
  simp only [Bool.and_eq_true, decide_eq_true_eq] at hs
  have hiff := (hostKeyCallback_ok_iff hr).1 0 _ _ true hs.1 hs.2
  exact ⟨s, hr, hs.1, hs.2, (hiff.mp rfl).resolve_left (by decide)⟩

end SshTunnel.Connector
