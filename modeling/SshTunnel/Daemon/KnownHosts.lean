import SshTunnel.Daemon.Connectors
import SshTunnel.Connector.Progress

/-!
# The host key database (`dialer/sshdialer.go:69-87`, `326-404`, `511-525`)

`NewSSHDialer` reads `known_hosts` once, and `appendKnownHost` extends the file
but not the database that was read. A callback therefore decides as the file
says as long as it does not depend on a line that was appended since: the key
presented is not one of these lines alone, and a host that only these lines
list is not presented to an interactive session.
-/

namespace SshTunnel.Daemon

open Lib.Runs
open Lib.Net (Text)
open Connector (PublicKey Verdict)

def Core.log (d : Core) (c : ℕ) : List Connector.Event := (d.connectors c).sh.log

/-- What the file said about the key when the callback was called. -/
def Asked.verdict (env : Env) (q : Asked) : Verdict :=
  env.newKnownHosts (env.knownHosts ++ q.written) q.call.hostname q.call.key

/-- No callback depends on a line that this process has appended. -/
def Current (env : Env) (s : State) : Action → Prop
  | .connector _ (.hostKeyCall hostname key) =>
    key ∈ env.keysOf s.core.written hostname → key ∈ env.keysOf env.knownHosts hostname
  | .connector c (.hostKey _) => ∀ q ∈ s.core.asked, q.conn = c →
    (s.core.connectors c).hostKey = .testInteractive q.call →
    (s.core.connectors c).sh.interactive = true → env.keysOf q.written q.call.hostname = []
  | _ => True

structure Core.Recorded (env : Env) (d : Core) : Prop where
  running : ∀ q ∈ d.asked, d.started q.conn = true
  called : ∀ q ∈ d.asked, .called q.call.id q.call.hostname q.call.key ∈ d.log q.conn
  complete : ∀ c id hostname key, .called id hostname key ∈ d.log c →
    ∃ q ∈ d.asked, q.conn = c ∧ q.call = ⟨id, hostname, key⟩
  fresh : ∀ q ∈ d.asked, q.call.key ∈ env.keysOf q.written q.call.hostname →
    q.call.key ∈ env.keysOf env.knownHosts q.call.hostname
  untested : ∀ q ∈ d.asked, env.keysOf q.written q.call.hostname ≠ [] →
    .tested q.call.id true ∉ d.log q.conn

section Steps

variable {env : Env} {s u : State} {a : Action} {d d' : Core}

/-- A step that calls no callback and tests none that the new lines matter to. -/
theorem Core.Recorded.frame (hd : d.Recorded env) (hq : d'.asked = d.asked)
    (hst : ∀ c, d.started c = true → d'.started c = true)
    (hmono : ∀ c, d.started c = true → ∀ e ∈ d.log c, e ∈ d'.log c)
    (hcalled : ∀ c id h k, .called id h k ∈ d'.log c → .called id h k ∈ d.log c)
    (htested : ∀ q ∈ d.asked, env.keysOf q.written q.call.hostname ≠ [] →
      .tested q.call.id true ∈ d'.log q.conn → .tested q.call.id true ∈ d.log q.conn) :
    d'.Recorded env := by
  refine ⟨?_, ?_, ?_, ?_, ?_⟩ <;> rw [hq]
  · exact fun q hm => hst _ (hd.running q hm)
  · exact fun q hm => hmono _ (hd.running q hm) _ (hd.called q hm)
  · exact fun c id h k hc => hd.complete c id h k (hcalled c id h k hc)
  · exact hd.fresh
  · exact fun q hm hw ht => hd.untested q hm hw (htested q hm hw ht)

theorem log_of_update {c : ℕ} {k : Connector.State}
    (hu : d'.connectors = Function.update d.connectors c k) (c' : ℕ) :
    d'.log c' = if c' = c then k.sh.log else d.log c' := by
  simp only [Core.log, hu, Function.update_apply]
  split <;> rfl

theorem Core.Recorded.connector {c : ℕ} {b : Connector.Action} {k : Connector.State}
    (hd : d.Recorded env) (hq : d'.asked = d.asked)
    (hst : ∀ c, d.started c = true → d'.started c = true)
    (hk : Connector.step (env.connector c) (d.connectors c) b = some k)
    (hu : d'.connectors = Function.update d.connectors c k)
    (hb : ∀ hostname key, b ≠ .hostKeyCall hostname key)
    (ht : ∀ q ∈ d.asked, q.conn = c → env.keysOf q.written q.call.hostname ≠ [] →
      ∀ w c₀, b = .hostKey w → (d.connectors c).hostKey = .testInteractive c₀ →
        c₀.id = q.call.id → (d.connectors c).sh.interactive ≠ true) : d'.Recorded env := by
  refine hd.frame hq hst (fun c' _ e he => ?_) (fun c' id h' k' hc => ?_) fun q hm hw htest => ?_
  · rw [log_of_update hu]
    split
    · rename_i hcc
      exact Connector.step_log_mono hk (hcc ▸ he)
    · exact he
  · rw [log_of_update hu] at hc
    split at hc
    · rename_i hcc
      rw [hcc]
      refine (Connector.step_called hk hc).resolve_right fun ⟨hcall, _⟩ => ?_
      exact hb _ _ hcall
    · exact hc
  · rw [log_of_update hu] at htest
    split at htest
    · rename_i hcc
      rw [hcc]
      refine (Connector.step_tested hk htest).resolve_right ?_
      rintro ⟨w, c₀, hw', hpc, hid, hi⟩
      exact ht q hm hcc hw w c₀ hw' hpc hid hi
    · exact htest

theorem dialerMove_recorded (hal : d.Allocated) (hd : d.Recorded env)
    (h : DialerMove env d d') : d'.Recorded env := by
  obtain ⟨hm, hq, -, hrun, -, -⟩ := h
  cases hm with
  | keep hk =>
    have hlog : ∀ c, d'.log c = d.log c := fun c => by rw [Core.log, Core.log, hk]
    refine hd.frame hq hrun ?_ ?_ ?_ <;> simp [hlog]
  | step c a k hk hu _ ha =>
    -- the dialer starts no callback and does not step one
    refine hd.connector hq hrun hk hu (fun hostname key hb => ?_) fun q _ _ _ w _ hb => ?_
    · simp [hb, internal] at ha
    · simp [hb, internal] at ha
  | new b hu =>
    have hold : ∀ c, d.started c = true → d'.log c = d.log c := by
      intro c hst
      rw [log_of_update hu, if_neg (Nat.ne_of_lt (hal.started c hst))]
    refine hd.frame hq hrun (fun c hst e he => ?_) (fun c id h k hc => ?_) fun q hm _ ht => ?_
    · exact hold c hst ▸ he
    · rw [log_of_update hu] at hc
      split at hc
      · cases hc
      · exact hc
    · exact hold _ (hd.running q hm) ▸ ht

/-- The callback is called: the record is made with the lines appended so far. -/
theorem hostKeyCall_recorded {c : ℕ} {k : Connector.State} {hostname : Text} {key : PublicKey}
    (hlog : (d.connectors c).Logged (env.connector c)) (hd : d.Recorded env)
    (hst : d.started c = true)
    (hg : key ∈ env.keysOf d.written hostname → key ∈ env.keysOf env.knownHosts hostname)
    (hk : Connector.step (env.connector c) (d.connectors c) (.hostKeyCall hostname key) = some k)
    (hu : d'.connectors = Function.update d.connectors c k) (hs : d'.started = d.started)
    (hq : d'.asked = ⟨c, ⟨(d.connectors c).sh.calls, hostname, key⟩, d.written⟩ :: d.asked) :
    d'.Recorded env := by
  have hnew : k.sh.log = .called (d.connectors c).sh.calls hostname key :: d.log c := by
    obtain ⟨-, -, rfl⟩ := Connector.step_hostKeyCall hk
    rw [Connector.hostKeyCall_frame]
    rfl
  have hlog' : ∀ c', d'.log c' = if c' = c then
      .called (d.connectors c).sh.calls hostname key :: d.log c' else d.log c' := by
    intro c'
    rw [log_of_update hu, hnew]
    split
    · rename_i hcc
      rw [hcc]
    · rfl
  have hup : ∀ c' e, e ∈ d.log c' → e ∈ d'.log c' := by
    intro c' e he
    rw [hlog']
    split
    · exact .tail _ he
    · exact he
  have htest : ∀ c' id, .tested id true ∈ d'.log c' → .tested id true ∈ d.log c' := by
    intro c' id ht
    rw [hlog'] at ht
    split at ht
    · simpa using ht
    · exact ht
  refine ⟨?_, ?_, ?_, ?_, ?_⟩ <;> rw [hq]
  · intro q hm
    rw [hs]
    rcases List.mem_cons.mp hm with rfl | hm
    · exact hst
    · exact hd.running q hm
  · intro q hm
    rcases List.mem_cons.mp hm with rfl | hm
    · rw [hlog', if_pos rfl]
      exact .head _
    · exact hup _ _ (hd.called q hm)
  · intro c' id h' k' hc
    have hold : .called id h' k' ∈ d.log c' ∨ c' = c ∧
        Connector.Event.called id h' k' = .called (d.connectors c).sh.calls hostname key := by
      rw [hlog'] at hc
      split at hc
      · rename_i hcc
        exact (List.mem_cons.mp hc).elim (fun he => .inr ⟨hcc, he⟩) .inl
      · exact .inl hc
    rcases hold with hold | ⟨rfl, he⟩
    · obtain ⟨q, hm, h1, h2⟩ := hd.complete c' id h' k' hold
      exact ⟨q, .tail _ hm, h1, h2⟩
    · cases he
      exact ⟨_, .head _, rfl, rfl⟩
  · intro q hm
    rcases List.mem_cons.mp hm with rfl | hm
    · exact hg
    · exact hd.fresh q hm
  · intro q hm hw ht
    rcases List.mem_cons.mp hm with rfl | hm
    · -- a number that has not been given out is in no event
      exact Nat.lt_irrefl _ (hlog.history.known _ (htest _ _ ht) _ rfl)
    · exact hd.untested q hm hw (htest _ _ ht)

theorem step_recorded (hal : s.core.Allocated)
    (hlog : ∀ c, (s.core.connectors c).Logged (env.connector c)) (hd : s.core.Recorded env)
    (hg : Current env s a) (h : step env s a = some u) : u.core.Recorded env := by
  rcases step_move h with hm | ⟨c, b, rfl⟩
  · exact dialerMove_recorded hal hd hm
  obtain ⟨hst, -, k, hk, rfl⟩ := step_connector h
  obtain ⟨hcon, -, hstart⟩ := outside_connectors env s.core c b
  by_cases hb : ∃ hostname key, b = .hostKeyCall hostname key
  · obtain ⟨hostname, key, rfl⟩ := hb
    exact hostKeyCall_recorded (hlog c) hd hst hg hk rfl rfl rfl
  have hasked : (s.core.outside env c b).asked = s.core.asked := by
    unfold Core.outside
    split
    · split <;> rfl
    · split <;> rfl
    · exact (hb ⟨_, _, rfl⟩).elim
    · rfl
  refine hd.connector hasked (fun c' h' => hstart ▸ h') hk (by rw [hcon])
    (fun hostname key he => hb ⟨hostname, key, he⟩) ?_
  rintro q hq rfl hw w c₀ rfl hpc hid hi
  obtain rfl : c₀ = q.call := (hlog q.conn).running_call (hd.called q hq) hpc hid
  exact hw (hg q hq rfl hpc hi)

theorem connector_logged {G : State → Action → Prop} (h : Run (step env) G (init env) s) (c : ℕ) :
    (s.core.connectors c).Logged (env.connector c) := by
  obtain ⟨b, hr⟩ := connector_reached h c
  exact Connector.reach_logged hr

theorem run_recorded (h : Run (step env) (Current env) (init env) s) : s.core.Recorded env := by
  refine h.invariant_under (P := fun s => s.core.Recorded env)
    (Q := fun s => s.core.Allocated ∧ ∀ c, (s.core.connectors c).Logged (env.connector c))
    (fun _ hp => ⟨run_allocated hp, connector_logged hp⟩) ?_ ?_
  · refine ⟨?_, ?_, ?_, ?_, ?_⟩ <;> simp [init, Core.log, Connector.init, Connector.newShared]
  · intro t a u hq hd hg he
    exact step_recorded hq.1 hq.2 hd hg he

end Steps

section Verdict

variable {env : Env} {s : State} {q : Asked}

theorem keysOf_append (l l' : List Line) (hostname : Text) :
    env.keysOf (l ++ l') hostname = env.keysOf l hostname ++ env.keysOf l' hostname := by
  simp [Env.keysOf]

theorem verdict_ok (h : q.verdict env = .ok) :
    q.call.key ∈ env.keysOf env.knownHosts q.call.hostname ∨
      q.call.key ∈ env.keysOf q.written q.call.hostname := by
  simp only [Asked.verdict, Env.newKnownHosts] at h
  split at h
  · rename_i hk
    rwa [keysOf_append, List.mem_append] at hk
  · cases h

/-- A mismatch with the file is one with the database or with the new lines. -/
theorem verdict_mismatch {want : PublicKey} {rest : List PublicKey}
    (h : q.verdict env = .keyError (want :: rest)) :
    env.newKnownHosts env.knownHosts q.call.hostname q.call.key =
        .keyError (env.keysOf env.knownHosts q.call.hostname) ∧
      (env.keysOf env.knownHosts q.call.hostname = [] →
        env.keysOf q.written q.call.hostname ≠ []) := by
  simp only [Asked.verdict, Env.newKnownHosts] at h
  split at h
  · cases h
  · rename_i hk
    rw [keysOf_append, List.mem_append, not_or] at hk
    rw [keysOf_append, Verdict.keyError.injEq] at h
    refine ⟨if_neg hk.1, fun hd hw => ?_⟩
    simp [hd, hw] at h

/-- A run in which the callback returns `ok` and has not asked the user. -/
def State.Returns (env : Env) (s : State) (q : Asked) (ok : Bool) : Prop :=
  ∃ u, Reach (step env) s u ∧ .returned q.call.id ok ∈ u.core.log q.conn ∧
    ∀ ch, .prompted q.call.id ch ∉ u.core.log q.conn

theorem internal_of_leaves {b : Connector.Action} (h : b.leaves = true) : internal b = true := by
  cases b <;> first | rfl | cases h

/-- The callback has returned, or the connector can bring it to its return. -/
theorem returns_of_connector {ok : Bool} (hst : s.core.started q.conn = true)
    (hans : (s.core.connectors q.conn).Answers q.call ok)
    (hatt : (s.core.connectors q.conn).Attended)
    (hc : .called q.call.id q.call.hostname q.call.key ∈ s.core.log q.conn)
    (hret : (s.core.connectors q.conn).hostKey.call = some q.call →
      (s.core.connectors q.conn).Returns (env.connector q.conn) q.call ok) :
    s.Returns env q ok := by
  rcases hatt _ _ _ hc with ⟨b, hr⟩ | hcall
  · obtain rfl := hans.right b hr
    exact ⟨s, .refl, hr, hans.silent⟩
  · obtain ⟨k, hp, hr, hnp⟩ := hret hcall
    obtain ⟨u, hu, rfl, -⟩ := run_of_connector (G := Always)
      (fun _ _ _ hb => ⟨internal_of_leaves hb, trivial⟩) hst hp
    exact ⟨u, hu, hr, fun ch h => hans.silent ch (hnp ch h)⟩

end Verdict

/-- Every callback decides as `known_hosts` with the lines appended so far does:
a key listed for the host is accepted and a host listed with other keys only is
refused, both without a prompt. -/
theorem callback_decides_as_file {env : Env} {s : State}
    (h : Run (step env) (Current env) (init env) s) :
    (∀ c id hostname key, .called id hostname key ∈ s.core.log c →
      ∃ q ∈ s.core.asked, q.conn = c ∧ q.call = ⟨id, hostname, key⟩) ∧
    ∀ q ∈ s.core.asked,
      (q.verdict env = .ok →
        (s.core.connectors q.conn).Answers q.call true ∧ s.Returns env q true) ∧
      ∀ want rest, q.verdict env = .keyError (want :: rest) →
        (s.core.connectors q.conn).Answers q.call false ∧
        (((s.core.connectors q.conn).hostKey = .testInteractive q.call →
          (s.core.connectors q.conn).sh.interactive = false) → s.Returns env q false) := by
  have hd := run_recorded h
  refine ⟨hd.complete, fun q hq => ?_⟩
  obtain ⟨b, hr⟩ := connector_reached h q.conn
  have hlog := Connector.reach_logged hr
  have hsnd := Connector.reach_sound hr
  have hatt := Connector.reach_attended hr
  have hst := hd.running q hq
  have hc := hd.called q hq
  refine ⟨fun hv => ?_, fun want rest hv => ?_⟩
  · have hbase : (env.connector q.conn).hostKeyCallback q.call.hostname q.call.key = .ok :=
      if_pos ((verdict_ok hv).elim id (hd.fresh q hq))
    have hans := Connector.known_answers hlog hc hbase
    exact ⟨hans, returns_of_connector hst hans hatt hc fun hcall =>
      Connector.known_returns hlog hsnd hcall hbase⟩
  · obtain ⟨hbase, hw⟩ := verdict_mismatch hv
    have hunt : env.keysOf env.knownHosts q.call.hostname = [] →
        .tested q.call.id true ∉ s.core.log q.conn := fun hk => hd.untested q hq (hw hk)
    have hans : (s.core.connectors q.conn).Answers q.call false := by
      refine Connector.refused_answers hlog hc (fun hok => ?_) fun hu => hunt ?_
      · cases hbase.symm.trans hok
      · exact Verdict.keyError.inj (hbase.symm.trans hu)
    refine ⟨hans, fun hi => returns_of_connector hst hans hatt hc fun hcall => ?_⟩
    exact Connector.refused_returns hlog hsnd hcall hbase hunt hi

section Example

/-- A host that `known_hosts` does not list and whose login is refused. -/
def strangerEnv : Env :=
  { sampleEnv with knownHosts := [], newClientConn := fun _ _ => some "no".toList }

def connectorSteps (c : ℕ) (as : List Connector.Action) : List Action := as.map (.connector c)

/-- An interactive attempt whose host presents the key `[2]`, up to its prompt. -/
def toPrompt (c : ℕ) : List Action :=
  .call 0 (.getConnector true) :: steps 0 8 ++ connectorSteps c
    [.connect, .unlock, .connect, .connect, .connect, .hostKeyCall "h:22".toList [2],
      .hostKey true, .hostKey true]

/-- The key is accepted and appended, and the attempt ends. -/
def acceptKey : List Action :=
  connectorSteps 0 [.unlock] ++ [.serve 1 0 0 ⟨[], some true⟩] ++ connectorSteps 0
    [.thread 1, .thread 1, .unlock, .hostKey true, .hostKey true, .hostKey true, .hostKey true,
      .unlock, .hostKey true, .connect, .connect, .unlock, .connect, .connect, .connect, .connect,
      .connect, .unlock]

/-- The second contact with a host accepted in the same life of the daemon asks
the user again. -/
theorem accepted_key_prompts_again :
    ¬∀ (env : Env) (s : State), Reach (step env) (init env) s → ∀ q ∈ s.core.asked,
      q.verdict env = .ok → (s.core.connectors q.conn).Answers q.call true := by
  intro hall
  obtain ⟨s, hr, hs⟩ := reach_of_check (step strangerEnv) (init strangerEnv)
    (toPrompt 0 ++ acceptKey ++ toPrompt 1)
    (fun s => s.core.asked.any fun q => q.conn = 1 && q.verdict strangerEnv = .ok &&
      .prompted q.call.id 0 ∈ s.core.log 1) (by decide)
  simp only [List.any_eq_true, Bool.and_eq_true, decide_eq_true_eq] at hs
  obtain ⟨q, hq, ⟨hc, hv⟩, hp⟩ := hs
  exact (hall strangerEnv s hr q hq hv).silent 0 (hc ▸ hp)

def current (env : Env) (s : State) : Action → Bool
  | .connector _ (.hostKeyCall hostname key) =>
    key ∉ env.keysOf s.core.written hostname || key ∈ env.keysOf env.knownHosts hostname
  | .connector c (.hostKey _) => s.core.asked.all fun q => q.conn ≠ c ||
    (s.core.connectors c).hostKey ≠ .testInteractive q.call ||
    !(s.core.connectors c).sh.interactive || env.keysOf q.written q.call.hostname = []
  | _ => true

theorem current_sound {env : Env} {s : State} {a : Action} (h : current env s a = true) :
    Current env s a := by
  unfold Current
  split
  · intro hk
    simpa [current, hk] using h
  · intro q hq hc hpc hi
    have hall := List.all_eq_true.mp h q hq
    simpa [hc, hpc, hi] using hall
  · trivial

/-- A known host: its key is accepted silently, another key is refused. -/
theorem known_host_decided :
    ∃ s, Run (step sampleEnv) (Current sampleEnv) (init sampleEnv) s ∧
      (∃ q ∈ s.core.asked, q.verdict sampleEnv = .ok ∧
        (s.core.connectors q.conn).Answers q.call true) ∧
      ∃ q ∈ s.core.asked, q.verdict sampleEnv = .keyError [[1]] ∧
        (s.core.connectors q.conn).Answers q.call false := by
  obtain ⟨s, hs, hp⟩ := (Option.any_eq_true ..).mp
    (show (exec (guarded (current sampleEnv) (step sampleEnv)) (init sampleEnv)
      (.call 0 (.getConnector true) :: steps 0 8 ++ connectorSteps 0
        [.connect, .unlock, .connect, .connect, .connect, .hostKeyCall "h:22".toList [1],
          .hostKey true, .connect, .connect, .unlock, .connect,
          .hostKeyCall "h:22".toList [2]])).any
        (fun s => s.core.asked.any (·.verdict sampleEnv = .ok) &&
          s.core.asked.any (·.verdict sampleEnv = .keyError [[1]])) = true by decide)
  simp only [List.any_eq_true, Bool.and_eq_true, decide_eq_true_eq] at hp
  obtain ⟨⟨q, hq, hv⟩, q', hq', hv'⟩ := hp
  have hpath : Run (step sampleEnv) (Current sampleEnv) (init sampleEnv) s :=
    run_of_exec (I := fun _ => True) (fun _ _ _ _ _ _ => trivial)
      (fun _ _ _ => current_sound) trivial hs
  have hdec := (callback_decides_as_file hpath).2
  exact ⟨s, hpath, ⟨q, hq, hv, ((hdec q hq).1 hv).1⟩, q', hq', hv', ((hdec q' hq').2 _ _ hv').1⟩

end Example

end SshTunnel.Daemon
