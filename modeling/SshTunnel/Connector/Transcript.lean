import SshTunnel.Connector.Delivery
import SshTunnel.Connector.Users

/-!
# What `connect` prints (`dialer/sshdialer.go:439-472`)

The banner, the host key callback and `connect` print into one list, in any order.
The lines of `connect` in it are those of the addresses tried so far: two for each
of them, up to the first that succeeds.
-/

namespace SshTunnel.Connector

open Lib.Runs
open Lib.Net (Text)

/-- What the step appends to the messages when it is one of `connect`. -/
def connectPrints (env : Env) (s : State) : Action → List Text
  | .connect =>
    ((step env s .connect).map fun u => u.sh.messages.drop s.sh.messages.length).getD []
  | _ => []

section Lines

variable (env : Env) (i : ℕ)

/-- `cfg.User` when the `i`-th address is tried. -/
def Env.userOf : Text := carriedUser env.user (env.addresses.take (i + 1))

def Env.tryingLine : Text := tryingText (env.userOf i) (env.host i)

def Env.outcomeLine : Text :=
  match env.dialTimeout i with
  | some err => dialFailedText (env.userOf i) (env.host i) err
  | none =>
    match env.newClientConn i with
    | some err => handshakeFailedText (env.userOf i) (env.host i) err
    | none => handshakeSucceededText (env.userOf i) (env.host i)

/-- The lines of the first `i` addresses. -/
def Env.linesBelow : List Text :=
  (List.range i).flatMap fun j => [env.tryingLine j, env.outcomeLine j]

/-- The number of addresses that an attempt tries. -/
def Env.attempted : ℕ :=
  match env.firstSuccess with
  | some i => i + 1
  | none => env.addresses.length

def Env.transcript : List Text := env.linesBelow env.attempted

end Lines

/-- The record of the lines of `connect`, by its place. -/
def PrintedOk (env : Env) (r : List Text) : ConnectPc → Prop
  | .loop i _ => r = env.linesBelow i ∧ i ≤ env.addresses.length
  | .setConnecting i _ | .dialTimeout i _ | .setHandshake i _ | .newClientConn i _ =>
    r = env.linesBelow i ++ [env.tryingLine i]
  | .printDialFailed i _ err =>
    r = env.linesBelow i ++ [env.tryingLine i] ∧ env.dialTimeout i = some err
  | .printHandshakeFailed i _ err =>
    r = env.linesBelow i ++ [env.tryingLine i] ∧ env.dialTimeout i = none ∧
      env.newClientConn i = some err
  | .printHandshakeSucceeded i user =>
    r = env.linesBelow i ++ [env.tryingLine i] ∧ user = env.userOf i ∧
      env.dialTimeout i = none ∧ env.newClientConn i = none
  | .setClient _ | .setSucceeded | .clearErr | .deferTest | .deferFail | .deferClear
  | .deferNotify | .done => r = env.transcript

section Lines

variable {env : Env} {i j : ℕ}

theorem linesBelow_succ (env : Env) (i : ℕ) :
    env.linesBelow (i + 1) = env.linesBelow i ++ [env.tryingLine i] ++ [env.outcomeLine i] := by
  simp [Env.linesBelow, List.range_succ]

theorem linesBelow_mono (h : i ≤ j) : env.linesBelow i <+: env.linesBelow j := by
  induction h with
  | refl => exact List.prefix_rfl
  | @step m _ ih =>
    have hnext : env.linesBelow m <+: env.linesBelow (m + 1) := by
      rw [linesBelow_succ, List.append_assoc]
      exact List.prefix_append ..
    exact ih.trans hnext

theorem le_attempted (hf : env.FailsBelow i) (hle : i ≤ env.addresses.length) :
    i ≤ env.attempted := by
  unfold Env.attempted
  split
  · rename_i k hk
    have hsucc := (List.find?_range_eq_some.mp hk).1
    by_contra hlt
    rw [hf k (by omega)] at hsucc
    cases hsucc
  · exact hle

theorem lt_attempted (hf : env.FailsBelow i) (hlt : i < env.addresses.length) :
    i < env.attempted := by
  unfold Env.attempted
  split
  · rename_i k hk
    have hsucc := (List.find?_range_eq_some.mp hk).1
    by_contra hle
    rw [hf k (by omega)] at hsucc
    cases hsucc
  · exact hlt

theorem tryingLine_prefix (hf : env.FailsBelow i) (hlt : i < env.addresses.length) :
    env.linesBelow i ++ [env.tryingLine i] <+: env.transcript := by
  have hnext : env.linesBelow i ++ [env.tryingLine i] <+: env.linesBelow (i + 1) := by
    rw [linesBelow_succ]
    exact List.prefix_append ..
  exact hnext.trans (linesBelow_mono (lt_attempted hf hlt))

end Lines

section Steps

variable {env : Env} {s u : State} {a : Action} {r : List Text}

theorem connectPrints_of_step {sh : Shared} {pc : ConnectPc} (hb : s.sh.busy .connect = false)
    (h : connectStep env s.calm s.sh s.connect = some (sh, pc)) :
    connectPrints env s .connect = sh.messages.drop s.sh.messages.length := by
  simp [connectPrints, step, hb, h]

/-- The steps of `connect` that print, and what they print. -/
theorem connectStep_prints {calm : Bool} {sh sh' : Shared} {pc pc' : ConnectPc}
    (hatt : AttemptOk env sh.client pc) (huser : UserOk env pc) (hr : PrintedOk env r pc)
    (h : connectStep env calm sh pc = some (sh', pc')) :
    PrintedOk env (r ++ sh'.messages.drop sh.messages.length) pc' := by
  cases pc with
  | loop i user =>
    obtain ⟨rfl, hle⟩ := hr
    simp only [connectStep] at h
    split at h
    · rename_i hnone
      cases h
      have hfail := firstSuccess_none hatt.2 (List.getElem?_eq_none_iff.mp hnone)
      have hi : i = env.addresses.length :=
        le_antisymm hle (List.getElem?_eq_none_iff.mp hnone)
      simp [PrintedOk, Env.transcript, Env.attempted, hfail, hi]
    · rename_i addr hsome
      obtain ⟨_, hp, he⟩ := Option.map_eq_some_iff.mp h
      cases he
      obtain ⟨-, rfl⟩ := print_eq hp
      have htake : env.addresses.take (i + 1) = env.addresses.take i ++ [addr] := by
        rw [List.take_add_one, hsome, Option.toList_some]
      have hline : env.tryingLine i =
          tryingText (if addr.user = [] then user else addr.user) addr.host := by
        simp only [Env.tryingLine, Env.userOf, htake, carriedUser_concat, Env.host, hsome]
        rw [← (show user = _ from huser)]
        rfl
      simp [PrintedOk, hline]
  | setConnecting i user | setHandshake i user =>
    cases h
    simpa [PrintedOk] using hr
  | dialTimeout i user =>
    simp only [connectStep] at h
    split at h <;> cases h <;> simp_all [PrintedOk]
  | newClientConn i user =>
    have huser : user = env.userOf i := huser
    have hdial := hatt.2.2.2
    simp only [connectStep] at h
    split at h
    · split at h <;> cases h <;> simp_all [PrintedOk]
    · cases h
  | printDialFailed i user err =>
    obtain ⟨rfl, hdial⟩ := hr
    obtain ⟨_, hp, he⟩ := Option.map_eq_some_iff.mp h
    cases he
    obtain ⟨-, rfl⟩ := print_eq hp
    have huser : user = env.userOf i := huser
    have hlt := hatt.2.2
    refine ⟨?_, hlt⟩
    simp [linesBelow_succ, Env.outcomeLine, hdial, huser]
  | printHandshakeFailed i user err =>
    obtain ⟨rfl, hdial, hnew⟩ := hr
    obtain ⟨_, hp, he⟩ := Option.map_eq_some_iff.mp h
    cases he
    obtain ⟨-, rfl⟩ := print_eq hp
    have huser : user = env.userOf i := huser
    have hlt := hatt.2.2
    refine ⟨?_, hlt⟩
    simp [linesBelow_succ, Env.outcomeLine, hdial, hnew, huser]
  | printHandshakeSucceeded i user =>
    obtain ⟨rfl, rfl, hdial, hnew⟩ := hr
    obtain ⟨_, hp, he⟩ := Option.map_eq_some_iff.mp h
    cases he
    obtain ⟨-, rfl⟩ := print_eq hp
    have hfirst := hatt.2
    simp [PrintedOk, Env.transcript, Env.attempted, hfirst, linesBelow_succ, Env.outcomeLine, hdial,
      hnew]
  | deferTest =>
    cases h
    split <;> simpa [PrintedOk] using hr
  | deferNotify =>
    obtain ⟨_, hn, he⟩ := Option.map_eq_some_iff.mp h
    cases he
    obtain ⟨-, rfl⟩ := notifyWaiting_eq hn
    simpa [PrintedOk] using hr
  | setClient | setSucceeded | clearErr | deferFail | deferClear =>
    cases h
    simpa [PrintedOk] using hr
  | done => cases h

/-- The recorded lines are among the messages, in their order. -/
theorem step_transcript (hatt : s.Attempt env) (huser : UserOk env s.connect)
    (hr : PrintedOk env r s.connect) (hsub : r.Sublist s.sh.messages)
    (h : step env s a = some u) :
    PrintedOk env (r ++ connectPrints env s a) u.connect ∧
      (r ++ connectPrints env s a).Sublist u.sh.messages := by
  obtain ⟨d, hd⟩ := (step_messages h).1
  by_cases ha : a = .connect
  · subst ha
    obtain ⟨hb, sh, pc, hc, rfl⟩ := step_connect h
    rw [connectPrints_of_step hb hc]
    refine ⟨connectStep_prints hatt.place huser hr hc, ?_⟩
    rw [← (show _ = sh.messages from hd), List.drop_left]
    exact hsub.append (List.Sublist.refl d)
  · have hnone : connectPrints env s a = [] := by
      cases a with
      | connect => exact (ha rfl).elim
      | _ => rfl
    rw [hnone, List.append_nil, (step_attempt_frame h ha).1, ← hd]
    exact ⟨hr, hsub.trans (List.sublist_append_left ..)⟩

end Steps

/-- In every interleaving the lines that `connect` has printed are a beginning of
its transcript, and the whole of it once the attempt has ended; they stand among
the messages in this order. -/
theorem connect_transcript {env : Env} {interactive : Bool} {x : State × List Text}
    (h : Run (recorded (step env) (connectPrints env)) Always (init env interactive, []) x) :
    x.2 <+: env.transcript ∧ (x.1.connect.ended = true → x.2 = env.transcript) ∧
      x.2.Sublist x.1.sh.messages := by
  have hforget : ∀ y, Run (recorded (step env) (connectPrints env)) Always
      (init env interactive, []) y → Reach (step env) (init env interactive) y.1 :=
    fun y hy => Run.forget (G := Always) hy
  have hinv : PrintedOk env x.2 x.1.connect ∧ x.2.Sublist x.1.sh.messages := by
    refine h.invariant_under (P := fun y : State × List Text => PrintedOk env y.2 y.1.connect ∧
      y.2.Sublist y.1.sh.messages) hforget ⟨⟨rfl, Nat.zero_le _⟩, List.nil_sublist _⟩ ?_
    intro y a z hy hp _ he
    obtain ⟨hstep, hnote⟩ := recorded_step he
    rw [hnote]
    exact step_transcript (reach_attempt hy) (reach_user hy) hp.1 hp.2 hstep
  obtain ⟨hr, hsub⟩ := hinv
  have hatt := (reach_attempt (hforget x h)).place
  refine ⟨?_, fun hend => ?_, hsub⟩
  · cases hpc : x.1.connect with
    | loop i user =>
      rw [hpc] at hr hatt
      rw [hr.1]
      exact linesBelow_mono (le_attempted hatt.2 hr.2)
    | setConnecting i | dialTimeout i | setHandshake i | newClientConn i =>
      rw [hpc] at hr hatt
      rw [show x.2 = _ from hr]
      first
      | exact tryingLine_prefix hatt.2.1 hatt.2.2
      | exact tryingLine_prefix hatt.2.1 hatt.2.2.1
    | printDialFailed i | printHandshakeFailed i =>
      rw [hpc] at hr hatt
      rw [hr.1]
      exact tryingLine_prefix (fun j hj => hatt.2.1 j (by omega)) hatt.2.2
    | printHandshakeSucceeded i =>
      rw [hpc] at hr hatt
      rw [hr.1, Env.transcript, Env.attempted, hatt.2]
      simp only [linesBelow_succ]
      exact List.prefix_append ..
    | _ =>
      rw [hpc] at hr
      exact hr ▸ List.prefix_rfl
  · cases hpc : x.1.connect <;> rw [hpc] at hend hr <;> first | exact hr | cases hend

/-- The banner of the server stands between the two lines of the only address. -/
theorem banner_between_lines :
    ∃ x, Run (recorded (step sampleEnv) (connectPrints sampleEnv)) Always
        (init sampleEnv false, []) x ∧
      x.1.sh.messages = [sampleEnv.tryingLine 0, "hi".toList, sampleEnv.outcomeLine 0] ∧
      x.2 = sampleEnv.transcript := by
  obtain ⟨x, hx, hp⟩ := reach_of_check (recorded (step sampleEnv) (connectPrints sampleEnv))
    (init sampleEnv false, []) (toHandshake ++ [.banner "hi".toList, .unlock, .connect, .connect,
      .unlock, .connect, .connect])
    (fun x => x.1.connect.ended && x.1.sh.messages =
      [sampleEnv.tryingLine 0, "hi".toList, sampleEnv.outcomeLine 0]) (by decide)
  simp only [Bool.and_eq_true, decide_eq_true_eq] at hp
  exact ⟨x, hx, hp.2, (connect_transcript hx).2.1 hp.1⟩

end SshTunnel.Connector
