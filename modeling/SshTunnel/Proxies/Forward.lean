import SshTunnel.Lib.Net
import SshTunnel.Lib.Runs

/-!
# The copy pair (`proxy/transparentproxy.go:77-106`, `proxy/httpproxy.go:102-115`)

Two connections and two goroutines that copy from each to the other. The peers
send bytes and end their sending direction at any time; a copy reads what has
come, writes it, and returns at the end of the stream or on the error of a closed
connection, after which its goroutine closes both connections.
-/

namespace SshTunnel.Forward

open Lib.Runs
open Lib.Net (Byte)

inductive Side where
  | localConn
  | remoteConn
  deriving DecidableEq

def Side.other : Side → Side
  | .localConn => .remoteConn
  | .remoteConn => .localConn

structure Conn where
  /-- The bytes the peer has sent, and those of them that have not been read. -/
  sent : List Byte
  unread : List Byte
  /-- The peer has ended its sending direction. -/
  finished : Bool
  received : List Byte
  closed : Bool

/-- The place of a goroutine; `done <- true` is `signal`. -/
inductive LoopPc where
  | read
  | write (chunk : List Byte)
  | signal
  | closeFirst
  | closeSecond
  | done
  deriving DecidableEq

/-- The goroutine of a side copies from that side to the other one. -/
structure State where
  conn : Side → Conn
  loop : Side → LoopPc

/-- What distinguishes the two places of the pair: the signal to the caller, and
which connection the deferred calls of a goroutine close first. -/
structure CopyPair where
  signals : Bool
  first : Side → Side

def forwardConnection : CopyPair := ⟨true, fun _ => .remoteConn⟩

/-- The client connection is `localConn`; the source is closed first. -/
def handleTunneling : CopyPair := ⟨false, id⟩

inductive Action where
  | send (x : Side) (b : Byte)
  | finish (x : Side)
  /-- A step of the goroutine of `x`; a read takes at most `n` bytes. -/
  | copy (x : Side) (n : ℕ)

def State.setConn (s : State) (x : Side) (c : Conn) : State :=
  { s with conn := Function.update s.conn x c }

def State.setLoop (s : State) (x : Side) (pc : LoopPc) : State :=
  { s with loop := Function.update s.loop x pc }

/-- The place after `io.Copy`. -/
def CopyPair.ended (pair : CopyPair) : LoopPc := if pair.signals then .signal else .closeFirst

def State.close (s : State) (x : Side) : State := s.setConn x { s.conn x with closed := true }

def copyStep (pair : CopyPair) (s : State) (x : Side) (n : ℕ) : Option State :=
  match s.loop x with
  | .read =>
    if (s.conn x).closed then some (s.setLoop x pair.ended)
    else if (s.conn x).unread = [] then
      if (s.conn x).finished then some (s.setLoop x pair.ended) else none
    else if n = 0 then none
    else some ((s.setConn x { s.conn x with unread := (s.conn x).unread.drop n }).setLoop x
      (.write ((s.conn x).unread.take n)))
  | .write chunk =>
    if (s.conn x.other).closed then some (s.setLoop x pair.ended)
    else some ((s.setConn x.other { s.conn x.other with
      received := (s.conn x.other).received ++ chunk }).setLoop x .read)
  | .signal => some (s.setLoop x .closeFirst)
  | .closeFirst => some ((s.close (pair.first x)).setLoop x .closeSecond)
  | .closeSecond => some ((s.close (pair.first x).other).setLoop x .done)
  | .done => none

def step (pair : CopyPair) (s : State) : Action → Option State
  | .send x b =>
    if (s.conn x).finished then none
    else some (s.setConn x { s.conn x with
      sent := (s.conn x).sent ++ [b], unread := (s.conn x).unread ++ [b] })
  | .finish x =>
    if (s.conn x).finished then none
    else some (s.setConn x { s.conn x with finished := true })
  | .copy x n => copyStep pair s x n

def init : State := ⟨fun _ => ⟨[], [], false, [], false⟩, fun _ => .read⟩

/-- `io.Copy` has returned. -/
def LoopPc.returned : LoopPc → Bool
  | .read | .write _ => false
  | _ => true

/-- The bytes that have been read and not written. -/
def LoopPc.held : LoopPc → List Byte
  | .write chunk => chunk
  | _ => []

/-- The side has ended its stream and the other side has all of it. -/
def State.Served (s : State) (x : Side) : Prop :=
  (s.conn x).finished = true ∧ (s.conn x.other).received = (s.conn x).sent

/-- What is delivered is in order, and no copy returns before the end of its stream. -/
def State.Complete (s : State) : Prop :=
  ∀ x, (s.conn x.other).received <+: (s.conn x).sent ∧ ((s.loop x).returned = true → s.Served x)

/-- A goroutine closes a connection only when the other direction is served. -/
def Drained (s : State) : Action → Prop
  | .copy x _ => s.loop x = .closeFirst ∨ s.loop x = .closeSecond → s.Served x.other
  | _ => True

/-- Nothing is lost: every byte is delivered, held or unread; a copy that has
returned and a closed connection mean that the streams are at their ends. -/
structure State.Flows (s : State) : Prop where
  kept : ∀ x, (s.conn x.other).received ++ ((s.loop x).held ++ (s.conn x).unread) = (s.conn x).sent
  returned : ∀ x, (s.loop x).returned = true → s.Served x
  closed : ∀ y, (s.conn y).closed = true → ∀ x, s.Served x

section Steps

variable {pair : CopyPair} {s u : State} {a : Action} {x : Side}

theorem other_other (x : Side) : x.other.other = x := by
  cases x <;> rfl

theorem other_ne (x : Side) : x.other ≠ x := by
  cases x <;> simp [Side.other]

theorem eq_or_other (x y : Side) : y = x ∨ y = x.other := by
  cases x <;> cases y <;> simp [Side.other]

@[simp] theorem setConn_conn (y : Side) (c : Conn) :
    (s.setConn x c).conn y = if y = x then c else s.conn y := Function.update_apply ..

@[simp] theorem setConn_loop (c : Conn) : (s.setConn x c).loop = s.loop := rfl

@[simp] theorem setLoop_loop (y : Side) (pc : LoopPc) :
    (s.setLoop x pc).loop y = if y = x then pc else s.loop y := Function.update_apply ..

@[simp] theorem setLoop_conn (pc : LoopPc) : (s.setLoop x pc).conn = s.conn := rfl

theorem ended_returned (pair : CopyPair) : pair.ended.returned = true ∧ pair.ended.held = [] := by
  unfold CopyPair.ended
  split <;> exact ⟨rfl, rfl⟩

inductive CopyMove (pair : CopyPair) (s : State) (x : Side) : State → Prop
  /-- The copy returns with the error of a closed connection. -/
  | fail (y : Side) (hy : (s.conn y).closed = true) : CopyMove pair s x (s.setLoop x pair.ended)
  | eof (hpc : s.loop x = .read) (hu : (s.conn x).unread = [])
      (hf : (s.conn x).finished = true) : CopyMove pair s x (s.setLoop x pair.ended)
  | read (n : ℕ) (hpc : s.loop x = .read) : CopyMove pair s x
      ((s.setConn x { s.conn x with unread := (s.conn x).unread.drop n }).setLoop x
        (.write ((s.conn x).unread.take n)))
  | write (chunk : List Byte) (hpc : s.loop x = .write chunk) : CopyMove pair s x
      ((s.setConn x.other { s.conn x.other with
        received := (s.conn x.other).received ++ chunk }).setLoop x .read)
  | signal (hpc : s.loop x = .signal) : CopyMove pair s x (s.setLoop x .closeFirst)
  | close (y : Side) (pc : LoopPc) (hpc : s.loop x = .closeFirst ∨ s.loop x = .closeSecond)
      (hover : pc.returned = true) (hheld : pc.held = []) :
    CopyMove pair s x ((s.close y).setLoop x pc)

theorem copyStep_move {n : ℕ} (h : copyStep pair s x n = some u) : CopyMove pair s x u := by
  unfold copyStep at h
  split at h
  · rename_i hpc
    split at h
    · rename_i hc
      cases h
      exact .fail x hc
    · split at h
      · rename_i hu
        simp only [Option.ite_none_right_eq_some] at h
        obtain ⟨hf, h⟩ := h
        cases h
        exact .eof hpc hu hf
      · simp only [Option.ite_none_left_eq_some] at h
        obtain ⟨-, h⟩ := h
        cases h
        exact .read n hpc
  · rename_i chunk hpc
    split at h
    · rename_i hc
      cases h
      exact .fail x.other hc
    · cases h
      exact .write chunk hpc
  · rename_i hpc
    cases h
    exact .signal hpc
  · rename_i hpc
    cases h
    exact .close _ _ (.inl hpc) rfl rfl
  · rename_i hpc
    cases h
    exact .close _ _ (.inr hpc) rfl rfl
  · cases h

theorem Served.frame (hf : ∀ y, (u.conn y).finished = (s.conn y).finished)
    (hr : ∀ y, (u.conn y).received = (s.conn y).received)
    (hs : ∀ y, (u.conn y).sent = (s.conn y).sent) (x : Side) : u.Served x ↔ s.Served x := by
  simp only [State.Served, hf, hr, hs]

theorem State.Flows.setLoop (hs : s.Flows) (hx : s.Served x) {pc : LoopPc} (hheld : pc.held = []) :
    (s.setLoop x pc).Flows := by
  refine ⟨fun y => ?_, fun y hy => ?_, fun y hy z => hs.closed y hy z⟩
  · by_cases he : y = x
    · subst he
      have hkept := hs.kept y
      rw [hx.2] at hkept
      have hrest := List.append_right_eq_self.mp hkept
      simp [hheld, (List.append_eq_nil_iff.mp hrest).2, hx.2]
    · simpa [he] using hs.kept y
  · by_cases he : y = x
    · exact he ▸ hx
    · exact hs.returned y (by simpa [he] using hy)

theorem State.Flows.close (hs : s.Flows) (hall : ∀ z, s.Served z) (y : Side) :
    (s.close y).Flows := by
  have hsame : ∀ z, ((s.close y).conn z).finished = (s.conn z).finished ∧
      ((s.close y).conn z).received = (s.conn z).received ∧
      ((s.close y).conn z).sent = (s.conn z).sent ∧
      ((s.close y).conn z).unread = (s.conn z).unread := by
    intro z
    by_cases hz : z = y <;> simp [State.close, hz]
  have hserved : ∀ z, (s.close y).Served z := fun z =>
    (Served.frame (fun w => (hsame w).1) (fun w => (hsame w).2.1)
      (fun w => (hsame w).2.2.1) z).mpr (hall z)
  refine ⟨fun z => ?_, fun z _ => hserved z, fun _ _ z => hserved z⟩
  rw [(hsame z.other).2.1, (hsame z).2.2.1, (hsame z).2.2.2]
  exact hs.kept z

/-- The peer goes on: nothing can be closed while it has not finished. -/
theorem send_flows {b : Byte} (hs : s.Flows) (hf : (s.conn x).finished = false) :
    (s.setConn x { s.conn x with
      sent := (s.conn x).sent ++ [b], unread := (s.conn x).unread ++ [b] }).Flows := by
  have hno : ¬s.Served x := by
    rintro ⟨h, -⟩
    simp [hf] at h
  have hopen : ∀ y, (s.conn y).closed ≠ true := fun y hy => hno (hs.closed y hy x)
  refine ⟨fun y => ?_, fun y hy => ?_, fun y hy => ?_⟩
  · rcases eq_or_other x y with rfl | rfl
    · simp only [setConn_conn, if_neg (other_ne y), if_pos, setConn_loop, ← hs.kept y,
        List.append_assoc]
    · have hkept := hs.kept x.other
      rw [other_other] at hkept
      simpa [other_other, other_ne] using hkept
  · rcases eq_or_other x y with rfl | rfl
    · exact (hno (hs.returned y hy)).elim
    · obtain ⟨hf', hr'⟩ := hs.returned x.other hy
      refine ⟨?_, ?_⟩
      · simpa [other_ne] using hf'
      · simpa [other_other, other_ne] using hr'
  · refine (hopen y ?_).elim
    by_cases he : y = x <;> simpa [he] using hy

theorem finish_flows (hs : s.Flows) :
    (s.setConn x { s.conn x with finished := true }).Flows := by
  have hserved : ∀ z, s.Served z → (s.setConn x { s.conn x with finished := true }).Served z := by
    rintro z ⟨hf, hr⟩
    refine ⟨?_, ?_⟩
    · by_cases hz : z = x <;> simp [hz, ← hf]
    · by_cases hz : z = x <;> by_cases hz' : z.other = x <;> simp_all
  refine ⟨fun y => ?_, fun y hy => hserved y (hs.returned y hy), fun y hy z => hserved z ?_⟩
  · have hkept := hs.kept y
    by_cases hy : y = x <;> by_cases hy' : y.other = x <;> simp_all
  · refine hs.closed y ?_ z
    by_cases he : y = x <;> simpa [he] using hy

theorem read_flows (hs : s.Flows) (n : ℕ) (hpc : s.loop x = .read) :
    ((s.setConn x { s.conn x with unread := (s.conn x).unread.drop n }).setLoop x
      (.write ((s.conn x).unread.take n))).Flows := by
  have hconn : ∀ z, ((s.setConn x { s.conn x with unread := (s.conn x).unread.drop n }).conn z) =
      { s.conn z with
        unread := if z = x then (s.conn x).unread.drop n else (s.conn z).unread } := by
    intro z
    by_cases hz : z = x
    · subst hz
      simp
    · simp [hz]
  have hserved := Served.frame (s := s) (u := s.setConn x { s.conn x with
    unread := (s.conn x).unread.drop n }) (fun z => by rw [hconn]) (fun z => by rw [hconn])
    (fun z => by rw [hconn])
  refine ⟨fun y => ?_, fun y hy => (hserved y).mpr ?_, fun y hy z => (hserved z).mpr ?_⟩
  · simp only [setLoop_conn, hconn, setLoop_loop, setConn_loop]
    have hkept := hs.kept y
    by_cases he : y = x
    · subst he
      rw [hpc] at hkept
      simpa [LoopPc.held] using hkept
    · simpa [he] using hkept
  · by_cases he : y = x
    · subst he
      simp [LoopPc.returned] at hy
    · exact hs.returned y (by simpa [he] using hy)
  · refine hs.closed y ?_ z
    rw [setLoop_conn, hconn] at hy
    exact hy

theorem write_flows (hs : s.Flows) {chunk : List Byte} (hpc : s.loop x = .write chunk) :
    ((s.setConn x.other { s.conn x.other with
      received := (s.conn x.other).received ++ chunk }).setLoop x .read).Flows := by
  have hkept := hs.kept x
  rw [hpc] at hkept
  -- a stream that is at its end has nothing held
  have hserved : ∀ z, s.Served z → (s.setConn x.other { s.conn x.other with
      received := (s.conn x.other).received ++ chunk }).Served z := by
    rintro z ⟨hf, hr⟩
    rcases eq_or_other x z with rfl | rfl
    · rw [hr] at hkept
      have hnil := (List.append_eq_nil_iff.mp (List.append_right_eq_self.mp hkept)).1
      have hchunk : chunk = [] := hnil
      refine ⟨?_, ?_⟩
      · simpa [(other_ne z).symm] using hf
      · simpa [(other_ne z).symm, hchunk] using hr
    · refine ⟨by simpa using hf, ?_⟩
      rw [other_other] at hr
      simpa [other_other, (other_ne x).symm] using hr
  refine ⟨fun y => ?_, fun y hy => hserved y ?_, fun y hy z => hserved z ?_⟩
  · rcases eq_or_other x y with rfl | rfl
    · simpa [LoopPc.held, (other_ne y).symm] using hkept
    · have hother := hs.kept x.other
      rw [other_other] at hother
      simpa [other_other, other_ne, (other_ne x).symm] using hother
  · by_cases he : y = x
    · subst he
      simp [LoopPc.returned] at hy
    · exact hs.returned y (by simpa [he] using hy)
  · refine hs.closed y ?_ z
    by_cases he : y = x.other <;> simpa [he] using hy

theorem step_flows (hs : s.Flows) (hg : Drained s a) (h : step pair s a = some u) : u.Flows := by
  cases a with
  | send x b =>
    simp only [step, Option.ite_none_left_eq_some, Bool.not_eq_true] at h
    cases h.2
    exact send_flows hs h.1
  | finish x =>
    simp only [step, Option.ite_none_left_eq_some] at h
    cases h.2
    exact finish_flows hs
  | copy x n =>
    cases copyStep_move h with
    | fail y hy => exact hs.setLoop (hs.closed y hy x) (ended_returned pair).2
    | eof hpc hu hf =>
      have hkept := hs.kept x
      rw [hpc, hu, List.append_nil] at hkept
      exact hs.setLoop ⟨hf, by simpa [LoopPc.held] using hkept⟩ (ended_returned pair).2
    | read n hpc => exact read_flows hs n hpc
    | write chunk hpc => exact write_flows hs hpc
    | signal hpc => exact hs.setLoop (hs.returned x (by rw [hpc]; rfl)) rfl
    | close y pc hpc hover hheld =>
      have hx : s.Served x := hs.returned x (by rcases hpc with hp | hp <;> rw [hp] <;> rfl)
      have hall : ∀ z, s.Served z := by
        intro z
        rcases eq_or_other x z with rfl | rfl
        · exact hx
        · exact hg hpc
      have hclosed := hs.close hall y
      exact hclosed.setLoop (hclosed.closed y (by simp [State.close]) x) hheld

theorem run_flows (h : Run (step pair) Drained init s) : s.Flows := by
  refine h.invariant (P := State.Flows) ⟨fun _ => rfl, fun _ hy => ?_, fun _ hy => ?_⟩ ?_
  · cases hy
  · cases hy
  · intro s a u hs hg he
    exact step_flows hs hg he

theorem drained_of_copying {n : ℕ} (h : (s.loop x).returned = false) : Drained s (.copy x n) := by
  rintro (hpc | hpc) <;> rw [hpc] at h <;> cases h

/-- A step of the copy that delivers what has been sent. -/
def Copying (x : Side) (s : State) (a : Action) : Prop := (∃ n, a = .copy x n) ∧ Drained s a

theorem copy_read (pair : CopyPair) (hpc : s.loop x = .read) (hc : (s.conn x).closed = false)
    (hu : (s.conn x).unread ≠ []) : step pair s (.copy x (s.conn x).unread.length) =
      some ((s.setConn x { s.conn x with unread := [] }).setLoop x (.write (s.conn x).unread)) := by
  simp [step, copyStep, hpc, hc, hu]

theorem copy_write (pair : CopyPair) {chunk : List Byte} (hpc : s.loop x = .write chunk)
    (hc : (s.conn x.other).closed = false) : step pair s (.copy x 0) =
      some ((s.setConn x.other { s.conn x.other with
        received := (s.conn x.other).received ++ chunk }).setLoop x .read) := by
  simp [step, copyStep, hpc, hc]

theorem copying_read (n : ℕ) (hpc : s.loop x = .read) : Copying x s (.copy x n) :=
  ⟨⟨n, rfl⟩, drained_of_copying (by rw [hpc]; rfl)⟩

theorem copying_write (n : ℕ) {chunk : List Byte} (hpc : s.loop x = .write chunk) :
    Copying x s (.copy x n) :=
  ⟨⟨n, rfl⟩, drained_of_copying (by rw [hpc]; rfl)⟩

theorem deliver_read (pair : CopyPair) (hs : s.Flows) (hopen : ∀ y, (s.conn y).closed = false)
    (hpc : s.loop x = .read) :
    ∃ v, Run (step pair) (Copying x) s v ∧ (v.conn x.other).received = (s.conn x).sent := by
  have hkept := hs.kept x
  rw [hpc] at hkept
  by_cases hu : (s.conn x).unread = []
  · exact ⟨s, .refl, by simpa [hu, LoopPc.held] using hkept⟩
  · have hread := copy_read pair hpc (hopen x) hu
    have hpc' : ((s.setConn x { s.conn x with unread := [] }).setLoop x
        (.write (s.conn x).unread)).loop x = .write (s.conn x).unread := by simp
    have hwrite := copy_write pair hpc' (by simp [other_ne, hopen])
    refine ⟨_, .tail (.tail .refl (copying_read _ hpc) hread) (copying_write 0 hpc') hwrite, ?_⟩
    simpa [LoopPc.held, other_ne] using hkept

theorem deliver (pair : CopyPair) (hs : s.Flows) (x : Side) :
    ∃ v, Run (step pair) (Copying x) s v ∧ (v.conn x.other).received = (s.conn x).sent := by
  by_cases hserved : s.Served x
  · exact ⟨s, .refl, hserved.2⟩
  have hopen : ∀ y, (s.conn y).closed = false := by
    intro y
    by_contra hy
    exact hserved (hs.closed y (by simpa using hy) x)
  cases hpc : s.loop x with
  | read => exact deliver_read pair hs hopen hpc
  | write chunk =>
    have hwrite := copy_write pair hpc (hopen x.other)
    have hflows := step_flows hs (copying_write 0 hpc).2 hwrite
    obtain ⟨v, hv, hr⟩ := deliver_read (x := x) pair hflows (fun y => by
      by_cases hy : y = x.other <;> simp [hy, hopen]) (by simp)
    refine ⟨v, Run.trans (.tail .refl (copying_write 0 hpc) hwrite) hv, hr.trans ?_⟩
    simp [(other_ne x).symm]
  | _ => exact (hserved (hs.returned x (by rw [hpc]; rfl))).elim

end Steps

section Lost

variable {pair : CopyPair} {s u : State} {a : Action} {x : Side}

/-- A goroutine at its second close has closed the first connection. -/
def State.Ordered (pair : CopyPair) (s : State) : Prop :=
  ∀ x, s.loop x = .closeSecond → (s.conn (pair.first x)).closed = true

theorem step_closed (h : step pair s a = some u) (y : Side) (hy : (s.conn y).closed = true) :
    (u.conn y).closed = true := by
  cases a with
  | send x b =>
    simp only [step, Option.ite_none_left_eq_some] at h
    cases h.2
    by_cases he : y = x <;> simp [he, ← hy]
  | finish x =>
    simp only [step, Option.ite_none_left_eq_some] at h
    cases h.2
    by_cases he : y = x <;> simp [he, ← hy]
  | copy x n =>
    cases copyStep_move h with
    | read =>
      by_cases he : y = x <;> simp [he, ← hy]
    | write =>
      by_cases he : y = x.other <;> simp [he, ← hy]
    | close z =>
      by_cases he : y = z <;> simp [State.close, he, hy]
    | _ => exact hy

theorem copyStep_closeSecond {n : ℕ} (h : copyStep pair s x n = some u)
    (hu : u.loop x = .closeSecond) : (u.conn (pair.first x)).closed = true := by
  have hended : pair.ended ≠ .closeSecond := by
    unfold CopyPair.ended
    split <;> simp
  cases hpc : s.loop x with
  | closeFirst =>
    simp only [copyStep, hpc] at h
    cases h
    simp [State.close]
  | _ => grind [copyStep, setLoop_loop]

theorem step_ordered (hs : s.Ordered pair) (h : step pair s a = some u) : u.Ordered pair := by
  intro y hy
  cases a with
  | send x b =>
    refine step_closed h _ (hs y ?_)
    simp only [step, Option.ite_none_left_eq_some] at h
    cases h.2
    exact hy
  | finish x =>
    refine step_closed h _ (hs y ?_)
    simp only [step, Option.ite_none_left_eq_some] at h
    cases h.2
    exact hy
  | copy x n =>
    by_cases he : y = x
    · subst he
      exact copyStep_closeSecond h hy
    · refine step_closed h _ (hs y ?_)
      have hloop : u.loop y = s.loop y := by
        cases copyStep_move h <;> simp [State.close, he]
      exact hloop ▸ hy

theorem reach_ordered (h : Reach (step pair) init s) : s.Ordered pair := by
  refine h.invariant (P := State.Ordered pair) (fun x hx => ?_) ?_
  · cases hx
  · intro s a u hs _ he
    exact step_ordered hs he

/-- With both connections closed, a copy that has not served its stream returns. -/
theorem closed_loses (pair : CopyPair) (hall : ∀ y, (s.conn y).closed = true)
    (hno : ¬s.Served x) :
    ∃ v, Reach (step pair) s v ∧ ¬v.Complete := by
  by_cases hover : (s.loop x).returned = true
  · exact ⟨s, .refl, fun h => hno ((h x).2 hover)⟩
  · have hstep : step pair s (.copy x 0) = some (s.setLoop x pair.ended) := by
      cases hpc : s.loop x with
      | read => simp [step, copyStep, hpc, hall]
      | write chunk => simp [step, copyStep, hpc, hall]
      | _ =>
        rw [hpc] at hover
        exact (hover rfl).elim
    refine ⟨_, .tail .refl trivial hstep, fun h => hno ?_⟩
    exact (h x).2 (by simp [(ended_returned pair).1])

theorem close_other {y : Side} (h : (s.conn y).closed = true) (z : Side) :
    ((s.close y.other).conn z).closed = true := by
  rcases eq_or_other y z with rfl | rfl
  · simpa [State.close, (other_ne z).symm] using h
  · simp [State.close]

theorem close_served (y : Side) (pc : LoopPc) (z w : Side) :
    ((s.close y).setLoop z pc).Served w ↔ s.Served w := by
  apply Served.frame <;> intro v <;> by_cases hv : v = y <;> simp [State.close, hv]

/-- A close before the other direction is served can lose bytes of it. -/
theorem undrained_loses (hr : Reach (step pair) init s) (h : step pair s a = some u)
    (ha : ¬Drained s a) : ∃ v, Reach (step pair) u v ∧ ¬v.Complete := by
  cases a with
  | copy x n =>
    simp only [Drained, not_forall] at ha
    obtain ⟨hpc, hno⟩ := ha
    rcases hpc with hpc | hpc
    · simp only [step, copyStep, hpc] at h
      cases h
      have hnext : step pair ((s.close (pair.first x)).setLoop x .closeSecond) (.copy x 0) =
          some ((((s.close (pair.first x)).setLoop x .closeSecond).close
            (pair.first x).other).setLoop x .done) := by
        simp [step, copyStep]
      obtain ⟨v, hv, hlost⟩ := closed_loses (x := x.other) pair
        (s := (((s.close (pair.first x)).setLoop x .closeSecond).close
          (pair.first x).other).setLoop x .done)
        (close_other (s := (s.close (pair.first x)).setLoop x .closeSecond)
          (by simp [State.close]))
        (fun hs => hno ((close_served _ _ _ _).mp ((close_served _ _ _ _).mp hs)))
      exact ⟨v, Run.trans (.tail .refl trivial hnext) hv, hlost⟩
    · have hfirst := reach_ordered hr x hpc
      simp only [step, copyStep, hpc] at h
      cases h
      exact closed_loses (x := x.other) pair (close_other hfirst)
        (fun hs => hno ((close_served _ _ _ _).mp hs))
  | _ => exact (ha trivial).elim

end Lost

/-- In every run in which a goroutine closes a connection only when the other
direction is at its end and delivered: what is delivered is in order, no copy
returns before the end of its stream, and all that a side has sent can be
delivered by its copy alone. An earlier close can lose bytes. -/
theorem forward_complete (pair : CopyPair) :
    (∀ s, Run (step pair) Drained init s → s.Complete ∧
      ∀ x, ∃ v, Run (step pair) (Copying x) s v ∧
        (v.conn x.other).received = (s.conn x).sent) ∧
    ∀ s a u, Reach (step pair) init s → step pair s a = some u → ¬Drained s a →
      ∃ v, Reach (step pair) u v ∧ ¬v.Complete := by
  refine ⟨fun s h => ?_, fun s a u hr hs ha => undrained_loses hr hs ha⟩
  have hflows := run_flows h
  refine ⟨fun x => ⟨⟨_, hflows.kept x⟩, hflows.returned x⟩, fun x => deliver pair hflows x⟩

section Example

/-- The client ends its sending direction after its request; its goroutine takes
`n` steps, and the answer comes after them. -/
def answerAfter (n : ℕ) : List Action :=
  [.send .localConn 1, .finish .localConn] ++ List.replicate n (.copy .localConn 1) ++
    [.send .remoteConn 2, .finish .remoteConn, .copy .remoteConn 1]

theorem incomplete_of_check {pair : CopyPair} (as : List Action)
    (h : (exec (step pair) init as).any (fun s => (s.loop .remoteConn).returned &&
      (s.conn .remoteConn).sent = [2] && (s.conn .localConn).received = []) = true) :
    ¬∀ s, Reach (step pair) init s → s.Complete := by
  intro hall
  obtain ⟨s, hr, hs⟩ := reach_of_check (step pair) init as _ h
  simp only [Bool.and_eq_true, decide_eq_true_eq] at hs
  obtain ⟨⟨hover, hsent⟩, hrec⟩ := hs
  have hserved := ((hall s hr .remoteConn).2 hover).2
  rw [hsent, Side.other, hrec] at hserved
  cases hserved

theorem half_close_loses_answer :
    (¬∀ s, Reach (step forwardConnection) init s → s.Complete) ∧
      ¬∀ s, Reach (step handleTunneling) init s → s.Complete :=
  ⟨incomplete_of_check (answerAfter 6) (by decide),
    incomplete_of_check (answerAfter 5) (by decide)⟩

instance decidableServed (s : State) (x : Side) : Decidable (s.Served x) :=
  inferInstanceAs (Decidable (_ ∧ _))

def drained (s : State) : Action → Bool
  | .copy x _ => (s.loop x ≠ .closeFirst && s.loop x ≠ .closeSecond) || s.Served x.other
  | _ => true

theorem drained_sound {s : State} {a : Action} (h : drained s a = true) : Drained s a := by
  cases a with
  | copy x n =>
    intro hpc
    simp only [drained, ne_eq, Bool.or_eq_true, Bool.and_eq_true, decide_eq_true_eq] at h
    exact h.resolve_left fun hne => hpc.elim hne.1 hne.2
  | _ => trivial

/-- The answer comes before the client's copy closes the connections. -/
theorem answer_before_close :
    ∃ s, Run (step forwardConnection) Drained init s ∧ (s.conn .localConn).closed = true ∧
      (s.conn .remoteConn).received = [1] ∧ (s.conn .localConn).received = [2] ∧ s.Complete := by
  obtain ⟨s, hs, hp⟩ := (Option.any_eq_true ..).mp
    (show (exec (guarded drained (step forwardConnection)) init
      ([.send .localConn 1, .finish .localConn, .send .remoteConn 2, .finish .remoteConn] ++
        List.replicate 3 (.copy .remoteConn 1) ++ List.replicate 6 (.copy .localConn 1))).any
        (fun s => (s.conn .localConn).closed && (s.conn .remoteConn).received = [1] &&
          (s.conn .localConn).received = [2]) = true by decide)
  simp only [Bool.and_eq_true, decide_eq_true_eq] at hp
  have hrun : Run (step forwardConnection) Drained init s :=
    run_of_exec (I := fun _ => True) (fun _ _ _ _ _ _ => trivial)
      (fun _ _ _ => drained_sound) trivial hs
  exact ⟨s, hrun, hp.1.1, hp.1.2, hp.2, ((forward_complete forwardConnection).1 s hrun).1⟩

end Example

end SshTunnel.Forward
