import SshTunnel.Lib.NetText
import SshTunnel.Lib.Runs

/-!
# The daemon process (`server/start.go`, `server/server.go:190-214`)

`sshtunnel start` and `sshtunnel stop` know the daemon by the number in
`/tmp/sshtunnel.pid`, which `start` writes after the daemon has been started and the
daemon writes as well. Creating the file and writing the number are two steps. A
daemon that ends by itself leaves the file behind: `os.Exit` runs no deferred call,
and only a panic of `Run` does. The number in the file can therefore be another
process's when `stop` looks it up.
-/

namespace SshTunnel.Lifecycle

open Lib.Net Lib.Runs

def splitSign : Text → ℤ × Text
  | '-' :: ds => (-1, ds)
  | '+' :: ds => (1, ds)
  | ds => (1, ds)

/-- `strconv.Atoi`, with a 64-bit `int`. -/
def atoi (t : Text) : Option ℤ :=
  let (sign, digits) := splitSign t
  if digits ≠ [] ∧ digits.all Char.isDigit = true then
    let n := sign * (Nat.ofDigitChars 10 digits 0 : ℤ)
    if -(2 ^ 63) ≤ n ∧ n < 2 ^ 63 then some n else none
  else none

inductive Cmd where
  | start
  | stop
  deriving DecidableEq

/-- The daemon saves its process ID before it serves. -/
inductive DaemonPc where
  | create
  | write (inode : ℕ)
  | serve
  deriving DecidableEq

/-- What runs under a process ID; `signals` says that we may signal it. -/
inductive Process where
  | free
  | daemon (pc : DaemonPc)
  | foreign (signals : Bool)
  deriving DecidableEq

inductive Out where
  | running (pid : ℤ)
  | started (pid : ℕ)
  | stopped
  | killed (pid : ℤ)
  | notKilled (pid : ℤ)
  deriving DecidableEq

/-- The places of one command: `getProcessFromPIDFile`, then the rest of `start` or
`Stop`. -/
inductive Pc where
  | idle
  | stat (c : Cmd)
  | read (c : Cmd)
  | signal (c : Cmd) (pid : ℤ)
  | spawn
  | create (pid : ℕ)
  | write (pid inode : ℕ)
  | remove (pid : ℤ)
  | kill (pid : ℤ)
  | exited (out : Out)
  deriving DecidableEq

structure File where
  inode : ℕ
  content : Text
  deriving DecidableEq

structure State where
  file : Option File
  inodes : ℕ
  procs : ℕ → Process
  clis : ℕ → Pc

def init : State := ⟨none, 0, fun _ => .free, fun _ => .idle⟩

section Files

variable (s : State)

/-- `os.Create`: a file that exists keeps its inode and loses its content. -/
def State.create : State × ℕ :=
  match s.file with
  | some f => ({ s with file := some ⟨f.inode, []⟩ }, f.inode)
  | none => ({ s with file := some ⟨s.inodes, []⟩, inodes := s.inodes + 1 }, s.inodes)

/-- `WriteString` at the start of the file that was created. -/
def State.writeString (inode : ℕ) (text : Text) : State :=
  match s.file with
  | some f =>
    if f.inode = inode then
      { s with file := some ⟨inode, text ++ f.content.drop text.length⟩ }
    else s
  | none => s

def State.remove : State := { s with file := none }

def State.setProc (pid : ℕ) (p : Process) : State :=
  { s with procs := Function.update s.procs pid p }

def State.setCli (t : ℕ) (pc : Pc) : State := { s with clis := Function.update s.clis t pc }

end Files

/-- `process.Signal` or `process.Kill` returns nil. -/
def State.signals (s : State) : ℤ → Bool
  | .ofNat pid =>
    match s.procs pid with
    | .free => false
    | .daemon _ => decide (0 < pid)
    | .foreign b => b && decide (0 < pid)
  | .negSucc _ => false

def notRunning : Cmd → Pc
  | .start => .spawn
  | .stop => .exited .stopped

def found (pid : ℤ) : Cmd → Pc
  | .start => .exited (.running pid)
  | .stop => .remove pid

/-- The process IDs that the system gives out. -/
def Pid (pid : ℕ) : Prop := 0 < pid ∧ pid < 2 ^ 31

instance (pid : ℕ) : Decidable (Pid pid) := inferInstanceAs (Decidable (_ ∧ _))

/-- One step of a command; a started daemon gets `pid`. -/
def cliStep (s : State) (pid : ℕ) : Pc → Option (State × Pc)
  | .stat c => some (s, if s.file.isSome then .read c else notRunning c)
  | .read c =>
    some (s,
      match s.file.bind fun f => atoi f.content with
      | some p => .signal c p
      | none => notRunning c)
  | .signal c p => some (s, if s.signals p then found p c else notRunning c)
  | .spawn =>
    if s.procs pid = .free ∧ Pid pid then some (s.setProc pid (.daemon .create), .create pid)
    else none
  | .create p => some (s.create.1, .write p s.create.2)
  | .write p inode => some (s.writeString inode (decText p), .exited (.started p))
  | .remove p => some (s.remove, .kill p)
  | .kill p =>
    if s.signals p then some (s.setProc p.toNat .free, .exited (.killed p))
    else some (s, .exited (.notKilled p))
  | .idle | .exited _ => none

def Pc.atRest : Pc → Bool
  | .idle | .exited _ => true
  | _ => false

inductive Action where
  | command (t : ℕ) (c : Cmd)
  | cli (t pid : ℕ)
  /-- A command is interrupted. -/
  | abort (t : ℕ)
  | daemon (pid : ℕ)
  /-- The daemon ends, by a stop request or for another reason. -/
  | exit (pid : ℕ)
  /-- `Run` panics, in one of the additional commands. -/
  | panics (pid : ℕ)
  /-- `sshtunnel daemon` is run directly. -/
  | launch (pid : ℕ)
  | foreign (pid : ℕ) (signals : Bool)
  | ends (pid : ℕ)

def step (s : State) : Action → Option State
  | .command t c => if (s.clis t).atRest then some (s.setCli t (.stat c)) else none
  | .cli t pid => (cliStep s pid (s.clis t)).map fun (s', pc) => s'.setCli t pc
  | .abort t => if (s.clis t).atRest then none else some (s.setCli t .idle)
  | .daemon pid =>
    match s.procs pid with
    | .daemon .create => some (s.create.1.setProc pid (.daemon (.write s.create.2)))
    | .daemon (.write inode) =>
      some ((s.writeString inode (decText pid)).setProc pid (.daemon .serve))
    | _ => none
  | .exit pid =>
    match s.procs pid with
    | .daemon _ => some (s.setProc pid .free)
    | _ => none
  | .panics pid =>
    match s.procs pid with
    | .daemon .serve => some (s.setProc pid .free).remove
    | _ => none
  | .launch pid =>
    if s.procs pid = .free ∧ Pid pid then some (s.setProc pid (.daemon .create)) else none
  | .foreign pid signals =>
    if s.procs pid = .free ∧ Pid pid then some (s.setProc pid (.foreign signals)) else none
  | .ends pid =>
    match s.procs pid with
    | .foreign _ => some (s.setProc pid .free)
    | _ => none

/-! ### Orderly use -/

def Pc.pid : Pc → Option ℤ
  | .signal _ p | .remove p | .kill p => some p
  | .create p | .write p _ => some p
  | _ => none

/-- The file or a running command has the number of the process. -/
def State.Names (s : State) (pid : ℕ) : Prop :=
  (∃ f, s.file = some f ∧ atoi f.content = some (pid : ℤ)) ∨ ∃ t, (s.clis t).pid = some (pid : ℤ)

/-- Commands run one after the other and look at the file only when no daemon is still
saving its number; none is interrupted after it has created or removed the file and
before it has written the number or killed the daemon; and a daemon is run directly only
while no command and no other daemon runs. -/
def Orderly (s : State) : Action → Prop
  | .command _ _ => ∀ t, (s.clis t).atRest = true
  | .cli t _ =>
    (∃ c, s.clis t = .stat c ∨ s.clis t = .read c) →
      ∀ p k, s.procs p = .daemon k → k = .serve
  | .abort t => (∀ p i, s.clis t ≠ .write p i) ∧ ∀ p, s.clis t ≠ .kill p
  | .launch _ => (∀ t, (s.clis t).atRest = true) ∧ ∀ p k, s.procs p ≠ .daemon k
  | _ => True

/-- The system gives no other process a number that the file or a running command has. -/
def Unreused (s : State) : Action → Prop
  | .foreign pid _ => ¬s.Names pid
  | _ => True

/-- The command is between two steps that leave the file incomplete. -/
def Pc.dips : Pc → Bool
  | .write .. | .kill _ => true
  | _ => false

/-- The command has looked at the file and found the number. -/
def Pc.checked : Pc → Option ℤ
  | .signal _ p | .remove p | .kill p => some p
  | _ => none

/-- The file is the one with this inode, empty or with the number of the process. -/
def State.HoldsOr (s : State) (inode pid : ℕ) : Prop :=
  ∃ content, s.file = some ⟨inode, content⟩ ∧ (content = [] ∨ content = decText pid)

/-- The file may also be gone together with the daemon. -/
def State.Saves (s : State) (inode pid : ℕ) : Prop :=
  s.HoldsOr inode pid ∨ s.file = none ∧ ∀ p k, s.procs p ≠ .daemon k

structure State.Base (s : State) : Prop where
  one : ∀ p q k l, s.procs p = .daemon k → s.procs q = .daemon l → p = q
  serial : ∀ t t', (s.clis t).atRest = false → (s.clis t').atRest = false → t = t'
  pid : ∀ p k, s.procs p = .daemon k → Pid p
  writing : ∀ p i, s.procs p = .daemon (.write i) → s.HoldsOr i p
  checked : ∀ t q, (s.clis t).checked = some q → ∀ p k, s.procs p = .daemon k →
    (p : ℤ) = q ∧ k = .serve
  spawning : ∀ t, s.clis t = .spawn → ∀ p k, s.procs p ≠ .daemon k
  creating : ∀ t q, s.clis t = .create q → Pid q ∧ ∀ p k, s.procs p = .daemon k → p = q
  saving : ∀ t q i, s.clis t = .write q i →
    s.Saves i q ∧ Pid q ∧ ∀ p k, s.procs p = .daemon k → p = q

/-- The file has the number of the daemon that serves. -/
def State.Recorded (s : State) : Prop :=
  ∀ p, s.procs p = .daemon .serve → (∀ t, (s.clis t).dips = false) →
    ∃ f, s.file = some f ∧ f.content = decText p

/-- No number that the file or a command has is another process's. -/
def State.Apart (s : State) : Prop := ∀ p b, s.procs p = .foreign b → ¬s.Names p

section Texts

theorem atoi_nil : atoi [] = none := rfl

/-- The number that `savePID` writes is read back. -/
theorem atoi_decText {p : ℕ} (h : Pid p) : atoi (decText p) = some (p : ℤ) := by
  have hdigits : (decText p).all Char.isDigit = true :=
    List.all_eq_true.mpr fun c hc => decText_isDigit hc
  have hne : decText p ≠ [] := Nat.toDigits_ne_nil
  have hval : Nat.ofDigitChars 10 (decText p) 0 = p := Nat.ofDigitChars_ten_toDigits
  have hlt : p < 2 ^ 31 := h.2
  have hsign : splitSign (decText p) = (1, decText p) := by
    unfold splitSign
    split
    · rename_i ds hd
      exact (notMem_decText (c := '-') (by decide) p (hd ▸ List.mem_cons_self)).elim
    · rename_i ds hd
      exact (notMem_decText (c := '+') (by decide) p (hd ▸ List.mem_cons_self)).elim
    · rfl
  simp only [atoi, hsign, hdigits, hne, hval, ne_eq, not_false_eq_true, and_self, if_true,
    one_mul]
  rw [if_pos]
  omega

theorem writeString_content {p : ℕ} {content : Text}
    (h : content = [] ∨ content = decText p) :
    decText p ++ content.drop (decText p).length = decText p := by
  rcases h with rfl | rfl <;> simp

end Texts

section Steps

variable {s u : State} {a : Action}

theorem Pc.dips_of_atRest {pc : Pc} (h : pc.atRest = true) : pc.dips = false := by
  cases pc <;> first | rfl | cases h

theorem Pc.checked_of_atRest {pc : Pc} (h : pc.atRest = true) : pc.checked = none := by
  cases pc <;> first | rfl | cases h

theorem setCli_clis (s : State) (t : ℕ) (pc : Pc) (t' : ℕ) :
    (s.setCli t pc).clis t' = if t' = t then pc else s.clis t' := by
  simp only [State.setCli, Function.update_apply]

theorem setProc_procs (s : State) (pid : ℕ) (p : Process) (q : ℕ) :
    (s.setProc pid p).procs q = if q = pid then p else s.procs q := by
  simp only [State.setProc, Function.update_apply]

/-- A command moves on, and nothing else changes. -/
theorem State.Base.setCli {t : ℕ} {pc : Pc} (hs : s.Base)
    (hser : pc.atRest = true ∨ ∀ t', t' ≠ t → (s.clis t').atRest = true)
    (hchecked : ∀ q, pc.checked = some q → ∀ p k, s.procs p = .daemon k →
      (p : ℤ) = q ∧ k = .serve)
    (hspawn : pc = .spawn → ∀ p k, s.procs p ≠ .daemon k)
    (hcreate : ∀ q, pc = .create q → Pid q ∧ ∀ p k, s.procs p = .daemon k → p = q)
    (hsave : ∀ q i, pc = .write q i →
      s.Saves i q ∧ Pid q ∧ ∀ p k, s.procs p = .daemon k → p = q) :
    (s.setCli t pc).Base := by
  refine ⟨hs.one, ?_, hs.pid, hs.writing, ?_, ?_, ?_, ?_⟩
  · intro t₁ t₂ h₁ h₂
    rw [setCli_clis] at h₁ h₂
    rcases hser with hrest | hothers
    · split at h₁
      · rw [hrest] at h₁
        cases h₁
      · split at h₂
        · rw [hrest] at h₂
          cases h₂
        · exact hs.serial t₁ t₂ h₁ h₂
    · have hone : ∀ t', (if t' = t then pc else s.clis t').atRest = false → t' = t := by
        intro t' ht'
        by_contra hne
        rw [if_neg hne, hothers t' hne] at ht'
        cases ht'
      rw [hone t₁ h₁, hone t₂ h₂]
  · intro t' q ht
    rw [setCli_clis] at ht
    split at ht
    · exact hchecked q ht
    · exact hs.checked t' q ht
  · intro t' ht
    rw [setCli_clis] at ht
    split at ht
    · exact hspawn ht
    · exact hs.spawning t' ht
  · intro t' q ht
    rw [setCli_clis] at ht
    split at ht
    · exact hcreate q ht
    · exact hs.creating t' q ht
  · intro t' q i ht
    rw [setCli_clis] at ht
    split at ht
    · exact hsave q i ht
    · exact hs.saving t' q i ht

/-- The command `t` runs, so no other does. -/
theorem State.Base.others {t : ℕ} (hs : s.Base) (ht : (s.clis t).atRest = false) (t' : ℕ)
    (hne : t' ≠ t) : (s.clis t').atRest = true := by
  cases hr : (s.clis t').atRest with
  | true => rfl
  | false => exact (hne (hs.serial t' t hr ht)).elim

/-- A process ends. -/
theorem State.Base.free (hs : s.Base) (pid : ℕ) : (s.setProc pid .free).Base := by
  have hd : ∀ p k, (s.setProc pid .free).procs p = .daemon k → s.procs p = .daemon k := by
    intro p k hp
    rw [setProc_procs] at hp
    split at hp
    · cases hp
    · exact hp
  refine ⟨?_, hs.serial, ?_, ?_, ?_, ?_, ?_, ?_⟩
  · intro p q k l hp hq
    exact hs.one p q k l (hd p k hp) (hd q l hq)
  · intro p k hp
    exact hs.pid p k (hd p k hp)
  · intro p i hp
    exact hs.writing p i (hd p _ hp)
  · intro t q ht p k hp
    exact hs.checked t q ht p k (hd p k hp)
  · intro t ht p k hp
    exact hs.spawning t ht p k (hd p k hp)
  · intro t q ht
    exact ⟨(hs.creating t q ht).1, fun p k hp => (hs.creating t q ht).2 p k (hd p k hp)⟩
  · intro t q i ht
    obtain ⟨hf, hq, hall⟩ := hs.saving t q i ht
    refine ⟨?_, hq, fun p k hp => hall p k (hd p k hp)⟩
    rcases hf with hf | ⟨hf, hno⟩
    · exact .inl hf
    · exact .inr ⟨hf, fun p k hp => hno p k (hd p k hp)⟩

/-- Only the file changes. -/
theorem State.Base.files (hs : s.Base) (hprocs : u.procs = s.procs) (hclis : u.clis = s.clis)
    (hwriting : ∀ p i, s.procs p = .daemon (.write i) → s.HoldsOr i p → u.HoldsOr i p)
    (hsaving : ∀ t q i, s.clis t = .write q i → s.Saves i q → u.Saves i q) : u.Base := by
  constructor
  · rw [hprocs]
    exact hs.one
  · rw [hclis]
    exact hs.serial
  · rw [hprocs]
    exact hs.pid
  · rw [hprocs]
    exact fun p i hp => hwriting p i hp (hs.writing p i hp)
  · rw [hprocs, hclis]
    exact hs.checked
  · rw [hprocs, hclis]
    exact hs.spawning
  · rw [hprocs, hclis]
    exact hs.creating
  · rw [hprocs, hclis]
    intro t q i ht
    obtain ⟨hf, hrest⟩ := hs.saving t q i ht
    exact ⟨hsaving t q i ht hf, hrest⟩

theorem create_procs (s : State) : s.create.1.procs = s.procs := by
  simp only [State.create]
  split <;> rfl

theorem create_clis (s : State) : s.create.1.clis = s.clis := by
  simp only [State.create]
  split <;> rfl

theorem create_file (s : State) : s.create.1.file = some ⟨s.create.2, []⟩ := by
  simp only [State.create]
  split <;> rfl

theorem create_holdsOr (s : State) (pid : ℕ) : s.create.1.HoldsOr s.create.2 pid :=
  ⟨[], create_file s, .inl rfl⟩

/-- A file that was already created keeps its inode. -/
theorem State.HoldsOr.create {i pid : ℕ} (h : s.HoldsOr i pid) : s.create.1.HoldsOr i pid := by
  obtain ⟨content, hf, -⟩ := h
  refine ⟨[], ?_, .inl rfl⟩
  simp [State.create, hf]

/-- A process that runs as the daemon truncates the file, or a command that does. -/
theorem State.Base.create (hs : s.Base)
    (hnot : ∀ t q i, s.clis t = .write q i → ∃ p k, s.procs p = .daemon k) :
    s.create.1.Base := by
  apply hs.files (create_procs s) (create_clis s)
  · intro p i hp h
    exact h.create
  · intro t q i ht h
    rcases h with h | ⟨-, hno⟩
    · exact .inl h.create
    · obtain ⟨p, k, hp⟩ := hnot t q i ht
      exact (hno p k hp).elim

theorem writeString_procs (s : State) (i : ℕ) (text : Text) :
    (s.writeString i text).procs = s.procs := by
  simp only [State.writeString]
  split
  · split <;> rfl
  · rfl

theorem writeString_clis (s : State) (i : ℕ) (text : Text) :
    (s.writeString i text).clis = s.clis := by
  simp only [State.writeString]
  split
  · split <;> rfl
  · rfl

/-- The number is written over nothing or over itself. -/
theorem State.HoldsOr.writeString {i pid : ℕ} (h : s.HoldsOr i pid) :
    (s.writeString i (decText pid)).file = some ⟨i, decText pid⟩ := by
  obtain ⟨content, hf, hc⟩ := h
  simp only [State.writeString, hf, if_true]
  rw [writeString_content hc]

theorem writeString_none (s : State) (i : ℕ) (text : Text) (h : s.file = none) :
    s.writeString i text = s := by
  simp only [State.writeString, h]

/-- The number of the only daemon is written. -/
theorem State.Base.writeString {i pid : ℕ} (hs : s.Base) (hsave : s.Saves i pid)
    (hone : ∀ p k, s.procs p = .daemon k → p = pid)
    (hcli : ∀ t q j, s.clis t = .write q j → q = pid) :
    (s.writeString i (decText pid)).Base := by
  rcases hsave with hh | ⟨hf, -⟩
  · have hfile := hh.writeString
    have hholds : ∀ j, s.HoldsOr j pid → (s.writeString i (decText pid)).HoldsOr j pid := by
      intro j hj
      obtain ⟨c, hc, -⟩ := hh
      obtain ⟨c', hc', -⟩ := hj
      obtain ⟨rfl, -⟩ : i = j ∧ c = c' := by
        rw [hc] at hc'
        cases hc'
        exact ⟨rfl, rfl⟩
      exact ⟨decText pid, hfile, .inr rfl⟩
    apply hs.files (writeString_procs s i _) (writeString_clis s i _)
    · intro p j hp h
      obtain rfl := hone p _ hp
      exact hholds j h
    · intro t q j ht h
      obtain rfl := hcli t q j ht
      rcases h with h | ⟨hnone, -⟩
      · exact .inl (hholds j h)
      · obtain ⟨c, hc, -⟩ := hh
        rw [hnone] at hc
        cases hc
  · rw [writeString_none s i _ hf]
    exact hs

/-- The file is removed while no one saves a number, or together with the daemon. -/
theorem State.Base.remove (hs : s.Base) (hdaemon : ∀ p i, s.procs p ≠ .daemon (.write i))
    (hcli : ∀ t q i, s.clis t = .write q i → ∀ p k, s.procs p ≠ .daemon k) :
    s.remove.Base := by
  refine hs.files (u := s.remove) rfl rfl ?_ ?_
  · intro p i hp
    exact (hdaemon p i hp).elim
  · intro t q i ht _
    exact .inr ⟨rfl, hcli t q i ht⟩

/-- The daemon goes on saving its number. -/
theorem State.Base.advance {pid : ℕ} {k l : DaemonPc} (hs : s.Base)
    (hp : s.procs pid = .daemon k) (hk : k ≠ .serve)
    (hl : ∀ i, l = .write i → s.HoldsOr i pid) : (s.setProc pid (.daemon l)).Base := by
  have hd : ∀ p m, (s.setProc pid (.daemon l)).procs p = .daemon m →
      p = pid := by
    intro p m hpm
    rw [setProc_procs] at hpm
    split at hpm
    · assumption
    · exact hs.one p pid m k hpm hp
  constructor
  · intro p q m n hpm hqn
    rw [hd p m hpm, hd q n hqn]
  · exact hs.serial
  · intro p m hpm
    rw [hd p m hpm]
    exact hs.pid pid k hp
  · intro p i hpi
    obtain rfl := hd p _ hpi
    rw [setProc_procs, if_pos rfl] at hpi
    cases hpi
    exact hl i rfl
  · intro t q ht
    exact (hk (hs.checked t q ht pid k hp).2).elim
  · intro t ht
    exact (hs.spawning t ht pid k hp).elim
  · intro t q ht
    refine ⟨(hs.creating t q ht).1, ?_⟩
    intro p m hpm
    rw [hd p m hpm]
    exact (hs.creating t q ht).2 pid k hp
  · intro t q i ht
    obtain ⟨hsave, hq, hall⟩ := hs.saving t q i ht
    refine ⟨?_, hq, ?_⟩
    · rcases hsave with h | ⟨-, hno⟩
      · exact .inl h
      · exact (hno pid k hp).elim
    · intro p m hpm
      rw [hd p m hpm]
      exact hall pid k hp

/-- A daemon is started where there is none. -/
theorem State.Base.daemon {pid : ℕ} (hs : s.Base) (hno : ∀ p k, s.procs p ≠ .daemon k)
    (hpid : Pid pid) (hclis : ∀ t, (s.clis t).atRest = true ∨ s.clis t = .create pid) :
    (s.setProc pid (.daemon .create)).Base := by
  have hd : ∀ p m, (s.setProc pid (.daemon .create)).procs p = .daemon m →
      p = pid ∧ m = .create := by
    intro p m hpm
    rw [setProc_procs] at hpm
    split at hpm
    · cases hpm
      exact ⟨by assumption, rfl⟩
    · exact (hno p m hpm).elim
  constructor
  · intro p q m n hpm hqn
    rw [(hd p m hpm).1, (hd q n hqn).1]
  · exact hs.serial
  · intro p m hpm
    rw [(hd p m hpm).1]
    exact hpid
  · intro p i hpi
    cases (hd p _ hpi).2
  · intro t q (ht : (s.clis t).checked = some q)
    rcases hclis t with hr | hc
    · rw [Pc.checked_of_atRest hr] at ht
      cases ht
    · rw [hc] at ht
      cases ht
  · intro t (ht : s.clis t = _)
    rcases hclis t with hr | hc
    · rw [ht] at hr
      cases hr
    · rw [ht] at hc
      cases hc
  · intro t q (ht : s.clis t = _)
    rcases hclis t with hr | hc
    · rw [ht] at hr
      cases hr
    · rw [ht] at hc
      cases hc
      exact ⟨hpid, fun p m hpm => (hd p m hpm).1⟩
  · intro t q i (ht : s.clis t = _)
    rcases hclis t with hr | hc
    · rw [ht] at hr
      cases hr
    · rw [ht] at hc
      cases hc

/-- Another process gets a process ID. -/
theorem State.Base.foreign {pid : ℕ} {b : Bool} (hs : s.Base) :
    (s.setProc pid (.foreign b)).Base := by
  have hd : ∀ p m, (s.setProc pid (.foreign b)).procs p = .daemon m →
      s.procs p = .daemon m := by
    intro p m hpm
    rw [setProc_procs] at hpm
    split at hpm
    · cases hpm
    · exact hpm
  have hno : (∀ p k, s.procs p ≠ .daemon k) →
      ∀ p k, (s.setProc pid (.foreign b)).procs p ≠ .daemon k := by
    intro h p k hp
    exact h p k (hd p k hp)
  constructor
  · intro p q m n hpm hqn
    exact hs.one p q m n (hd p m hpm) (hd q n hqn)
  · exact hs.serial
  · intro p m hpm
    exact hs.pid p m (hd p m hpm)
  · intro p i hpi
    exact hs.writing p i (hd p _ hpi)
  · intro t q ht p m hpm
    exact hs.checked t q ht p m (hd p m hpm)
  · intro t ht
    exact hno (hs.spawning t ht)
  · intro t q ht
    refine ⟨(hs.creating t q ht).1, ?_⟩
    intro p m hpm
    exact (hs.creating t q ht).2 p m (hd p m hpm)
  · intro t q i ht
    obtain ⟨hsave, hq, hall⟩ := hs.saving t q i ht
    refine ⟨?_, hq, ?_⟩
    · rcases hsave with h | ⟨hf, hf'⟩
      · exact .inl h
      · exact .inr ⟨hf, hno hf'⟩
    · intro p m hpm
      exact hall p m (hd p m hpm)

/-- A daemon takes signals. -/
theorem signals_daemon {p : ℕ} {k : DaemonPc} (hs : s.Base) (hp : s.procs p = .daemon k) :
    s.signals p = true := by
  have hpos : 0 < p := (hs.pid p k hp).1
  simp [State.signals, hp, hpos]

/-- A command that looks for the daemon finds its number. -/
theorem State.Base.seen {t p : ℕ} (hs : s.Base) (hrec : s.Recorded)
    (ht : (s.clis t).atRest = false) (hdips : (s.clis t).dips = false)
    (hp : s.procs p = .daemon .serve) : ∃ f, s.file = some f ∧ f.content = decText p := by
  apply hrec p hp
  intro t'
  by_cases h : t' = t
  · rw [h]
    exact hdips
  · exact Pc.dips_of_atRest (hs.others ht t' h)

/-- A command goes on without a number. -/
theorem State.Base.plain {t : ℕ} {pc : Pc} (hs : s.Base)
    (hser : pc.atRest = true ∨ ∀ t', t' ≠ t → (s.clis t').atRest = true) (hpid : pc.pid = none)
    (hspawn : pc ≠ .spawn) : (s.setCli t pc).Base := by
  have hne : pc.checked = none ∧ (∀ q, pc ≠ .create q) ∧ ∀ q i, pc ≠ .write q i := by
    cases pc <;> simp [Pc.checked, Pc.pid] at hpid ⊢
  obtain ⟨hchecked, hcreate, hwrite⟩ := hne
  apply hs.setCli hser
  · intro q hq
    rw [hchecked] at hq
    cases hq
  · intro hq
    exact (hspawn hq).elim
  · intro q hq
    exact (hcreate q hq).elim
  · intro q i hq
    exact (hwrite q i hq).elim

/-- A command gives up looking for a daemon that is not there. -/
theorem State.Base.notRunning {t : ℕ} {c : Cmd} (hs : s.Base) (ht : (s.clis t).atRest = false)
    (hno : ∀ p k, s.procs p ≠ .daemon k) : (s.setCli t (notRunning c)).Base := by
  cases c with
  | start =>
    apply hs.setCli (.inr (hs.others ht))
    · intro q hq
      cases hq
    · intro _
      exact hno
    · intro q hq
      cases hq
    · intro q i hq
      cases hq
  | stop => exact hs.plain (.inl rfl) rfl (by decide)

/-- A command comes to rest. -/
theorem State.Base.rest {t : ℕ} {pc : Pc} (hs : s.Base) (hpc : pc.atRest = true) :
    (s.setCli t pc).Base := by
  apply hs.plain (.inl hpc)
  · cases pc <;> first | rfl | cases hpc
  · rintro rfl
    cases hpc

/-- A command has the number of the daemon, if one runs. -/
theorem State.Base.checks {t : ℕ} {pc : Pc} {q : ℤ} (hs : s.Base)
    (ht : (s.clis t).atRest = false) (hpc : pc.checked = some q)
    (hd : ∀ p k, s.procs p = .daemon k → (p : ℤ) = q ∧ k = .serve) : (s.setCli t pc).Base := by
  have hne : pc ≠ .spawn ∧ (∀ q, pc ≠ .create q) ∧ ∀ q i, pc ≠ .write q i := by
    cases pc <;> simp [Pc.checked] at hpc ⊢
  obtain ⟨hspawn, hcreate, hwrite⟩ := hne
  apply hs.setCli (.inr (hs.others ht))
  · intro q' hq
    rw [hpc] at hq
    cases hq
    exact hd
  · intro hq
    exact (hspawn hq).elim
  · intro q hq
    exact (hcreate q hq).elim
  · intro q i hq
    exact (hwrite q i hq).elim

theorem State.Base.only {t u : ℕ} (hs : s.Base) (ht : (s.clis t).atRest = false)
    (hu : (s.clis u).atRest = false) : s.clis u = s.clis t := by
  rw [hs.serial u t hu ht]

/-- There is no file: no daemon runs. -/
theorem stat_none {t : ℕ} {c : Cmd} (hs : s.Base) (hrec : s.Recorded)
    (hpc : s.clis t = .stat c) (hord : ∀ p k, s.procs p = .daemon k → k = .serve)
    (hnone : ¬s.file.isSome = true) (p : ℕ) (k : DaemonPc) : s.procs p ≠ .daemon k := by
  intro hp
  obtain rfl := hord p k hp
  obtain ⟨f, hf, -⟩ := hs.seen hrec (by rw [hpc]; rfl) (by rw [hpc]; rfl) hp
  exact hnone (by rw [hf]; rfl)

theorem stat_base {t : ℕ} {c : Cmd} (hs : s.Base) (hrec : s.Recorded)
    (hpc : s.clis t = .stat c) (hord : ∀ p k, s.procs p = .daemon k → k = .serve) :
    (s.setCli t (if s.file.isSome then .read c else notRunning c)).Base := by
  have hr : (s.clis t).atRest = false := by
    rw [hpc]
    rfl
  split
  · exact hs.plain (.inr (hs.others hr)) rfl (by simp)
  · exact hs.notRunning hr (stat_none hs hrec hpc hord (by assumption))

/-- The number in the file is the daemon's. -/
theorem read_daemon {t p : ℕ} {c : Cmd} {k : DaemonPc} (hs : s.Base) (hrec : s.Recorded)
    (hpc : s.clis t = .read c) (hord : ∀ p k, s.procs p = .daemon k → k = .serve)
    (hp : s.procs p = .daemon k) :
    k = .serve ∧ (s.file.bind fun f => atoi f.content) = some (p : ℤ) := by
  obtain rfl := hord p k hp
  obtain ⟨f, hf, hc⟩ := hs.seen hrec (by rw [hpc]; rfl) (by rw [hpc]; rfl) hp
  refine ⟨rfl, ?_⟩
  rw [hf, Option.bind_some, hc]
  exact atoi_decText (hs.pid p _ hp)

theorem read_base {t : ℕ} {c : Cmd} (hs : s.Base) (hrec : s.Recorded)
    (hpc : s.clis t = .read c) (hord : ∀ p k, s.procs p = .daemon k → k = .serve) :
    (s.setCli t (match s.file.bind fun f => atoi f.content with
      | some p => .signal c p
      | none => notRunning c)).Base := by
  have hr : (s.clis t).atRest = false := by
    rw [hpc]
    rfl
  split
  · rename_i q hq
    apply hs.checks hr rfl
    · intro p k hp
      obtain ⟨hk, hpq⟩ := read_daemon hs hrec hpc hord hp
      rw [hq] at hpq
      cases hpq
      exact ⟨rfl, hk⟩
  · rename_i hq
    apply hs.notRunning hr
    intro p k hp
    rw [(read_daemon hs hrec hpc hord hp).2] at hq
    cases hq

/-- Nothing answers to the number: no daemon runs. -/
theorem State.Base.unanswered {t : ℕ} {q : ℤ} (hs : s.Base)
    (ht : (s.clis t).checked = some q) (hsig : ¬s.signals q = true) (p : ℕ) (k : DaemonPc) :
    s.procs p ≠ .daemon k := by
  intro hp
  obtain ⟨rfl, -⟩ := hs.checked t q ht p k hp
  exact hsig (signals_daemon hs hp)

theorem signal_base {t : ℕ} {c : Cmd} {q : ℤ} (hs : s.Base) (hpc : s.clis t = .signal c q) :
    (s.setCli t (if s.signals q then found q c else notRunning c)).Base := by
  have hr : (s.clis t).atRest = false := by
    rw [hpc]
    rfl
  have hq : (s.clis t).checked = some q := by
    rw [hpc]
    rfl
  split
  · cases c with
    | start => exact hs.rest rfl
    | stop => exact hs.checks hr rfl (hs.checked t q hq)
  · exact hs.notRunning hr (hs.unanswered hq (by assumption))

theorem spawn_base {t pid : ℕ} (hs : s.Base) (hpc : s.clis t = .spawn) (hpid : Pid pid) :
    ((s.setProc pid (.daemon .create)).setCli t (.create pid)).Base := by
  have hr : (s.clis t).atRest = false := by
    rw [hpc]
    rfl
  have hno := hs.spawning t hpc
  have hcli : (s.setCli t (.create pid)).Base := by
    apply hs.setCli (.inr (hs.others hr))
    · intro q hq
      cases hq
    · intro hq
      cases hq
    · intro q hq
      cases hq
      exact ⟨hpid, fun p k hp => (hno p k hp).elim⟩
    · intro q i hq
      cases hq
  refine hcli.daemon hno hpid fun t' => ?_
  rw [setCli_clis]
  split
  · exact .inr rfl
  · rename_i hne
    exact .inl (hs.others hr t' hne)

theorem create_base {t pid : ℕ} (hs : s.Base) (hpc : s.clis t = .create pid) :
    (s.create.1.setCli t (.write pid s.create.2)).Base := by
  have hr : (s.clis t).atRest = false := by
    rw [hpc]
    rfl
  have hcreate : s.create.1.Base := by
    apply hs.create
    intro t' q i ht'
    have hne := hs.only (u := t') hr (by rw [ht']; rfl)
    rw [ht', hpc] at hne
    cases hne
  obtain ⟨hpid, hone⟩ := hs.creating t pid hpc
  apply hcreate.setCli
  · rw [create_clis]
    exact .inr (hs.others hr)
  · intro q hq
    cases hq
  · intro hq
    cases hq
  · intro q hq
    cases hq
  · intro q i hq
    cases hq
    rw [create_procs]
    exact ⟨.inl (create_holdsOr s pid), hpid, hone⟩

theorem write_base {t pid i : ℕ} (hs : s.Base) (hpc : s.clis t = .write pid i) :
    (s.writeString i (decText pid)).Base := by
  have hr : (s.clis t).atRest = false := by
    rw [hpc]
    rfl
  obtain ⟨hsave, -, hone⟩ := hs.saving t pid i hpc
  apply hs.writeString hsave hone
  intro t' q j ht'
  have hne := hs.only (u := t') hr (by rw [ht']; rfl)
  rw [ht', hpc] at hne
  cases hne
  rfl

theorem remove_base {t : ℕ} {q : ℤ} (hs : s.Base) (hpc : s.clis t = .remove q) :
    (s.remove.setCli t (.kill q)).Base := by
  have hr : (s.clis t).atRest = false := by
    rw [hpc]
    rfl
  have hq : (s.clis t).checked = some q := by
    rw [hpc]
    rfl
  have hremove : s.remove.Base := by
    apply hs.remove
    · intro p i hp
      cases (hs.checked t q hq p _ hp).2
    · intro t' p i ht'
      have hne := hs.only (u := t') hr (by rw [ht']; rfl)
      rw [ht', hpc] at hne
      cases hne
  exact hremove.checks hr rfl (hs.checked t q hq)

theorem step_cli_base {t pid : ℕ} {pc : Pc} (hs : s.Base) (hrec : s.Recorded)
    (hord : Orderly s (.cli t pid)) (h : cliStep s pid (s.clis t) = some (u, pc)) :
    (u.setCli t pc).Base := by
  cases hpc : s.clis t with rw [hpc] at h
  | idle | exited out => cases h
  | stat c =>
    cases h
    exact stat_base hs hrec hpc (hord ⟨c, .inl hpc⟩)
  | read c =>
    cases h
    exact read_base hs hrec hpc (hord ⟨c, .inr hpc⟩)
  | signal c q =>
    cases h
    exact signal_base hs hpc
  | spawn =>
    simp only [cliStep] at h
    split at h
    · rename_i hfree
      cases h
      exact spawn_base hs hpc hfree.2
    · cases h
  | create p =>
    cases h
    exact create_base hs hpc
  | write p i =>
    cases h
    exact (write_base hs hpc).rest rfl
  | remove q =>
    cases h
    exact remove_base hs hpc
  | kill q =>
    simp only [cliStep] at h
    split at h
    · cases h
      exact (hs.free q.toNat).rest rfl
    · cases h
      exact hs.rest rfl

theorem step_base (hs : s.Base) (hrec : s.Recorded) (hord : Orderly s a)
    (h : step s a = some u) : u.Base := by
  cases a with
  | command t c =>
    simp only [step] at h
    split at h
    · cases h
      exact hs.plain (.inr fun t' _ => hord t') rfl (by simp)
    · cases h
  | cli t pid =>
    simp only [step, Option.map_eq_some_iff] at h
    obtain ⟨⟨v, pc⟩, hv, rfl⟩ := h
    exact step_cli_base hs hrec hord hv
  | abort t =>
    simp only [step] at h
    split at h
    · cases h
    · cases h
      exact hs.rest rfl
  | daemon pid =>
    simp only [step] at h
    split at h
    · rename_i hp
      cases h
      have hcreate : s.create.1.Base := hs.create fun _ _ _ _ => ⟨pid, _, hp⟩
      apply hcreate.advance (k := .create)
      · rw [create_procs]
        exact hp
      · intro hk
        cases hk
      · intro i hi
        cases hi
        exact create_holdsOr s pid
    · rename_i i hp
      cases h
      have hwrite : (s.writeString i (decText pid)).Base := by
        apply hs.writeString (.inl (hs.writing pid i hp))
        · intro p k hpk
          exact hs.one p pid k _ hpk hp
        · intro t q j ht
          exact ((hs.saving t q j ht).2.2 pid _ hp).symm
      apply hwrite.advance (k := .write i)
      · rw [writeString_procs]
        exact hp
      · intro hk
        cases hk
      · intro j hj
        cases hj
    · cases h
  | exit pid =>
    simp only [step] at h
    split at h
    · cases h
      exact hs.free pid
    · cases h
  | panics pid =>
    simp only [step] at h
    split at h
    · rename_i hp
      cases h
      have hno : ∀ p k, (s.setProc pid .free).procs p ≠ .daemon k := by
        intro p k hpk
        rw [setProc_procs] at hpk
        split at hpk
        · cases hpk
        · rename_i hne
          exact hne (hs.one p pid k _ hpk hp)
      apply (hs.free pid).remove
      · intro p i
        exact hno p _
      · intro t q i _
        exact hno
    · cases h
  | launch pid =>
    simp only [step] at h
    split at h
    · rename_i hfree
      cases h
      exact hs.daemon hord.2 hfree.2 fun t => .inl (hord.1 t)
    · cases h
  | foreign pid b =>
    simp only [step] at h
    split at h
    · cases h
      exact hs.foreign
    · cases h
  | ends pid =>
    simp only [step] at h
    split at h
    · cases h
      exact hs.free pid
    · cases h

/-- No command was between two steps before, when none is after. -/
theorem State.Recorded.keep (hrec : s.Recorded)
    (hprocs : ∀ p, u.procs p = .daemon .serve → s.procs p = .daemon .serve)
    (hfile : u.file = s.file)
    (hdips : (∀ t, (u.clis t).dips = false) → ∀ t, (s.clis t).dips = false) : u.Recorded := by
  intro p hp hall
  rw [hfile]
  exact hrec p (hprocs p hp) (hdips hall)

/-- A command that leaves the file alone moves on. -/
theorem State.Recorded.setCli {t : ℕ} {pc : Pc} (hrec : s.Recorded)
    (ht : (s.clis t).dips = false) : (s.setCli t pc).Recorded := by
  apply hrec.keep (u := s.setCli t pc) (fun _ h => h) rfl
  intro hall t'
  by_cases hne : t' = t
  · rw [hne, ht]
  · have h := hall t'
    rw [setCli_clis, if_neg hne] at h
    exact h

/-- A command that is between two steps promises nothing. -/
theorem recorded_of_dips {t : ℕ} {pc : Pc} (hpc : pc.dips = true) : (s.setCli t pc).Recorded := by
  intro p _ hall
  have h := hall t
  rw [setCli_clis, if_pos rfl, hpc] at h
  cases h

/-- Neither does a state without a daemon that serves. -/
theorem recorded_of_none (hno : ∀ p, u.procs p ≠ .daemon .serve) : u.Recorded := by
  intro p hp
  exact (hno p hp).elim

theorem setProc_recorded {p : ℕ} {q : Process} (hrec : s.Recorded)
    (hq : q ≠ .daemon .serve) : (s.setProc p q).Recorded := by
  apply hrec.keep (u := s.setProc p q) _ rfl fun h => h
  intro x hx
  rw [setProc_procs] at hx
  split at hx
  · exact (hq hx).elim
  · exact hx

theorem write_recorded {t pid i : ℕ} {out : Out} (hs : s.Base) (hpc : s.clis t = .write pid i) :
    ((s.writeString i (decText pid)).setCli t (.exited out)).Recorded := by
  intro p hp _
  change (s.writeString i (decText pid)).procs p = _ at hp
  rw [writeString_procs] at hp
  obtain ⟨hsave, -, hone⟩ := hs.saving t pid i hpc
  obtain rfl := hone p _ hp
  rcases hsave with hh | ⟨-, hno⟩
  · exact ⟨_, hh.writeString, rfl⟩
  · exact (hno p _ hp).elim

/-- `stop` ends without a daemon. -/
theorem kill_none {t pid : ℕ} {q : ℤ} {v : State} {pc : Pc} (hs : s.Base)
    (hpc : s.clis t = .kill q) (h : cliStep s pid (.kill q) = some (v, pc)) (p : ℕ)
    (k : DaemonPc) : v.procs p ≠ .daemon k := by
  have hq : (s.clis t).checked = some q := by
    rw [hpc]
    rfl
  simp only [cliStep] at h
  split at h
  · cases h
    intro (hp : (s.setProc q.toNat .free).procs p = _)
    rw [setProc_procs] at hp
    split at hp
    · cases hp
    · rename_i hne
      obtain ⟨rfl, -⟩ := hs.checked t q hq p _ hp
      exact hne rfl
  · cases h
    exact hs.unanswered hq (by assumption) p k

theorem step_cli_recorded {t pid : ℕ} {pc : Pc} (hs : s.Base) (hrec : s.Recorded)
    (h : cliStep s pid (s.clis t) = some (u, pc)) : (u.setCli t pc).Recorded := by
  cases hpc : s.clis t with rw [hpc] at h
  | idle | exited out => cases h
  | stat c | read c | signal c q =>
    cases h
    exact hrec.setCli (by rw [hpc]; rfl)
  | spawn =>
    simp only [cliStep] at h
    split at h
    · cases h
      have hspawn := setProc_recorded (p := pid) (q := .daemon .create) hrec (by decide)
      exact hspawn.setCli (by change (s.clis t).dips = false; rw [hpc]; rfl)
    · cases h
  | create p =>
    cases h
    exact recorded_of_dips rfl
  | write p i =>
    cases h
    exact write_recorded hs hpc
  | remove q =>
    cases h
    exact recorded_of_dips rfl
  | kill q => exact recorded_of_none (u := u.setCli t pc) fun p => kill_none hs hpc h p .serve

/-- The only daemon is not at `serve` after the step. -/
theorem recorded_of_one {pid : ℕ} {k : DaemonPc} (hs : s.Base) (hp : s.procs pid = .daemon k)
    (hothers : ∀ p, p ≠ pid → u.procs p = s.procs p) (hu : u.procs pid ≠ .daemon .serve) :
    u.Recorded := by
  apply recorded_of_none
  intro p hpu
  by_cases hne : p = pid
  · rw [hne] at hpu
    exact hu hpu
  · rw [hothers p hne] at hpu
    exact hne (hs.one p pid _ k hpu hp)

theorem step_recorded (hs : s.Base) (hrec : s.Recorded) (hord : Orderly s a)
    (h : step s a = some u) : u.Recorded := by
  cases a with
  | command t c =>
    simp only [step] at h
    split at h
    · cases h
      exact hrec.setCli (Pc.dips_of_atRest (by assumption))
    · cases h
  | cli t pid =>
    simp only [step, Option.map_eq_some_iff] at h
    obtain ⟨⟨v, pc⟩, hv, rfl⟩ := h
    exact step_cli_recorded hs hrec hv
  | abort t =>
    simp only [step] at h
    split at h
    · cases h
    · cases h
      obtain ⟨hwrite, hkill⟩ := hord
      apply hrec.setCli
      cases hpc : s.clis t with
      | write p i => exact (hwrite p i hpc).elim
      | kill p => exact (hkill p hpc).elim
      | _ => rfl
  | daemon pid =>
    simp only [step] at h
    split at h
    · rename_i hp
      cases h
      apply recorded_of_one hs hp
      · intro p hne
        rw [setProc_procs, if_neg hne, create_procs]
      · rw [setProc_procs, if_pos rfl]
        intro hw
        cases hw
    · rename_i i hp
      cases h
      intro p (hpu : (State.setProc _ pid _).procs p = _) _
      rw [setProc_procs, writeString_procs] at hpu
      obtain rfl : p = pid := by
        by_contra hne
        rw [if_neg hne] at hpu
        exact hne (hs.one p pid _ _ hpu hp)
      exact ⟨_, (hs.writing p i hp).writeString, rfl⟩
    · cases h
  | exit pid | ends pid =>
    simp only [step] at h
    split at h
    · cases h
      exact setProc_recorded hrec (by decide)
    · cases h
  | panics pid =>
    simp only [step] at h
    split at h
    · rename_i hp
      cases h
      apply recorded_of_one hs hp
      · intro p hne
        exact (setProc_procs s pid .free p).trans (if_neg hne)
      · change (s.setProc pid .free).procs pid ≠ _
        rw [setProc_procs, if_pos rfl]
        decide
    · cases h
  | launch pid =>
    simp only [step] at h
    split at h
    · cases h
      exact setProc_recorded hrec (by decide)
    · cases h
  | foreign pid b =>
    simp only [step] at h
    split at h
    · cases h
      exact setProc_recorded hrec (by simp)
    · cases h

theorem run_inv (h : Run step Orderly init s) : s.Base ∧ s.Recorded := by
  apply h.invariant (P := fun s => s.Base ∧ s.Recorded)
  · refine ⟨⟨?_, ?_, ?_, ?_, ?_, ?_, ?_, ?_⟩, recorded_of_none fun p hp => by cases hp⟩
    · intro p q k l hp
      cases hp
    · intro t t' ht
      cases ht
    · intro p k hp
      cases hp
    · intro p i hp
      cases hp
    · intro t q ht
      cases ht
    · intro t ht
      cases ht
    · intro t q ht
      cases ht
    · intro t q i ht
      cases ht
  · intro m b v hm hord hstep
    exact ⟨step_base hm.1 hm.2 hord hstep, step_recorded hm.1 hm.2 hord hstep⟩

/-- The command has not found a daemon. -/
theorem none_of_notRunning {t pid : ℕ} {c : Cmd} (hs : s.Base) (hrec : s.Recorded)
    (hord : Orderly s (.cli t pid)) (h : step s (.cli t pid) = some u)
    (hu : u.clis t = notRunning c) (p : ℕ) (k : DaemonPc) : u.procs p ≠ .daemon k := by
  simp only [step, Option.map_eq_some_iff] at h
  obtain ⟨⟨v, pc⟩, hv, rfl⟩ := h
  rw [setCli_clis, if_pos rfl] at hu
  change v.procs p ≠ _
  cases hpc : s.clis t with rw [hpc] at hv
  | idle | exited out => cases hv
  | stat c' =>
    cases hv
    split at hu
    · cases c <;> cases hu
    · exact stat_none hs hrec hpc (hord ⟨c', .inl hpc⟩) (by assumption) p k
  | read c' =>
    cases hv
    split at hu
    · cases c <;> cases hu
    · rename_i hq
      intro hp
      rw [(read_daemon hs hrec hpc (hord ⟨c', .inr hpc⟩) hp).2] at hq
      cases hq
  | signal c' q =>
    cases hv
    split at hu
    · cases c <;> cases c' <;> cases hu
    · exact hs.unanswered (t := t) (q := q) (by rw [hpc]; rfl) (by assumption) p k
  | spawn =>
    simp only [cliStep] at hv
    split at hv
    · cases hv
      cases c <;> cases hu
    · cases hv
  | create q | write q i | remove q =>
    cases hv
    cases c <;> cases hu
  | kill q => exact kill_none hs hpc hv p k

/-! ### The numbers of other processes -/

theorem names_setCli {t p : ℕ} {pc : Pc} (h : (s.setCli t pc).Names p) :
    s.Names p ∨ pc.pid = some (p : ℤ) := by
  rcases h with hf | ⟨t', ht⟩
  · exact .inl (.inl hf)
  · rw [setCli_clis] at ht
    split at ht
    · exact .inr ht
    · exact .inl (.inr ⟨t', ht⟩)

theorem names_create {p : ℕ} (h : s.create.1.Names p) : s.Names p := by
  rcases h with ⟨f, hf, hp⟩ | ht
  · rw [create_file] at hf
    cases hf
    rw [atoi_nil] at hp
    cases hp
  · rw [create_clis] at ht
    exact .inr ht

theorem names_remove {p : ℕ} (h : s.remove.Names p) : s.Names p := by
  rcases h with ⟨f, hf, -⟩ | ht
  · cases hf
  · exact .inr ht

theorem names_writeString {i pid p : ℕ} (hsave : s.Saves i pid) (hpid : Pid pid)
    (h : (s.writeString i (decText pid)).Names p) : p = pid ∨ s.Names p := by
  rcases hsave with hh | ⟨hf, -⟩
  · rcases h with ⟨f, hf, hp⟩ | ht
    · rw [hh.writeString] at hf
      cases hf
      rw [atoi_decText hpid] at hp
      injection hp with hp
      exact .inl (by omega)
    · rw [writeString_clis] at ht
      exact .inr (.inr ht)
  · rw [writeString_none s i _ hf] at h
    exact .inr h

/-- A step that makes nobody a stranger and names no stranger. -/
theorem State.Apart.frame (h : s.Apart)
    (hu : ∀ p b, u.procs p = .foreign b → s.procs p = .foreign b ∧ (u.Names p → s.Names p)) :
    u.Apart := by
  intro p b hp hn
  obtain ⟨hps, hns⟩ := hu p b hp
  exact h p b hps (hns hn)

theorem State.Apart.setProc {pid : ℕ} {q : Process} (h : s.Apart) (hq : ∀ b, q ≠ .foreign b) :
    (s.setProc pid q).Apart := by
  refine h.frame fun p b hp => ⟨?_, id⟩
  rw [setProc_procs] at hp
  split at hp
  · exact (hq b hp).elim
  · exact hp

theorem State.Apart.free (h : s.Apart) (pid : ℕ) : (s.setProc pid .free).Apart :=
  h.setProc fun _ hq => nomatch hq

theorem State.Apart.daemon (h : s.Apart) (pid : ℕ) (k : DaemonPc) :
    (s.setProc pid (.daemon k)).Apart := h.setProc fun _ hq => nomatch hq

theorem State.Apart.setCli {t : ℕ} {pc : Pc} (h : s.Apart)
    (hpid : ∀ (p : ℕ) b, pc.pid = some (p : ℤ) → s.procs p ≠ .foreign b) :
    (s.setCli t pc).Apart := by
  intro p b hp hn
  rcases names_setCli hn with hold | hnew
  · exact h p b hp hold
  · exact hpid p b hnew hp

theorem State.Apart.plain {t : ℕ} {pc : Pc} (h : s.Apart) (hpid : pc.pid = none) :
    (s.setCli t pc).Apart := by
  apply h.setCli
  intro p b hp
  rw [hpid] at hp
  cases hp

/-- A command goes on with the number it has. -/
theorem State.Apart.named {t : ℕ} {pc : Pc} (h : s.Apart) (hpid : pc.pid = (s.clis t).pid)
    (p : ℕ) (b : Bool) (hp : pc.pid = some (p : ℤ)) : s.procs p ≠ .foreign b := by
  intro hb
  rw [hpid] at hp
  exact h p b hb (.inr ⟨t, hp⟩)

theorem State.Apart.create (h : s.Apart) : s.create.1.Apart := by
  refine h.frame fun p b hp => ⟨?_, names_create⟩
  rw [create_procs] at hp
  exact hp

theorem State.Apart.remove (h : s.Apart) : s.remove.Apart :=
  h.frame fun _ _ hp => ⟨hp, names_remove⟩

theorem State.Apart.writeString {i pid : ℕ} (h : s.Apart) (hsave : s.Saves i pid)
    (hpid : Pid pid) (hstr : ∀ b, s.procs pid ≠ .foreign b) :
    (s.writeString i (decText pid)).Apart := by
  refine h.frame fun p b hp => ?_
  rw [writeString_procs] at hp
  refine ⟨hp, fun hn => (names_writeString hsave hpid hn).resolve_left ?_⟩
  rintro rfl
  exact hstr b hp

theorem pid_notRunning (c : Cmd) : (notRunning c).pid = none := by cases c <;> rfl

theorem step_cli_apart {t pid : ℕ} {pc : Pc} (hs : s.Base) (hapart : s.Apart)
    (h : cliStep s pid (s.clis t) = some (u, pc)) : (u.setCli t pc).Apart := by
  cases hpc : s.clis t with rw [hpc] at h
  | idle | exited out => cases h
  | stat c =>
    cases h
    split
    · exact hapart.plain rfl
    · exact hapart.plain (pid_notRunning c)
  | read c =>
    cases h
    split
    · rename_i q hq
      obtain ⟨f, hf, hfq⟩ := Option.bind_eq_some_iff.mp hq
      apply hapart.setCli
      intro p b hp hb
      cases hp
      exact hapart p b hb (.inl ⟨f, hf, hfq⟩)
    · exact hapart.plain (pid_notRunning c)
  | signal c q =>
    cases h
    split
    · cases c with
      | start => exact hapart.plain rfl
      | stop => exact hapart.setCli (hapart.named (t := t) (by rw [hpc]; rfl))
    · exact hapart.plain (pid_notRunning c)
  | spawn =>
    simp only [cliStep] at h
    split at h
    · cases h
      apply (hapart.daemon pid .create).setCli
      intro p b hp hb
      obtain rfl : pid = p := by
        simp only [Pc.pid, Option.some.injEq] at hp
        omega
      rw [setProc_procs, if_pos rfl] at hb
      cases hb
    · cases h
  | create q =>
    cases h
    apply hapart.create.setCli
    rw [create_procs]
    exact hapart.named (t := t) (by rw [hpc]; rfl)
  | write q i =>
    cases h
    obtain ⟨hsave, hpid, -⟩ := hs.saving t q i hpc
    have hpc' : (Pc.write q i).pid = (s.clis t).pid := by rw [hpc]
    have hstr : ∀ b, s.procs q ≠ .foreign b := fun b => hapart.named hpc' q b rfl
    exact (hapart.writeString hsave hpid hstr).plain rfl
  | remove q =>
    cases h
    exact hapart.remove.setCli (hapart.named (t := t) (by rw [hpc]; rfl))
  | kill q =>
    simp only [cliStep] at h
    split at h
    · cases h
      exact (hapart.free q.toNat).plain rfl
    · cases h
      exact hapart.plain rfl

theorem step_apart (hs : s.Base) (hapart : s.Apart) (hun : Unreused s a)
    (h : step s a = some u) : u.Apart := by
  cases a with
  | command t c =>
    simp only [step] at h
    split at h
    · cases h
      exact hapart.plain rfl
    · cases h
  | abort t =>
    simp only [step] at h
    split at h
    · cases h
    · cases h
      exact hapart.plain rfl
  | cli t pid =>
    simp only [step, Option.map_eq_some_iff] at h
    obtain ⟨⟨v, pc⟩, hv, rfl⟩ := h
    exact step_cli_apart hs hapart hv
  | daemon pid =>
    simp only [step] at h
    split at h
    · cases h
      exact hapart.create.daemon pid _
    · rename_i i hp
      cases h
      have hwrite : (s.writeString i (decText pid)).Apart := by
        apply hapart.writeString (.inl (hs.writing pid i hp)) (hs.pid pid _ hp)
        intro b hb
        rw [hp] at hb
        cases hb
      exact hwrite.daemon pid .serve
    · cases h
  | exit pid | ends pid =>
    simp only [step] at h
    split at h
    · cases h
      exact hapart.free pid
    · cases h
  | panics pid =>
    simp only [step] at h
    split at h
    · cases h
      exact (hapart.free pid).remove
    · cases h
  | launch pid =>
    simp only [step] at h
    split at h
    · cases h
      exact hapart.daemon pid .create
    · cases h
  | foreign pid b =>
    simp only [step] at h
    split at h
    · cases h
      intro p b' hp
      rw [setProc_procs] at hp
      split at hp
      · rename_i hpp
        rw [hpp]
        exact hun
      · exact hapart p b' hp
    · cases h

/-- Orderly use in a system that reuses no number too early. -/
def Separate (s : State) (a : Action) : Prop := Orderly s a ∧ Unreused s a

theorem run_apart (h : Run step Separate init s) : s.Apart := by
  apply h.invariant_under (Q := fun s => s.Base)
  · intro t ht
    exact (run_inv (ht.mono fun _ _ hg => hg.1)).1
  · intro p b hp
    cases hp
  · intro t b v hbase hapart hg hstep
    exact step_apart hbase hapart hg.2 hstep

/-- What answers to the number is the daemon. -/
theorem State.Base.answered {t : ℕ} {q : ℤ} (hs : s.Base) (hapart : s.Apart)
    (ht : (s.clis t).checked = some q) (hsig : s.signals q = true) :
    ∃ p : ℕ, q = p ∧ s.procs p = .daemon .serve := by
  have hq : (s.clis t).pid = some q := by
    rw [← ht]
    cases hpc : s.clis t <;> simp [hpc, Pc.checked, Pc.pid] at ht ⊢
  cases q with
  | ofNat p =>
    refine ⟨p, rfl, ?_⟩
    cases hp : s.procs p with
    | free => simp [State.signals, hp] at hsig
    | daemon k => rw [(hs.checked t p ht p k hp).2]
    | foreign b => exact (hapart p b hp (.inr ⟨t, hq⟩)).elim
  | negSucc n => cases hsig

end Steps

/-- In orderly use at most one daemon runs. While one serves, the file has its
number, whichever of `start` and the daemon was the last to write it, except between
two steps of a command. A command that finds no daemon has not overlooked one, and
`stop` ends without a daemon. If the numbers in use are not reused, a number that a
command has looked up is answered by the daemon or by no one, so `stop` kills no other
process. -/
theorem orderly_daemon {s : State} (h : Run step Orderly init s) :
    (∀ p q k l, s.procs p = .daemon k → s.procs q = .daemon l → p = q) ∧
    (∀ p, s.procs p = .daemon .serve → (∀ t, (s.clis t).dips = false) →
      ∃ f, s.file = some f ∧ f.content = decText p) ∧
    (∀ t pid u, Orderly s (.cli t pid) → step s (.cli t pid) = some u →
      (∃ c q, u.clis t = notRunning c ∨ s.clis t = .kill q) → ∀ p k, u.procs p ≠ .daemon k) ∧
    (Run step Separate init s → ∀ t q, (s.clis t).checked = some q → s.signals q = true →
      ∃ p : ℕ, q = p ∧ s.procs p = .daemon .serve) := by
  obtain ⟨hbase, hrec⟩ := run_inv h
  refine ⟨hbase.one, hrec, ?_, ?_⟩
  · intro t pid u hord hstep hu
    obtain ⟨c, q, hc | hkill⟩ := hu
    · exact none_of_notRunning hbase hrec hord hstep hc
    · simp only [step, Option.map_eq_some_iff] at hstep
      obtain ⟨⟨v, pc⟩, hv, rfl⟩ := hstep
      rw [hkill] at hv
      have hno := kill_none hbase hkill hv
      exact hno
  · intro hsep t q ht hsig
    exact hbase.answered (run_apart hsep) ht hsig

/-- A command that is past the file, or the daemon. -/
def pastFile (s : State) : Action → Bool
  | .daemon _ => true
  | .cli t _ =>
    match s.clis t with
    | .stat _ | .read _ => false
    | _ => true
  | _ => false

theorem separate_of_pastFile {s : State} {a : Action} (h : pastFile s a = true) :
    Separate s a := by
  cases a with
  | daemon pid => exact ⟨trivial, trivial⟩
  | cli t pid =>
    refine ⟨?_, trivial⟩
    intro ⟨c, hc⟩
    rcases hc with hc | hc <;> simp [pastFile, hc] at h
  | _ => cases h

theorem started : ∃ s : State, Run step Separate init s ∧
    (∀ t, s.clis t = if t = 0 then .exited (.started 7) else .idle) ∧
    (∀ p, s.procs p = if p = 7 then .daemon .serve else .free) ∧
    s.file = some ⟨0, decText 7⟩ := by
  have hcommand : Run step Separate init _ :=
    .tail .refl (a := .command 0 .start) ⟨fun _ => rfl, trivial⟩ rfl
  have hstat : Run step Separate init _ :=
    hcommand.tail (a := .cli 0 0) ⟨fun _ p k hp => (nomatch hp), trivial⟩ rfl
  have hstart := hstat.trans (@run_of_exec _ _ step Separate _ _ pastFile (fun _ => True)
    [.cli 0 7, .daemon 7, .cli 0 0, .daemon 7, .cli 0 0]
    (fun _ _ _ _ _ _ => trivial) (fun _ _ _ h => separate_of_pastFile h) trivial rfl)
  refine ⟨_, hstart, ?_, ?_, rfl⟩
  · intro t
    cases t <;> rfl
  · intro p
    rcases eq_or_ne p 7 with rfl | hp
    · rfl
    · change Function.update (Function.update (Function.update _ 7 _) 7 _) 7 _ p = _
      simp only [Function.update_of_ne hp, if_neg hp]
      rfl

/-- `start` and the daemon both save the number, and `stop` finds the daemon under it. -/
theorem started_daemon_recorded :
    ∃ s : State, Run step Separate init s ∧ s.clis 0 = .signal .stop 7 ∧
      (∃ f, s.file = some f ∧ f.content = decText 7) ∧
      ∃ p : ℕ, (7 : ℤ) = p ∧ s.procs p = .daemon .serve := by
  obtain ⟨s, hs, hclis, hprocs, hfile⟩ := started
  have hserve : ∀ p k, s.procs p = .daemon k → k = .serve := by
    intro p k hp
    rw [hprocs] at hp
    split at hp <;> cases hp
    rfl
  have hcommand : Run step Separate init (s.setCli 0 (.stat .stop)) := by
    refine hs.tail (a := .command 0 .stop) ⟨fun t => ?_, trivial⟩ ?_
    · rw [hclis]
      split <;> rfl
    · simp [step, hclis, Pc.atRest]
  have hstat : Run step Separate init ((s.setCli 0 (.stat .stop)).setCli 0 (.read .stop)) := by
    refine hcommand.tail (a := .cli 0 0) ⟨fun _ => hserve, trivial⟩ ?_
    simp [step, cliStep, State.setCli, hfile]
  have hread : Run step Separate init
      (((s.setCli 0 (.stat .stop)).setCli 0 (.read .stop)).setCli 0 (.signal .stop 7)) := by
    refine hstat.tail (a := .cli 0 0) ⟨fun _ => hserve, trivial⟩ ?_
    have hnum : atoi (decText 7) = some 7 := atoi_decText (by decide)
    simp [step, cliStep, State.setCli, hfile, hnum]
  obtain ⟨-, hrec, -, hanswer⟩ := orderly_daemon (hread.mono fun _ _ hg => hg.1)
  refine ⟨_, hread, by rw [setCli_clis, if_pos rfl], hrec 7 ?_ ?_, hanswer hread 0 7 ?_ ?_⟩
  · exact hprocs 7
  · intro t
    simp only [setCli_clis, hclis]
    split <;> rfl
  · rw [setCli_clis, if_pos rfl]
    rfl
  · change State.signals _ (.ofNat 7) = true
    simp only [State.signals]
    change (match s.procs 7 with | .free => _ | .daemon _ => _ | .foreign b => _) = true
    rw [hprocs 7]
    rfl

/-- Two `start` commands at a time: both start a daemon, and the two numbers are
written over each other. -/
example : ∃ s : State, Reach step init s ∧ s.procs 412 = .daemon .serve ∧
    s.procs 7 = .daemon .serve ∧ ∃ f, s.file = some f ∧ atoi f.content = some 712 := by
  obtain ⟨s, hr, hs⟩ := reach_of_check step init
    [.command 0 .start, .command 1 .start, .cli 0 0, .cli 1 0, .cli 0 412, .cli 1 7,
      .daemon 412, .daemon 412, .daemon 7, .daemon 7, .cli 0 0, .cli 1 0, .cli 0 0, .cli 1 0]
    (fun s => s.procs 412 = .daemon .serve && s.procs 7 = .daemon .serve &&
      (s.file.bind fun f => atoi f.content) = some 712) (by decide)
  simp only [Bool.and_eq_true, decide_eq_true_eq, Option.bind_eq_some_iff] at hs
  obtain ⟨⟨h412, h7⟩, hfile⟩ := hs
  exact ⟨s, hr, h412, h7, hfile⟩

/-- The daemon 7 has ended by itself, and `stop` kills the process that now has its
number. -/
example : ∃ s : State, Reach step init s ∧ s.clis 0 = .exited (.killed 7) ∧
    ∀ k, s.procs 7 ≠ .daemon k := by
  obtain ⟨s, hr, hs⟩ := reach_of_check step init
    [.launch 7, .daemon 7, .daemon 7, .exit 7, .foreign 7 true, .command 0 .stop, .cli 0 0,
      .cli 0 0, .cli 0 0, .cli 0 0, .cli 0 0]
    (fun s => s.clis 0 = .exited (.killed 7) && s.procs 7 = .free) (by decide)
  simp only [Bool.and_eq_true, decide_eq_true_eq] at hs
  exact ⟨s, hr, hs.1, fun k hk => nomatch hs.2.symm.trans hk⟩

end SshTunnel.Lifecycle
