import Mathlib
import SplitNN.Shared.Transition

set_option autoImplicit false

-- `container_run_inner`: the parent, its child and the container's first process, between which
-- an error pipe, an event counter and exit statuses pass.
namespace SplitNN.Agent.ContainerRun

-- A system call of a straight run of calls; a failed one is reported with its `reason`.
inductive Call where
  | checked (reason : String)
  | refused (reason : String)
  -- What the next call would make is there already when this one succeeds.
  | skips
  -- `signal(...) < 0` compares a pointer and never holds.
  | unchecked
  deriving DecidableEq

def runCall (ok : Bool) : List Call → Except String (List Call)
  | [] => .ok []
  | .checked reason :: rest => if ok then .ok rest else .error reason
  | .refused reason :: _ => .error reason
  | .skips :: rest => .ok (if ok then rest.drop 1 else rest)
  | .unchecked :: rest => .ok rest

-- The caller passes a buffer for the error text that is not empty.
structure Options where
  volumeSrc : Option String
  volumeTgt : Option String
  netnsPath : Option String
  maxLen : Nat
  maxLen_pos : 0 < maxLen

namespace Options

variable (options : Options)

-- The parent reports a failure as -1, with a text only for the namespace file.
def parentCalls : List Call :=
  ([.skips, .checked "", .checked "", .skips, .checked "", .skips, .checked "", .skips,
    .checked "", .checked "", .checked "", .checked ""] : List Call) ++
    (if options.netnsPath.isSome then [.checked "open netns_fd failed: "] else [])

def childCalls : List Call :=
  if options.netnsPath.isSome then [.checked "unshare failed: ", .checked "setns failed: "]
  else [.checked "unshare failed: "]

def volumeCalls : List Call :=
  match options.volumeSrc, options.volumeTgt with
  | some _, some tgt =>
    if tgt.toList.head? = some '/' then
      [.skips, .checked "mkdir failed: ", .checked "mount volume failed: "]
    else [.refused "Invalid volume_tgt (%s), should start with '/' and len >- 1"]
  | _, _ => []

-- `container_init` up to `execlp`.
def initCalls : List Call :=
  ([.checked "mount rprivate / failed: ", .checked "mount overlay failed: ",
    .checked "mount rprivate newroot failed: "] : List Call) ++
    (if options.volumeSrc.isSome && options.volumeTgt.isSome then
      [.checked "non-existent volume_src: "] else []) ++
    ([.checked "chdir failed: "] : List Call) ++ options.volumeCalls ++
    ([.checked "pivot_root failed: ", .checked "chroot failed: ", .checked "umount2 failed: ",
      .checked "mount /proc failed: ", .checked "mount /sys failed: ",
      .checked "mount /dev failed: ", .checked "setsid failed: ", .unchecked,
      .checked "sethostname failed: ", .checked "clearenv failed: ", .checked "putenv failed: ",
      .checked "putenv failed: "] : List Call)

end Options

-- `child_err` and the exit that follows it.
inductive Report where
  | reason (text : String)
  | message
  | closing
  | exiting

inductive Parent where
  | preparing (calls : List Call)
  | forking
  | closingWrite
  | reading
  | waiting (len : Nat)
  | readingPid
  | returned (pid : Int)

inductive Child where
  | notForked
  | closingRead
  | running (calls : List Call)
  | forking
  | reporting (at_ : Report)
  | exitedAfterError
  | closingWrite
  | writingPid
  | exited

inductive Grandchild where
  | notForked
  | setting
  | running (calls : List Call)
  | execing
  | reporting (at_ : Report)
  | exitedAfterError
  | sleeping

structure State where
  parent : Parent
  child : Child
  grandchild : Grandchild
  -- The error pipe: what is unread, and who holds a copy of which end.
  pipe : List Char
  parentReads : Bool
  childReads : Bool
  parentWrites : Bool
  childWrites : Bool
  grandchildWrites : Bool
  closeOnExec : Bool
  counter : Nat
  chdErr : List Char
  -- What the second `fork` returned.
  grandchildPid : Nat
  -- Not in the program: whether the child or the grandchild has written an error.
  errorWritten : Bool

-- A pipe that nobody can read any more refuses what is written.
def State.write (bytes : List Char) (s : State) : State :=
  { s with
    pipe := if s.parentReads || s.childReads then s.pipe ++ bytes else s.pipe
    errorWritten := true }

def start (options : Options) : State where
  parent := .preparing options.parentCalls
  child := .notForked
  grandchild := .notForked
  pipe := []
  parentReads := false
  childReads := false
  parentWrites := false
  childWrites := false
  grandchildWrites := false
  closeOnExec := false
  counter := 0
  chdErr := []
  grandchildPid := 0
  errorWritten := false

-- The conversion of the counter's value to a `pid_t`.
def toPid (value : Nat) : Int := (value : Int).bmod (2 ^ 32)

inductive ParentStep (options : Options) : State → State → Prop where
  | call {s : State} {ok : Bool} {call : Call} {calls rest : List Call}
      (at_ : s.parent = .preparing (call :: calls)) (ran : runCall ok (call :: calls) = .ok rest) :
      ParentStep options s { s with parent := .preparing rest }
  | callFails {s : State} {ok : Bool} {call : Call} {calls : List Call} {reason : String}
      {message : List Char} (at_ : s.parent = .preparing (call :: calls))
      (ran : runCall ok (call :: calls) = .error reason) :
      ParentStep options s { s with
        parent := .returned (-1)
        chdErr :=
          if reason = "" then s.chdErr else (reason.toList ++ message).take (options.maxLen - 1) }
  | prepared {s : State} (at_ : s.parent = .preparing []) :
      ParentStep options s { s with parent := .forking, parentReads := true, parentWrites := true }
  | forkFails {s : State} (at_ : s.parent = .forking) :
      ParentStep options s { s with
        parent := .returned (-1), parentReads := false, parentWrites := false }
  | fork {s : State} (at_ : s.parent = .forking) :
      ParentStep options s { s with
        parent := .closingWrite
        child := .closingRead
        childReads := s.parentReads
        childWrites := s.parentWrites }
  | closeWrite {s : State} (at_ : s.parent = .closingWrite) :
      ParentStep options s { s with parent := .reading, parentWrites := false }
  | readData {s : State} (at_ : s.parent = .reading) (data : s.pipe ≠ []) :
      ParentStep options s { s with
        parent := .waiting (s.pipe.take options.maxLen).length
        chdErr := s.pipe.take options.maxLen
        pipe := s.pipe.drop options.maxLen }
  -- End of file: no data, and every copy of the write end is closed.
  | readEnd {s : State} (at_ : s.parent = .reading) (empty : s.pipe = [])
      (closed : s.parentWrites = false ∧ s.childWrites = false ∧ s.grandchildWrites = false) :
      ParentStep options s { s with parent := .waiting 0 }
  | waitError {s : State} {len : Nat} (at_ : s.parent = .waiting len)
      (ended : s.child = .exited ∨ s.child = .exitedAfterError) (some_ : 0 < len) :
      ParentStep options s { s with parent := .returned 0, parentReads := false }
  | waitNoError {s : State} (at_ : s.parent = .waiting 0)
      (ended : s.child = .exited ∨ s.child = .exitedAfterError) :
      ParentStep options s { s with parent := .readingPid }
  -- Reading the counter blocks while it is 0.
  | readPid {s : State} (at_ : s.parent = .readingPid) (posted : 0 < s.counter) :
      ParentStep options s { s with
        parent := .returned (toPid s.counter), counter := 0, parentReads := false }

inductive ReportStep : Report → List Char → Report → Prop where
  | reason {text : String} : ReportStep (.reason text) text.toList .message
  | message {text : List Char} : ReportStep .message text .closing

inductive ChildStep (options : Options) : State → State → Prop where
  | closeRead {s : State} (at_ : s.child = .closingRead) :
      ChildStep options s { s with child := .running options.childCalls, childReads := false }
  | call {s : State} {ok : Bool} {call : Call} {calls rest : List Call}
      (at_ : s.child = .running (call :: calls)) (ran : runCall ok (call :: calls) = .ok rest) :
      ChildStep options s { s with child := .running rest }
  | callFails {s : State} {ok : Bool} {call : Call} {calls : List Call} {reason : String}
      (at_ : s.child = .running (call :: calls))
      (ran : runCall ok (call :: calls) = .error reason) :
      ChildStep options s { s with child := .reporting (.reason reason) }
  | unshared {s : State} (at_ : s.child = .running []) :
      ChildStep options s { s with child := .forking }
  | forkFails {s : State} (at_ : s.child = .forking) :
      ChildStep options s { s with child := .reporting (.reason "second fork failed: ") }
  | fork {s : State} {pid : Nat} (at_ : s.child = .forking) (range : 0 < pid ∧ pid < 2 ^ 31) :
      ChildStep options s { s with
        child := .closingWrite
        grandchild := .setting
        grandchildWrites := s.childWrites
        grandchildPid := pid }
  | closeWrite {s : State} (at_ : s.child = .closingWrite) :
      ChildStep options s { s with child := .writingPid, childWrites := false }
  -- Writing the counter blocks while the sum does not fit.
  | writePid {s : State} (at_ : s.child = .writingPid)
      (room : s.counter + s.grandchildPid < 2 ^ 64 - 1) :
      ChildStep options s { s with child := .exited, counter := s.counter + s.grandchildPid }
  | report {s : State} {now next : Report} {bytes : List Char} (at_ : s.child = .reporting now)
      (step : ReportStep now bytes next) :
      ChildStep options s { s.write bytes with child := .reporting next }
  | closeReport {s : State} (at_ : s.child = .reporting .closing) :
      ChildStep options s { s with child := .reporting .exiting, childWrites := false }
  | exit {s : State} (at_ : s.child = .reporting .exiting) :
      ChildStep options s { s with child := .exitedAfterError }

inductive GrandchildStep (options : Options) : State → State → Prop where
  | setFlag {s : State} (at_ : s.grandchild = .setting) :
      GrandchildStep options s { s with
        grandchild := .running options.initCalls, closeOnExec := true }
  | call {s : State} {ok : Bool} {call : Call} {calls rest : List Call}
      (at_ : s.grandchild = .running (call :: calls))
      (ran : runCall ok (call :: calls) = .ok rest) :
      GrandchildStep options s { s with grandchild := .running rest }
  | callFails {s : State} {ok : Bool} {call : Call} {calls : List Call} {reason : String}
      (at_ : s.grandchild = .running (call :: calls))
      (ran : runCall ok (call :: calls) = .error reason) :
      GrandchildStep options s { s with grandchild := .reporting (.reason reason) }
  | ready {s : State} (at_ : s.grandchild = .running []) :
      GrandchildStep options s { s with grandchild := .execing }
  | exec {s : State} (at_ : s.grandchild = .execing) :
      GrandchildStep options s { s with
        grandchild := .sleeping, grandchildWrites := s.grandchildWrites && !s.closeOnExec }
  | execFails {s : State} (at_ : s.grandchild = .execing) :
      GrandchildStep options s { s with grandchild := .reporting (.reason "execlp failed: ") }
  | report {s : State} {now next : Report} {bytes : List Char}
      (at_ : s.grandchild = .reporting now) (step : ReportStep now bytes next) :
      GrandchildStep options s { s.write bytes with grandchild := .reporting next }
  | closeReport {s : State} (at_ : s.grandchild = .reporting .closing) :
      GrandchildStep options s
        { s with grandchild := .reporting .exiting, grandchildWrites := false }
  | exit {s : State} (at_ : s.grandchild = .reporting .exiting) :
      GrandchildStep options s { s with grandchild := .exitedAfterError }

inductive Step (options : Options) (s s' : State) : Prop where
  | parent (step : ParentStep options s s')
  | child (step : ChildStep options s s')
  | grandchild (step : GrandchildStep options s s')

def containerRunInner (options : Options) : TransitionSystem State where
  initial s := s = start options
  step := Step options

section Points

-- What the point that each process has reached says about the rest of the state.

def Report.holdsWrite : Report → Bool
  | .reason _ | .message | .closing => true
  | .exiting => false

def Report.wrote : Report → Bool
  | .reason _ => false
  | .message | .closing | .exiting => true

namespace Parent

def beforeFork : Parent → Bool
  | .preparing _ | .forking => true
  | .closingWrite | .reading | .waiting _ | .readingPid | .returned _ => false

def beforeRead : Parent → Bool
  | .preparing _ | .forking | .closingWrite | .reading => true
  | .waiting _ | .readingPid | .returned _ => false

def holdsRead : Parent → Bool
  | .forking | .closingWrite | .reading | .waiting _ | .readingPid => true
  | .preparing _ | .returned _ => false

def holdsWrite : Parent → Bool
  | .forking | .closingWrite => true
  | .preparing _ | .reading | .waiting _ | .readingPid | .returned _ => false

def hasReturned : Parent → Bool
  | .returned _ => true
  | .preparing _ | .forking | .closingWrite | .reading | .waiting _ | .readingPid => false

end Parent

namespace Child

def hasForked : Child → Bool
  | .closingWrite | .writingPid | .exited => true
  | .notForked | .closingRead | .running _ | .forking | .reporting _ | .exitedAfterError => false

def hasPosted : Child → Bool
  | .exited => true
  | .notForked | .closingRead | .running _ | .forking | .reporting _ | .exitedAfterError
  | .closingWrite | .writingPid => false

def holdsWrite : Child → Bool
  | .closingRead | .running _ | .forking | .closingWrite => true
  | .reporting at_ => at_.holdsWrite
  | .notForked | .exitedAfterError | .writingPid | .exited => false

def wrote : Child → Bool
  | .reporting at_ => at_.wrote
  | .exitedAfterError => true
  | .notForked | .closingRead | .running _ | .forking | .closingWrite | .writingPid
  | .exited => false

def hasEnded : Child → Bool
  | .exitedAfterError | .exited => true
  | .notForked | .closingRead | .running _ | .forking | .reporting _ | .closingWrite
  | .writingPid => false

end Child

namespace Grandchild

def hasStarted : Grandchild → Bool
  | .notForked => false
  | .setting | .running _ | .execing | .reporting _ | .exitedAfterError | .sleeping => true

def holdsWrite : Grandchild → Bool
  | .setting | .running _ | .execing => true
  | .reporting at_ => at_.holdsWrite
  | .notForked | .exitedAfterError | .sleeping => false

def wrote : Grandchild → Bool
  | .reporting at_ => at_.wrote
  | .exitedAfterError => true
  | .notForked | .setting | .running _ | .execing | .sleeping => false

end Grandchild

end Points

section Reasons

-- No failure is reported by an empty text, which the parent could not tell from none.

def Call.named : Call → Bool
  | .checked reason | .refused reason => reason ≠ ""
  | .skips | .unchecked => true

def Report.named : Report → Bool
  | .reason text => text ≠ ""
  | .message | .closing | .exiting => true

def Child.named : Child → Bool
  | .running calls => calls.all Call.named
  | .reporting at_ => at_.named
  | .notForked | .closingRead | .forking | .exitedAfterError | .closingWrite | .writingPid
  | .exited => true

def Grandchild.named : Grandchild → Bool
  | .running calls => calls.all Call.named
  | .reporting at_ => at_.named
  | .notForked | .setting | .execing | .exitedAfterError | .sleeping => true

theorem childCalls_named (options : Options) : options.childCalls.all Call.named = true := by
  unfold Options.childCalls
  split <;> decide

theorem volumeCalls_named (options : Options) : options.volumeCalls.all Call.named = true := by
  unfold Options.volumeCalls
  split
  next => split <;> decide
  next => rfl

theorem initCalls_named (options : Options) : options.initCalls.all Call.named = true := by
  unfold Options.initCalls
  simp only [List.all_append, volumeCalls_named]
  split <;> decide

theorem runCall_named {ok : Bool} {calls rest : List Call} (named : calls.all Call.named = true)
    (ran : runCall ok calls = .ok rest) : rest.all Call.named = true := by
  cases calls with
  | nil => cases ran; rfl
  | cons call later =>
    have remaining : later.all Call.named = true := by
      rw [List.all_cons, Bool.and_eq_true] at named
      exact named.2
    cases call with
    | checked reason =>
      cases ok with
      | true => cases ran; exact remaining
      | false => cases ran
    | refused reason => cases ran
    | skips =>
      cases ok with
      | true =>
        cases ran
        rw [List.all_eq_true] at remaining ⊢
        exact fun call member => remaining call (List.mem_of_mem_drop member)
      | false => cases ran; exact remaining
    | unchecked => cases ran; exact remaining

theorem runCall_reason {ok : Bool} {calls : List Call} {reason : String}
    (named : calls.all Call.named = true) (ran : runCall ok calls = .error reason) :
    reason ≠ "" := by
  cases calls with
  | nil => cases ran
  | cons call later =>
    have first : call.named = true := by
      rw [List.all_cons, Bool.and_eq_true] at named
      exact named.1
    cases call with
    | checked text =>
      cases ok with
      | true => cases ran
      | false => cases ran; simpa [Call.named] using first
    | refused text => cases ran; simpa [Call.named] using first
    | skips => cases ran
    | unchecked => cases ran

end Reasons

def State.Outcome (s : State) : Prop :=
  match s.parent with
  | .waiting 0 => s.grandchild = .sleeping ∧ s.childWrites = false
  | .waiting (_ + 1) => s.errorWritten = true
  | .readingPid => s.grandchild = .sleeping ∧ s.child = .exited
  | .returned pid => s.child = .notForked ∧ pid = -1 ∨
      s.grandchild = .sleeping ∧ pid = s.grandchildPid ∨ s.errorWritten = true ∧ pid = 0
  | _ => True

structure Invariant (s : State) : Prop where
  notForked : s.child = .notForked ↔ s.parent.beforeFork = true ∨ s.parent = .returned (-1)
  started : s.grandchild.hasStarted = s.child.hasForked
  parentReads : s.parentReads = s.parent.holdsRead
  parentWrites : s.parentWrites = s.parent.holdsWrite
  childWrites : s.childWrites = s.child.holdsWrite
  grandchildWrites : s.grandchildWrites = s.grandchild.holdsWrite
  closeOnExec : s.grandchild.hasStarted = true → s.grandchild = .setting ∨ s.closeOnExec = true
  errorWritten : s.errorWritten = (s.child.wrote || s.grandchild.wrote)
  pipe : s.parent.beforeRead = true → (s.pipe = [] ↔ s.errorWritten = false)
  pid : s.child.hasForked = true → 0 < s.grandchildPid ∧ s.grandchildPid < 2 ^ 31
  counter : s.parent.hasReturned = false →
    s.counter = if s.child.hasPosted then s.grandchildPid else 0
  childNamed : s.child.named = true
  grandchildNamed : s.grandchild.named = true
  outcome : s.Outcome

section Preservation

variable {options : Options} {s s' : State}

theorem start_invariant (options : Options) : Invariant (start options) where
  notForked := ⟨fun _ => .inl rfl, fun _ => rfl⟩
  started := rfl
  parentReads := rfl
  parentWrites := rfl
  childWrites := rfl
  grandchildWrites := rfl
  closeOnExec := fun started => by cases started
  errorWritten := rfl
  pipe := fun _ => ⟨fun _ => rfl, fun _ => rfl⟩
  pid := fun forked => by cases forked
  counter := fun _ => rfl
  childNamed := rfl
  grandchildNamed := rfl
  outcome := trivial

theorem Invariant.childForked (inv : Invariant s) (started : s.grandchild.hasStarted = true) :
    s.child ≠ .notForked := by
  intro notForked
  have same := inv.started
  rw [started, notForked] at same
  cases same

theorem Invariant.write (inv : Invariant s) (forked : s.child ≠ .notForked) {bytes : List Char}
    (some_ : bytes ≠ [] ∨ s.errorWritten = true) (reading : s.parent.beforeRead = true) :
    (s.write bytes).pipe = [] ↔ (s.write bytes).errorWritten = false := by
  have data := inv.pipe reading
  have readable : s.parentReads = true := by
    have later : s.parent.beforeFork ≠ true := fun early => forked (inv.notForked.mpr (.inl early))
    rw [inv.parentReads]
    cases at_ : s.parent <;> simp_all [Parent.beforeFork, Parent.beforeRead, Parent.holdsRead]
  rcases some_ with present | written
  next => simp [State.write, readable, present]
  next => simp [State.write, readable, data, written]

theorem ReportStep.facts {now next : Report} {bytes : List Char}
    (step : ReportStep now bytes next) : next.named = true ∧ next.holdsWrite = now.holdsWrite ∧
      next.wrote = true ∧ (now.named = true → bytes ≠ [] ∨ now.wrote = true) := by
  cases step with
  | reason => simp [Report.named, Report.holdsWrite, Report.wrote]
  | message => simp [Report.named, Report.holdsWrite, Report.wrote]

theorem Invariant.grandchildOutcome (inv : Invariant s) (started : s.grandchild.hasStarted = true)
    (awake : s.grandchild ≠ .sleeping) (parent : s'.parent = s.parent)
    (written : s.errorWritten = true → s'.errorWritten = true) : s'.Outcome := by
  have forked := inv.childForked started
  have before := inv.outcome
  unfold State.Outcome at before ⊢
  rw [parent]
  cases at_ : s.parent with
  | waiting len =>
    cases len with
    | zero => simp [at_, awake] at before
    | succ len => exact written (by simpa [at_] using before)
  | readingPid => simp [at_, awake] at before
  | returned pid =>
    have ⟨error, zero⟩ : s.errorWritten = true ∧ pid = 0 := by
      simpa [at_, awake, forked] using before
    exact .inr (.inr ⟨written error, zero⟩)
  | preparing calls => trivial
  | forking => trivial
  | closingWrite => trivial
  | reading => trivial

theorem Invariant.moveGrandchildWrites (inv : Invariant s) {now next : Grandchild} {writes : Bool}
    (at_ : s.grandchild = now) (started : now.hasStarted = true) (past : now ≠ .setting)
    (awake : now ≠ .sleeping) (still : next.hasStarted = true) (holds : writes = next.holdsWrite)
    (wrote : next.wrote = now.wrote) (named : next.named = true) :
    Invariant { s with grandchild := next, grandchildWrites := writes } := by
  subst at_
  exact {
    inv with
    started := still.trans (started.symm.trans inv.started)
    grandchildWrites := holds
    closeOnExec := fun _ => .inr ((inv.closeOnExec started).resolve_left past)
    errorWritten := by rw [wrote]; exact inv.errorWritten
    grandchildNamed := named
    outcome := inv.grandchildOutcome started awake rfl id }

theorem Invariant.moveGrandchild (inv : Invariant s) {now next : Grandchild}
    (at_ : s.grandchild = now) (started : now.hasStarted = true) (past : now ≠ .setting)
    (awake : now ≠ .sleeping) (still : next.hasStarted = true)
    (holds : next.holdsWrite = now.holdsWrite) (wrote : next.wrote = now.wrote)
    (named : next.named = true) : Invariant { s with grandchild := next } := by
  have kept : s.grandchildWrites = next.holdsWrite := by rw [inv.grandchildWrites, at_, holds]
  exact inv.moveGrandchildWrites at_ started past awake still kept wrote named

theorem GrandchildStep.invariant (step : GrandchildStep options s s') (inv : Invariant s) :
    Invariant s' := by
  cases step with
  | setFlag at_ =>
    have started : s.grandchild.hasStarted = true := by rw [at_]; rfl
    have awake : s.grandchild ≠ .sleeping := by rw [at_]; nofun
    exact {
      inv with
      started := by rw [← inv.started, started]; rfl
      grandchildWrites := by rw [inv.grandchildWrites, at_]; rfl
      closeOnExec := fun _ => .inr rfl
      errorWritten := by rw [inv.errorWritten, at_]; rfl
      grandchildNamed := initCalls_named options
      outcome := inv.grandchildOutcome started awake rfl id }
  | call at_ ran =>
    have named := inv.grandchildNamed
    rw [at_] at named
    exact inv.moveGrandchild at_ rfl nofun nofun rfl rfl rfl (runCall_named named ran)
  | callFails at_ ran =>
    have named := inv.grandchildNamed
    rw [at_] at named
    have reason := runCall_reason named ran
    exact inv.moveGrandchild at_ rfl nofun nofun rfl rfl rfl (by
      simpa [Grandchild.named, Report.named] using reason)
  | ready at_ => exact inv.moveGrandchild at_ rfl nofun nofun rfl rfl rfl rfl
  | exec at_ =>
    have flag : s.closeOnExec = true :=
      (inv.closeOnExec (by rw [at_]; rfl)).resolve_left (by rw [at_]; nofun)
    have closed : (s.grandchildWrites && !s.closeOnExec) = false := by
      rw [flag, Bool.not_true, Bool.and_false]
    exact inv.moveGrandchildWrites at_ rfl nofun nofun rfl closed rfl rfl
  | execFails at_ => exact inv.moveGrandchild at_ rfl nofun nofun rfl rfl rfl rfl
  | @report now next bytes at_ said =>
    have ⟨named, held, wrote, present⟩ := said.facts
    have started : s.grandchild.hasStarted = true := by rw [at_]; rfl
    have awake : s.grandchild ≠ .sleeping := by rw [at_]; nofun
    have before := inv.grandchildNamed
    rw [at_] at before
    have data : bytes ≠ [] ∨ s.errorWritten = true := by
      refine (present before).imp_right fun earlier => ?_
      rw [inv.errorWritten, at_, Grandchild.wrote, earlier, Bool.or_true]
    exact {
      inv with
      started := started.symm.trans inv.started
      grandchildWrites := by
        have writes := inv.grandchildWrites
        rw [at_, Grandchild.holdsWrite, ← held] at writes
        exact writes
      closeOnExec := fun _ => .inr ((inv.closeOnExec started).resolve_left (by rw [at_]; nofun))
      errorWritten := by simp [State.write, Grandchild.wrote, wrote]
      pipe := inv.write (inv.childForked started) data
      grandchildNamed := named
      outcome := inv.grandchildOutcome started awake rfl fun _ => rfl }
  | closeReport at_ => exact inv.moveGrandchildWrites at_ rfl nofun nofun rfl rfl rfl rfl
  | exit at_ => exact inv.moveGrandchild at_ rfl nofun nofun rfl rfl rfl rfl

theorem Invariant.childOutcome (inv : Invariant s) (forked : s.child ≠ .notForked)
    (running : s.child ≠ .exited) (parent : s'.parent = s.parent)
    (sleeping : s.grandchild = .sleeping → s'.grandchild = .sleeping ∧
      s'.grandchildPid = s.grandchildPid ∧ (s.childWrites = false → s'.childWrites = false))
    (written : s.errorWritten = true → s'.errorWritten = true) : s'.Outcome := by
  have before := inv.outcome
  unfold State.Outcome at before ⊢
  rw [parent]
  cases at_ : s.parent with
  | waiting len =>
    cases len with
    | zero =>
      have ⟨asleep, closed⟩ : s.grandchild = .sleeping ∧ s.childWrites = false := by
        simpa [at_] using before
      exact ⟨(sleeping asleep).1, (sleeping asleep).2.2 closed⟩
    | succ len => exact written (by simpa [at_] using before)
  | readingPid => simp [at_, running] at before
  | returned pid =>
    have result : s.grandchild = .sleeping ∧ pid = s.grandchildPid ∨
        s.errorWritten = true ∧ pid = 0 := by
      simpa [at_, forked] using before
    rcases result with ⟨asleep, same⟩ | ⟨error, zero⟩
    next => exact .inr (.inl ⟨(sleeping asleep).1, by rw [same, (sleeping asleep).2.1]⟩)
    next => exact .inr (.inr ⟨written error, zero⟩)
  | preparing calls => trivial
  | forking => trivial
  | closingWrite => trivial
  | reading => trivial

theorem Invariant.childStays (inv : Invariant s) (forked : s.child ≠ .notForked) {next : Child}
    (still : next ≠ .notForked) :
    next = .notForked ↔ s.parent.beforeFork = true ∨ s.parent = .returned (-1) :=
  iff_of_false still fun early => forked (inv.notForked.mpr early)

theorem Invariant.moveChildWrites (inv : Invariant s) {now next : Child} {writes : Bool}
    (at_ : s.child = now) (forked : now ≠ .notForked) (running : now ≠ .exited)
    (still : next ≠ .notForked) (hasForked : next.hasForked = now.hasForked)
    (posted : next.hasPosted = now.hasPosted) (holds : writes = next.holdsWrite)
    (released : s.childWrites = false → writes = false) (wrote : next.wrote = now.wrote)
    (named : next.named = true) : Invariant { s with child := next, childWrites := writes } := by
  subst at_
  exact {
    inv with
    notForked := inv.childStays forked still
    started := inv.started.trans hasForked.symm
    childWrites := holds
    errorWritten := by rw [wrote]; exact inv.errorWritten
    pid := fun done => inv.pid (hasForked.symm.trans done)
    counter := fun unread => by rw [posted]; exact inv.counter unread
    childNamed := named
    outcome := inv.childOutcome forked running rfl (fun asleep => ⟨asleep, rfl, released⟩) id }

theorem Invariant.moveChild (inv : Invariant s) {now next : Child} (at_ : s.child = now)
    (forked : now ≠ .notForked) (running : now ≠ .exited) (still : next ≠ .notForked)
    (hasForked : next.hasForked = now.hasForked) (posted : next.hasPosted = now.hasPosted)
    (holds : next.holdsWrite = now.holdsWrite) (wrote : next.wrote = now.wrote)
    (named : next.named = true) : Invariant { s with child := next } := by
  have kept : s.childWrites = next.holdsWrite := by rw [inv.childWrites, at_, holds]
  exact inv.moveChildWrites at_ forked running still hasForked posted kept id wrote named

theorem ChildStep.invariant (step : ChildStep options s s') (inv : Invariant s) :
    Invariant s' := by
  cases step with
  | closeRead at_ =>
    have moved : Invariant { s with child := .running options.childCalls } :=
      inv.moveChild at_ nofun nofun nofun rfl rfl rfl rfl (childCalls_named options)
    exact { moved with }
  | call at_ ran =>
    have named := inv.childNamed
    rw [at_] at named
    exact inv.moveChild at_ nofun nofun nofun rfl rfl rfl rfl (runCall_named named ran)
  | callFails at_ ran =>
    have named := inv.childNamed
    rw [at_] at named
    have reason := runCall_reason named ran
    exact inv.moveChild at_ nofun nofun nofun rfl rfl rfl rfl (by
      simpa [Child.named, Report.named] using reason)
  | unshared at_ => exact inv.moveChild at_ nofun nofun nofun rfl rfl rfl rfl rfl
  | forkFails at_ => exact inv.moveChild at_ nofun nofun nofun rfl rfl rfl rfl rfl
  | fork at_ range =>
    have forked : s.child ≠ .notForked := by rw [at_]; nofun
    have none_ : s.grandchild = .notForked := by
      have same := inv.started
      rw [at_] at same
      cases found : s.grandchild <;> first | rfl | (rw [found] at same; cases same)
    exact {
      inv with
      notForked := inv.childStays forked nofun
      started := rfl
      childWrites := by rw [inv.childWrites, at_]; rfl
      grandchildWrites := by rw [inv.childWrites, at_]; rfl
      closeOnExec := fun _ => .inl rfl
      errorWritten := by rw [inv.errorWritten, at_, none_]; rfl
      pid := fun _ => range
      counter := fun unread => by rw [inv.counter unread, at_]; rfl
      childNamed := rfl
      grandchildNamed := rfl
      outcome := inv.childOutcome forked (by rw [at_]; nofun) rfl
        (fun asleep => by rw [none_] at asleep; cases asleep) id }
  | closeWrite at_ =>
    exact inv.moveChildWrites at_ nofun nofun nofun rfl rfl rfl (fun _ => rfl) rfl rfl
  | writePid at_ room =>
    have forked : s.child ≠ .notForked := by rw [at_]; nofun
    exact {
      inv with
      notForked := inv.childStays forked nofun
      started := by rw [inv.started, at_]; rfl
      childWrites := by rw [inv.childWrites, at_]; rfl
      errorWritten := by rw [inv.errorWritten, at_]; rfl
      pid := fun _ => inv.pid (by rw [at_]; rfl)
      counter := fun unread => by
        have zero := inv.counter unread
        rw [at_] at zero
        show s.counter + s.grandchildPid = s.grandchildPid
        rw [zero]
        exact Nat.zero_add _
      childNamed := rfl
      outcome := inv.childOutcome forked (by rw [at_]; nofun) rfl
        (fun asleep => ⟨asleep, rfl, id⟩) id }
  | @report now next bytes at_ said =>
    have ⟨named, held, wrote, present⟩ := said.facts
    have forked : s.child ≠ .notForked := by rw [at_]; nofun
    have before := inv.childNamed
    rw [at_] at before
    have data : bytes ≠ [] ∨ s.errorWritten = true := by
      refine (present before).imp_right fun earlier => ?_
      rw [inv.errorWritten, at_, Child.wrote, earlier, Bool.true_or]
    exact {
      inv with
      notForked := inv.childStays forked nofun
      started := by
        have same := inv.started
        rw [at_] at same
        exact same
      childWrites := by
        have writes := inv.childWrites
        rw [at_, Child.holdsWrite, ← held] at writes
        exact writes
      errorWritten := by simp [State.write, Child.wrote, wrote]
      pipe := inv.write forked data
      pid := nofun
      counter := fun unread => by
        have zero := inv.counter unread
        rw [at_] at zero
        exact zero
      childNamed := named
      outcome := inv.childOutcome forked (by rw [at_]; nofun) rfl
        (fun asleep => ⟨asleep, rfl, id⟩) fun _ => rfl }
  | closeReport at_ =>
    exact inv.moveChildWrites at_ nofun nofun nofun rfl rfl rfl (fun _ => rfl) rfl rfl
  | exit at_ => exact inv.moveChild at_ nofun nofun nofun rfl rfl rfl rfl rfl

theorem Invariant.moveParent (inv : Invariant s) {now next : Parent} (at_ : s.parent = now)
    (forked : next.beforeFork = now.beforeFork ∧ (now ≠ .returned (-1)) ∧ next ≠ .returned (-1))
    (reads : next.holdsRead = now.holdsRead) (writes : next.holdsWrite = now.holdsWrite)
    (reading : next.beforeRead = true → now.beforeRead = true)
    (unread : now.hasReturned = false)
    (outcome : State.Outcome { s with parent := next }) : Invariant { s with parent := next } := by
  subst at_
  exact {
    inv with
    notForked := by
      have before := inv.notForked
      simp only [forked.2.1, or_false] at before
      simp only [forked.1, forked.2.2, or_false]
      exact before
    parentReads := inv.parentReads.trans reads.symm
    parentWrites := inv.parentWrites.trans writes.symm
    pipe := fun still => inv.pipe (reading still)
    counter := fun _ => inv.counter unread
    outcome }

theorem Invariant.endOfFile (inv : Invariant s) (forked : s.child ≠ .notForked)
    (silent : s.errorWritten = false)
    (closed : s.childWrites = false ∧ s.grandchildWrites = false) : s.grandchild = .sleeping := by
  have ⟨childSilent, grandchildSilent⟩ : s.child.wrote = false ∧ s.grandchild.wrote = false := by
    simpa [inv.errorWritten] using silent
  have childClosed := inv.childWrites.symm.trans closed.1
  have grandchildClosed := inv.grandchildWrites.symm.trans closed.2
  have done : s.child.hasForked = true := by
    cases at_ : s.child with
    | writingPid => rfl
    | exited => rfl
    | notForked => exact absurd at_ forked
    | reporting point =>
      rw [at_] at childSilent childClosed
      cases point with
      | reason text => cases childClosed
      | message => cases childClosed
      | closing => cases childClosed
      | exiting => cases childSilent
    | exitedAfterError => rw [at_] at childSilent; cases childSilent
    | closingRead => rw [at_] at childClosed; cases childClosed
    | running calls => rw [at_] at childClosed; cases childClosed
    | forking => rw [at_] at childClosed; cases childClosed
    | closingWrite => rw [at_] at childClosed; cases childClosed
  have started := inv.started.trans done
  cases at_ : s.grandchild with
  | sleeping => rfl
  | notForked => rw [at_] at started; cases started
  | reporting point =>
    rw [at_] at grandchildSilent grandchildClosed
    cases point with
    | reason text => cases grandchildClosed
    | message => cases grandchildClosed
    | closing => cases grandchildClosed
    | exiting => cases grandchildSilent
  | exitedAfterError => rw [at_] at grandchildSilent; cases grandchildSilent
  | setting => rw [at_] at grandchildClosed; cases grandchildClosed
  | running calls => rw [at_] at grandchildClosed; cases grandchildClosed
  | execing => rw [at_] at grandchildClosed; cases grandchildClosed

theorem Invariant.parentPast (inv : Invariant s) (later : s.parent.beforeFork = false)
    (alive : s.parent.hasReturned = false) : s.child ≠ .notForked := by
  intro none_
  rcases inv.notForked.mp none_ with early | early
  next =>
    rw [later] at early
    cases early
  next =>
    rw [early] at alive
    cases alive

theorem toPid_pid {pid : Nat} (small : pid < 2 ^ 31) : toPid pid = pid := by
  unfold toPid
  exact Int.bmod_eq_of_le (by omega) (by omega)

theorem Invariant.childAbsent (inv : Invariant s) (early : s.parent.beforeFork = true) :
    s.child = .notForked :=
  inv.notForked.mpr (.inl early)

theorem Invariant.outcomeAt (inv : Invariant s) {now : Parent} (at_ : s.parent = now) :
    State.Outcome { s with parent := now } := by
  subst at_
  exact inv.outcome

theorem Invariant.parentReturns (inv : Invariant s) {result : Int} {counter : Nat}
    {chdErr : List Char} {reads writes : Bool} (absent : s.child = .notForked ↔ result = -1)
    (noReads : reads = false) (noWrites : writes = false)
    (outcome : s.child = .notForked ∧ result = -1 ∨
      s.grandchild = .sleeping ∧ result = s.grandchildPid ∨ s.errorWritten = true ∧ result = 0) :
    Invariant { s with
      parent := .returned result, counter := counter, chdErr := chdErr
      parentReads := reads, parentWrites := writes } where
  notForked := by
    rw [absent]
    refine ⟨fun same => .inr (by rw [same]), fun early => ?_⟩
    rcases early with early | early
    next => cases early
    next => exact Parent.returned.inj early
  started := inv.started
  parentReads := noReads
  parentWrites := noWrites
  childWrites := inv.childWrites
  grandchildWrites := inv.grandchildWrites
  closeOnExec := inv.closeOnExec
  errorWritten := inv.errorWritten
  pipe := nofun
  pid := inv.pid
  counter := nofun
  childNamed := inv.childNamed
  grandchildNamed := inv.grandchildNamed
  outcome := outcome

theorem ParentStep.invariant (step : ParentStep options s s') (inv : Invariant s) :
    Invariant s' := by
  cases step with
  | call at_ ran => exact inv.moveParent at_ ⟨rfl, nofun, nofun⟩ rfl rfl id rfl trivial
  | callFails at_ ran =>
    have none_ := inv.childAbsent (by rw [at_]; rfl)
    exact inv.parentReturns (iff_of_true none_ rfl) (by rw [inv.parentReads, at_]; rfl)
      (by rw [inv.parentWrites, at_]; rfl) (.inl ⟨none_, rfl⟩)
  | prepared at_ =>
    have none_ := inv.childAbsent (by rw [at_]; rfl)
    exact {
      inv with
      notForked := ⟨fun _ => .inl rfl, fun _ => none_⟩
      parentReads := rfl
      parentWrites := rfl
      pipe := fun _ => inv.pipe (by rw [at_]; rfl)
      counter := fun _ => inv.counter (by rw [at_]; rfl)
      outcome := trivial }
  | forkFails at_ =>
    have none_ := inv.childAbsent (by rw [at_]; rfl)
    exact inv.parentReturns (iff_of_true none_ rfl) rfl rfl (.inl ⟨none_, rfl⟩)
  | fork at_ =>
    have none_ := inv.childAbsent (by rw [at_]; rfl)
    exact {
      inv with
      notForked := iff_of_false nofun (by rintro (early | early) <;> cases early)
      started := by rw [inv.started, none_]; rfl
      parentReads := by rw [inv.parentReads, at_]; rfl
      parentWrites := by rw [inv.parentWrites, at_]; rfl
      childWrites := by rw [inv.parentWrites, at_]; rfl
      errorWritten := by rw [inv.errorWritten, none_]; rfl
      pipe := fun _ => inv.pipe (by rw [at_]; rfl)
      pid := nofun
      counter := fun _ => by rw [inv.counter (by rw [at_]; rfl), none_]; rfl
      childNamed := rfl
      outcome := trivial }
  | closeWrite at_ =>
    have forked := inv.parentPast (by rw [at_]; rfl) (by rw [at_]; rfl)
    exact {
      inv with
      notForked := iff_of_false forked (by rintro (early | early) <;> cases early)
      parentReads := by rw [inv.parentReads, at_]; rfl
      parentWrites := rfl
      pipe := fun _ => inv.pipe (by rw [at_]; rfl)
      counter := fun _ => inv.counter (by rw [at_]; rfl)
      outcome := trivial }
  | readData at_ data =>
    have written : s.errorWritten = true := by
      have empty := inv.pipe (by rw [at_]; rfl)
      simpa [data] using empty
    have some_ : 0 < (s.pipe.take options.maxLen).length := by
      have length := List.length_pos_iff.mpr data
      have room := options.maxLen_pos
      rw [List.length_take]
      omega
    have ⟨len, same⟩ := Nat.exists_eq_add_of_lt some_
    have moved : Invariant { s with parent := .waiting (s.pipe.take options.maxLen).length } := by
      rw [same, Nat.zero_add]
      exact inv.moveParent at_ ⟨rfl, nofun, nofun⟩ rfl rfl nofun rfl written
    exact { moved with pipe := nofun }
  | readEnd at_ empty closed =>
    have silent := (inv.pipe (by rw [at_]; rfl)).mp empty
    have forked := inv.parentPast (by rw [at_]; rfl) (by rw [at_]; rfl)
    have sleeping := inv.endOfFile forked silent closed.2
    exact inv.moveParent at_ ⟨rfl, nofun, nofun⟩ rfl rfl nofun rfl ⟨sleeping, closed.2.1⟩
  | @waitError len at_ ended some_ =>
    have forked := inv.parentPast (by rw [at_]; rfl) (by rw [at_]; rfl)
    have error : s.errorWritten = true := by
      have outcome := inv.outcomeAt at_
      cases len with
      | zero => cases some_
      | succ len => exact outcome
    exact inv.parentReturns (iff_of_false forked (by decide)) rfl
      (by rw [inv.parentWrites, at_]; rfl) (.inr (.inr ⟨error, rfl⟩))
  | waitNoError at_ ended =>
    have outcome := inv.outcomeAt at_
    have started := inv.started
    rw [outcome.1] at started
    have exited : s.child = .exited := by
      rcases ended with normal | error
      next => exact normal
      next =>
        rw [error] at started
        cases started
    exact inv.moveParent at_ ⟨rfl, nofun, nofun⟩ rfl rfl nofun rfl ⟨outcome.1, exited⟩
  | readPid at_ posted =>
    have forked := inv.parentPast (by rw [at_]; rfl) (by rw [at_]; rfl)
    have outcome := inv.outcomeAt at_
    have ⟨positive, small⟩ := inv.pid (by rw [outcome.2]; rfl)
    have counter : s.counter = s.grandchildPid := by
      rw [inv.counter (by rw [at_]; rfl), outcome.2]
      rfl
    have pid : toPid s.counter = s.grandchildPid := by rw [counter, toPid_pid small]
    exact inv.parentReturns (iff_of_false forked (by omega)) rfl
      (by rw [inv.parentWrites, at_]; rfl) (.inr (.inl ⟨outcome.1, pid⟩))

theorem Step.invariant (step : Step options s s') (inv : Invariant s) : Invariant s' := by
  cases step with
  | parent step => exact step.invariant inv
  | child step => exact step.invariant inv
  | grandchild step => exact step.invariant inv

theorem reachable_invariant (reachable : (containerRunInner options).Reachable s) :
    Invariant s := by
  refine reachable.invariant (P := Invariant) ?_ fun _ _ inv step => Step.invariant step inv
  rintro _ rfl
  exact start_invariant options

end Preservation

section Progress

variable {options : Options} {s : State}

theorem ReportStep.exists (now : Report) :
    (∃ bytes next, ReportStep now bytes next) ∨ now = .closing ∨ now = .exiting := by
  cases now with
  | reason text => exact .inl ⟨_, _, .reason⟩
  | message => exact .inl ⟨_, _, @ReportStep.message []⟩
  | closing => exact .inr (.inl rfl)
  | exiting => exact .inr (.inr rfl)

theorem Invariant.childMoves (options : Options) (inv : Invariant s) (forked : s.child ≠ .notForked)
    (running : s.child.hasEnded = false) (unread : s.parent.hasReturned = false) :
    ∃ s', ChildStep options s s' := by
  cases at_ : s.child with
  | notForked => exact absurd at_ forked
  | closingRead => exact ⟨_, .closeRead at_⟩
  | running calls =>
    cases calls with
    | nil => exact ⟨_, .unshared at_⟩
    | cons call calls =>
      cases ran : runCall true (call :: calls) with
      | ok rest => exact ⟨_, .call at_ ran⟩
      | error reason => exact ⟨_, .callFails at_ ran⟩
  | forking => exact ⟨_, .forkFails at_⟩
  | reporting point =>
    rcases ReportStep.exists point with ⟨bytes, next, said⟩ | rfl | rfl
    next => exact ⟨_, .report at_ said⟩
    next => exact ⟨_, .closeReport at_⟩
    next => exact ⟨_, .exit at_⟩
  | closingWrite => exact ⟨_, .closeWrite at_⟩
  | writingPid =>
    have ⟨_, small⟩ := inv.pid (by rw [at_]; rfl)
    have zero : s.counter = 0 := by
      rw [inv.counter unread, at_]
      rfl
    exact ⟨_, .writePid at_ (by omega)⟩
  | exitedAfterError => rw [at_] at running; cases running
  | exited => rw [at_] at running; cases running

theorem grandchildMoves (options : Options) (holds : s.grandchild.holdsWrite = true) :
    ∃ s', GrandchildStep options s s' := by
  cases at_ : s.grandchild with
  | setting => exact ⟨_, .setFlag at_⟩
  | running calls =>
    cases calls with
    | nil => exact ⟨_, .ready at_⟩
    | cons call calls =>
      cases ran : runCall true (call :: calls) with
      | ok rest => exact ⟨_, .call at_ ran⟩
      | error reason => exact ⟨_, .callFails at_ ran⟩
  | execing => exact ⟨_, .exec at_⟩
  | reporting point =>
    rcases ReportStep.exists point with ⟨bytes, next, said⟩ | rfl | rfl
    next => exact ⟨_, .report at_ said⟩
    next => exact ⟨_, .closeReport at_⟩
    next => exact ⟨_, .exit at_⟩
  | notForked => rw [at_] at holds; cases holds
  | exitedAfterError => rw [at_] at holds; cases holds
  | sleeping => rw [at_] at holds; cases holds

-- The parent never waits for something that nobody is left to do.
theorem Invariant.moves (options : Options) (inv : Invariant s)
    (unread : s.parent.hasReturned = false) : ∃ s', Step options s s' := by
  have child (forked : s.child ≠ .notForked) (running : s.child.hasEnded = false) :
      ∃ s', Step options s s' := by
    have ⟨s', step⟩ := inv.childMoves options forked running unread
    exact ⟨s', .child step⟩
  cases at_ : s.parent with
  | preparing calls =>
    cases calls with
    | nil => exact ⟨_, .parent (.prepared at_)⟩
    | cons call calls =>
      cases ran : runCall true (call :: calls) with
      | ok rest => exact ⟨_, .parent (.call at_ ran)⟩
      | error reason => exact ⟨_, .parent (@ParentStep.callFails _ _ _ _ _ _ [] at_ ran)⟩
  | forking => exact ⟨_, .parent (.forkFails at_)⟩
  | closingWrite => exact ⟨_, .parent (.closeWrite at_)⟩
  | reading =>
    have forked := inv.parentPast (by rw [at_]; rfl) unread
    by_cases empty : s.pipe = []
    next =>
      cases childHolds : s.childWrites with
      | true =>
        have holds := inv.childWrites.symm.trans childHolds
        refine child forked ?_
        cases found : s.child <;> simp_all [Child.holdsWrite, Child.hasEnded]
      | false =>
        cases grandchildHolds : s.grandchildWrites with
        | true =>
          have holds := inv.grandchildWrites.symm.trans grandchildHolds
          have ⟨s', step⟩ := grandchildMoves options holds
          exact ⟨s', .grandchild step⟩
        | false =>
          have parentClosed : s.parentWrites = false := by
            rw [inv.parentWrites, at_]
            rfl
          exact ⟨_, .parent (.readEnd at_ empty ⟨parentClosed, childHolds, grandchildHolds⟩)⟩
    next => exact ⟨_, .parent (.readData at_ empty)⟩
  | waiting len =>
    have forked := inv.parentPast (by rw [at_]; rfl) unread
    cases ended : s.child.hasEnded with
    | false => exact child forked ended
    | true =>
      have exit : s.child = .exited ∨ s.child = .exitedAfterError := by
        cases found : s.child <;> simp_all [Child.hasEnded]
      cases len with
      | zero => exact ⟨_, .parent (.waitNoError at_ exit)⟩
      | succ len => exact ⟨_, .parent (.waitError at_ exit (Nat.succ_pos len))⟩
  | readingPid =>
    have outcome := inv.outcomeAt at_
    have ⟨positive, _⟩ := inv.pid (by rw [outcome.2]; rfl)
    have posted : s.counter = s.grandchildPid := by
      rw [inv.counter unread, outcome.2]
      rfl
    exact ⟨_, .parent (.readPid at_ (by omega))⟩
  | returned pid => rw [at_] at unread; cases unread

theorem Invariant.sleepingSilent (inv : Invariant s) (sleeping : s.grandchild = .sleeping) :
    s.errorWritten = false ∧ s.child.hasForked = true := by
  have done : s.child.hasForked = true := by
    rw [← inv.started, sleeping]
    rfl
  refine ⟨?_, done⟩
  rw [inv.errorWritten, sleeping]
  cases found : s.child <;> simp_all [Child.hasForked, Child.wrote, Grandchild.wrote]

theorem hasReturned_false (alive : ∀ pid, s.parent ≠ .returned pid) :
    s.parent.hasReturned = false := by
  cases at_ : s.parent with
  | returned pid => exact absurd at_ (alive pid)
  | preparing calls => rfl
  | forking => rfl
  | closingWrite => rfl
  | reading => rfl
  | waiting len => rfl
  | readingPid => rfl

end Progress

section Returns

variable {options : Options} {s s' : State}

namespace Report

def left : Report → Nat
  | .reason _ => 4
  | .message => 3
  | .closing => 2
  | .exiting => 1

end Report

namespace Options

variable (options : Options)

-- How many steps each process has left at most, with those of the processes it will start.
def grandchildLeft : Grandchild → Nat
  | .setting => options.initCalls.length + 8
  | .running calls => calls.length + 7
  | .execing => 6
  | .reporting at_ => at_.left + 1
  | .notForked | .exitedAfterError | .sleeping => 0

def childLeft : Child → Nat
  | .closingRead => options.childCalls.length + options.initCalls.length + 16
  | .running calls => calls.length + options.initCalls.length + 15
  | .forking => options.initCalls.length + 14
  | .reporting at_ => at_.left + 1
  | .closingWrite => 2
  | .writingPid => 1
  | .notForked | .exitedAfterError | .exited => 0

def parentLeft : Parent → Nat
  | .preparing calls => calls.length + options.childCalls.length + options.initCalls.length + 22
  | .forking => options.childCalls.length + options.initCalls.length + 21
  | .closingWrite => 4
  | .reading => 3
  | .waiting _ => 2
  | .readingPid => 1
  | .returned _ => 0

def left (s : State) : Nat :=
  options.parentLeft s.parent + options.childLeft s.child + options.grandchildLeft s.grandchild

end Options

theorem runCall_length {ok : Bool} {call : Call} {calls rest : List Call}
    (ran : runCall ok (call :: calls) = .ok rest) : rest.length ≤ calls.length := by
  cases call with
  | checked reason => cases ok <;> cases ran; exact le_rfl
  | refused reason => cases ran
  | skips =>
    cases ran
    cases ok <;> simp
  | unchecked => cases ran; exact le_rfl

theorem ReportStep.left {now next : Report} {bytes : List Char}
    (step : ReportStep now bytes next) : next.left < now.left := by
  cases step with
  | reason => exact Nat.lt_succ_self 3
  | message => exact Nat.lt_succ_self 2

theorem ParentStep.uses (step : ParentStep options s s') : options.left s' < options.left s := by
  cases step with
  | call at_ ran =>
    have shorter := runCall_length ran
    simp only [Options.left, at_, Options.parentLeft, List.length_cons]
    omega
  | fork at_ =>
    simp only [Options.left, at_, Options.parentLeft, Options.childLeft]
    omega
  | callFails at_ => simp only [Options.left, at_, Options.parentLeft]; omega
  | prepared at_ => simp only [Options.left, at_, Options.parentLeft, List.length_nil]; omega
  | forkFails at_ => simp only [Options.left, at_, Options.parentLeft]; omega
  | closeWrite at_ => simp only [Options.left, at_, Options.parentLeft]; omega
  | readData at_ => simp only [Options.left, at_, Options.parentLeft]; omega
  | readEnd at_ => simp only [Options.left, at_, Options.parentLeft]; omega
  | waitError at_ => simp only [Options.left, at_, Options.parentLeft]; omega
  | waitNoError at_ => simp only [Options.left, at_, Options.parentLeft]; omega
  | readPid at_ => simp only [Options.left, at_, Options.parentLeft]; omega

theorem ChildStep.uses (step : ChildStep options s s') : options.left s' < options.left s := by
  cases step with
  | call at_ ran =>
    have shorter := runCall_length ran
    simp only [Options.left, at_, Options.childLeft, List.length_cons]
    omega
  | callFails at_ => simp only [Options.left, at_, Options.childLeft, Report.left]; omega
  | fork at_ =>
    simp only [Options.left, at_, Options.childLeft, Options.grandchildLeft]
    omega
  | report at_ said =>
    have shorter := said.left
    simp only [Options.left, State.write, at_, Options.childLeft]
    omega
  | closeRead at_ => simp only [Options.left, at_, Options.childLeft]; omega
  | unshared at_ => simp only [Options.left, at_, Options.childLeft, List.length_nil]; omega
  | forkFails at_ => simp only [Options.left, at_, Options.childLeft, Report.left]; omega
  | closeWrite at_ => simp only [Options.left, at_, Options.childLeft]; omega
  | writePid at_ => simp only [Options.left, at_, Options.childLeft]; omega
  | closeReport at_ => simp only [Options.left, at_, Options.childLeft, Report.left]; omega
  | exit at_ => simp only [Options.left, at_, Options.childLeft]; omega

theorem GrandchildStep.uses (step : GrandchildStep options s s') :
    options.left s' < options.left s := by
  cases step with
  | call at_ ran =>
    have shorter := runCall_length ran
    simp only [Options.left, at_, Options.grandchildLeft, List.length_cons]
    omega
  | report at_ said =>
    have shorter := said.left
    simp only [Options.left, State.write, at_, Options.grandchildLeft]
    omega
  | setFlag at_ => simp only [Options.left, at_, Options.grandchildLeft]; omega
  | callFails at_ => simp only [Options.left, at_, Options.grandchildLeft, Report.left]; omega
  | ready at_ => simp only [Options.left, at_, Options.grandchildLeft, List.length_nil]; omega
  | exec at_ => simp only [Options.left, at_, Options.grandchildLeft]; omega
  | execFails at_ => simp only [Options.left, at_, Options.grandchildLeft, Report.left]; omega
  | closeReport at_ => simp only [Options.left, at_, Options.grandchildLeft, Report.left]; omega
  | exit at_ => simp only [Options.left, at_, Options.grandchildLeft]; omega

theorem Step.uses (step : Step options s s') : options.left s' < options.left s := by
  cases step with
  | parent step => exact step.uses
  | child step => exact step.uses
  | grandchild step => exact step.uses

/-- Every run ends, and it ends only where the parent has returned. -/
theorem returns (reachable : (containerRunInner options).Reachable s) :
    ∃ last, Relation.ReflTransGen (Step options) s last ∧ ∃ pid, last.parent = .returned pid := by
  have ⟨last, steps, stuck⟩ := (containerRunInner options).exists_stuck options.left
    (fun _ _ step => Step.uses step) s
  refine ⟨last, steps, ?_⟩
  by_contra alive
  have ⟨s', step⟩ := (reachable_invariant (reachable.later steps)).moves options
    (hasReturned_false fun pid at_ => alive ⟨pid, at_⟩)
  exact stuck s' step

end Returns

theorem prepares {options : Options} (s : State) {calls : List Call}
    (passes : ∀ reason, .refused reason ∉ calls) :
    Relation.ReflTransGen (Step options) { s with parent := .preparing calls }
      { s with parent := .preparing [] } := by
  induction calls with
  | nil => exact .refl
  | cons call calls ih =>
    have ⟨ok, ran⟩ : ∃ ok, runCall ok (call :: calls) = .ok calls := by
      cases call with
      | checked reason => exact ⟨true, rfl⟩
      | refused reason => exact absurd List.mem_cons_self (passes reason)
      | skips => exact ⟨false, rfl⟩
      | unchecked => exact ⟨true, rfl⟩
    have later := ih fun reason member => passes reason (List.mem_cons_of_mem call member)
    exact .head (.parent (.call rfl ran)) later

/-- In every interleaving the parent returns the container's pid exactly when `execlp` succeeded
and 0 exactly when an error was written, and until it returns some process can go on. -/
theorem outcome_reported {options : Options} {s : State}
    (reachable : (containerRunInner options).Reachable s) :
    (∀ pid, s.parent = .returned pid →
      (0 < pid ↔ s.grandchild = .sleeping) ∧ (0 < pid → pid = s.grandchildPid) ∧
        (pid = 0 ↔ s.errorWritten = true)) ∧
    ((∀ pid, s.parent ≠ .returned pid) → ∃ s', (containerRunInner options).step s s') := by
  have inv := reachable_invariant reachable
  constructor
  next =>
    intro pid at_
    have outcome := inv.outcome
    unfold State.Outcome at outcome
    rw [at_] at outcome
    rcases outcome with ⟨notForked, failed⟩ | ⟨sleeping, same⟩ | ⟨error, zero⟩
    next =>
      have idle : s.grandchild = .notForked := by
        have started := inv.started
        rw [notForked] at started
        cases found : s.grandchild <;> simp_all [Grandchild.hasStarted, Child.hasForked]
      have silent : s.errorWritten = false := by
        rw [inv.errorWritten, notForked, idle]
        rfl
      simp [failed, idle, silent]
    next =>
      have ⟨silent, done⟩ := inv.sleepingSilent sleeping
      have ⟨positive, _⟩ := inv.pid done
      simp [same, sleeping, silent, positive, positive.ne']
    next =>
      have awake : s.grandchild ≠ .sleeping := by
        intro sleeping
        have silent := (inv.sleepingSilent sleeping).1
        rw [error] at silent
        cases silent
      simp [zero, error, awake]
  next => exact fun alive => inv.moves options (hasReturned_false alive)

section Concrete

def sampleOptions : Options := ⟨none, none, none, 255, by decide⟩

-- `unshare` fails in the child; the parent reads the reason and then waits for the child.
theorem outcome_reported_unshare : ∃ s, (containerRunInner sampleOptions).Reachable s ∧
    s.parent = .returned 0 ∧ s.errorWritten = true := by
  have made := @prepares sampleOptions (start sampleOptions) sampleOptions.parentCalls (by
    simp [sampleOptions, Options.parentCalls])
  have forked := (made.tail (.parent (.prepared rfl))).tail (.parent (.fork rfl))
  have failed := (forked.tail (.child (.closeRead rfl))).tail
    (.child (@ChildStep.callFails _ _ false _ _ _ rfl rfl))
  have reading := (failed.tail (.child (.report rfl .reason))).tail (.parent (.closeWrite rfl))
  have waiting := reading.tail (.parent (.readData rfl (by decide)))
  have exiting := (waiting.tail (.child (.report rfl (@ReportStep.message [])))).tail
    (.child (.closeReport rfl))
  have ended := exiting.tail (.child (.exit rfl))
  have returned := ended.tail (.parent (.waitError rfl (.inr rfl) (by decide)))
  have reachable := TransitionSystem.Reachable.later
    (.start rfl : (containerRunInner sampleOptions).Reachable (start sampleOptions)) returned
  exact ⟨_, reachable, rfl, ((outcome_reported reachable).1 0 rfl).2.2.mp rfl⟩

end Concrete

end SplitNN.Agent.ContainerRun
