import Mathlib
import SplitNN.Shared.Transition
import SplitNN.Agent.NetworkSetup

set_option autoImplicit false

namespace SplitNN.Agent

open TransitionSystem (forall_moved)

-- Handles are numbered as they are opened; a number is never given again.
abbrev NsHandle := Nat

structure LinkTask where
  bbns : NsHandle
  edge : PlannedLink

-- Where a worker is; a number after the handles is the namespace its thread is in.
inductive LinkWorker where
  | idle
  | starting (task : LinkTask)
  | inside (task : LinkTask) (ns : Nat)
  | moving (task : LinkTask) (backboneNs : NsHandle)
  | entering (task : LinkTask) (backboneNs : NsHandle)
  | building (task : LinkTask) (backboneNs : NsHandle) (ns : Nat)
  | leaving (backboneNs : NsHandle)
  | finishing
  | failed

inductive SetupEvent where
  | enters (handle : NsHandle) (closed : Bool)
  | places (task : LinkTask) (ns : Nat)

inductive ParallelMain where
  | stepStart (later : List (List PlannedLink))
  | nextLink (edges : List PlannedLink) (later : List (List PlannedLink))
  | submitting (edge : PlannedLink) (edges : List PlannedLink) (later : List (List PlannedLink))
  | sendingTask (task : LinkTask) (edges : List PlannedLink) (later : List (List PlannedLink))
  | waiting (later : List (List PlannedLink))
  | returned

structure SetupState where
  main : ParallelMain
  curLinkNum : Nat
  curBbnsIndex : Nat
  curBackBoneNs : NsHandle
  -- The field of the link manager, `none` for -1.
  lmCurBackBoneNs : Option NsHandle
  -- The namespace of each handle opened so far.
  handles : List Nat
  closed : List NsHandle
  workers : List LinkWorker
  wg : Nat
  -- Not in the program: what the workers have done so far.
  events : List SetupEvent

def LinkWorker.entry : LinkWorker → Option NsHandle
  | .starting task => some task.bbns
  | .entering _ backboneNs => some backboneNs
  | .leaving backboneNs => some backboneNs
  | .idle | .inside _ _ | .moving _ _ | .building _ _ _ | .finishing | .failed => none

def LinkWorker.isBusy : LinkWorker → Bool
  | .idle => false
  | .starting _ | .inside _ _ | .moving _ _ | .entering _ _ | .building _ _ _ | .leaving _
  | .finishing | .failed => true

-- One operation of a task, `SetupInternalLink` or `SetupExternalLink` included.
inductive WorkerStep (handles : List Nat) (closed : List NsHandle)
    (lmCurBackBoneNs : Option NsHandle) : LinkWorker → List SetupEvent → LinkWorker → Prop where
  | start {task : LinkTask} {ns : Nat} (opened : handles[task.bbns]? = some ns)
      (live : task.bbns ∉ closed) :
      WorkerStep handles closed lmCurBackBoneNs (.starting task) [.enters task.bbns false]
        (.inside task ns)
  | readInternal {task : LinkTask} {ns : Nat} {backboneNs : NsHandle}
      (kind : task.edge.2.2.2 = -1) (read : lmCurBackBoneNs = some backboneNs) :
      WorkerStep handles closed lmCurBackBoneNs (.inside task ns) [] (.building task backboneNs ns)
  -- The thread goes to the host's namespace, where it adds the VXLAN device.
  | readExternal {task : LinkTask} {ns : Nat} {backboneNs : NsHandle}
      (kind : task.edge.2.2.2 ≠ -1) (read : lmCurBackBoneNs = some backboneNs) :
      WorkerStep handles closed lmCurBackBoneNs (.inside task ns) [] (.moving task backboneNs)
  | move {task : LinkTask} {backboneNs : NsHandle} {ns : Nat}
      (opened : handles[backboneNs]? = some ns) (live : backboneNs ∉ closed) :
      WorkerStep handles closed lmCurBackBoneNs (.moving task backboneNs) [.places task ns]
        (.entering task backboneNs)
  | enter {task : LinkTask} {backboneNs : NsHandle} {ns : Nat}
      (opened : handles[backboneNs]? = some ns) (live : backboneNs ∉ closed) :
      WorkerStep handles closed lmCurBackBoneNs (.entering task backboneNs)
        [.enters backboneNs false] (.building task backboneNs ns)
  | build {task : LinkTask} {backboneNs : NsHandle} {ns : Nat} :
      WorkerStep handles closed lmCurBackBoneNs (.building task backboneNs ns) [.places task ns]
        (.leaving backboneNs)
  | leave {backboneNs : NsHandle} (live : backboneNs ∉ closed) :
      WorkerStep handles closed lmCurBackBoneNs (.leaving backboneNs) [.enters backboneNs false]
        .finishing
  | enterClosed {worker : LinkWorker} {handle : NsHandle} (next : worker.entry = some handle)
      (tooLate : handle ∈ closed) :
      WorkerStep handles closed lmCurBackBoneNs worker [.enters handle true] .failed
  -- Any operation may fail; the worker then holds its error for good, and the wait group too.
  | fail {worker : LinkWorker} (busy : worker.isBusy = true) (first : worker ≠ .failed) :
      WorkerStep handles closed lmCurBackBoneNs worker [] .failed

inductive SetupStep (linkPerBackBoneNs backBoneNum : Nat) : SetupState → SetupState → Prop where
  | allSteps {st : SetupState} (at_ : st.main = .stepStart []) :
      SetupStep linkPerBackBoneNs backBoneNum st { st with main := .returned }
  | emptyStep {st : SetupState} {later : List (List PlannedLink)}
      (at_ : st.main = .stepStart ([] :: later)) :
      SetupStep linkPerBackBoneNs backBoneNum st
        { st with main := .stepStart later, curBbnsIndex := 0 }
  | beginStep {st : SetupState} {edge : PlannedLink} {edges : List PlannedLink}
      {later : List (List PlannedLink)} (at_ : st.main = .stepStart ((edge :: edges) :: later)) :
      SetupStep linkPerBackBoneNs backBoneNum st
        { st with main := .nextLink (edge :: edges) later, curBbnsIndex := 0 }
  | enterBbNs {st : SetupState} {edge : PlannedLink} {edges : List PlannedLink}
      {later : List (List PlannedLink)} (at_ : st.main = .nextLink (edge :: edges) later)
      (positive : 0 < linkPerBackBoneNs) (due : st.curLinkNum % linkPerBackBoneNs = 0)
      (created : st.curBbnsIndex < backBoneNum) :
      SetupStep linkPerBackBoneNs backBoneNum st { st with
        main := .submitting edge edges later
        curBbnsIndex := st.curBbnsIndex + 1
        curBackBoneNs := st.handles.length
        lmCurBackBoneNs := some st.handles.length
        handles := st.handles ++ [st.curBbnsIndex]
        closed := st.lmCurBackBoneNs.toList ++ st.closed }
  | enterFails {st : SetupState} {edge : PlannedLink} {edges : List PlannedLink}
      {later : List (List PlannedLink)} (at_ : st.main = .nextLink (edge :: edges) later)
      (due : st.curLinkNum % linkPerBackBoneNs = 0) :
      SetupStep linkPerBackBoneNs backBoneNum st { st with main := .returned }
  | keepBbNs {st : SetupState} {edge : PlannedLink} {edges : List PlannedLink}
      {later : List (List PlannedLink)} (at_ : st.main = .nextLink (edge :: edges) later)
      (positive : 0 < linkPerBackBoneNs) (waiting : st.curLinkNum % linkPerBackBoneNs ≠ 0) :
      SetupStep linkPerBackBoneNs backBoneNum st { st with main := .submitting edge edges later }
  | add {st : SetupState} {edge : PlannedLink} {edges : List PlannedLink}
      {later : List (List PlannedLink)} (at_ : st.main = .submitting edge edges later) :
      SetupStep linkPerBackBoneNs backBoneNum st { st with
        main := .sendingTask ⟨st.curBackBoneNs, edge⟩ edges later
        wg := st.wg + 1 }
  | takeTask {st : SetupState} {task : LinkTask} {edges : List PlannedLink}
      {later : List (List PlannedLink)} {before after : List LinkWorker}
      (at_ : st.main = .sendingTask task edges later)
      (receiver : st.workers = before ++ .idle :: after) :
      SetupStep linkPerBackBoneNs backBoneNum st { st with
        main := .nextLink edges later
        curLinkNum := st.curLinkNum + 1
        workers := before ++ .starting task :: after }
  | beginWait {st : SetupState} {later : List (List PlannedLink)}
      (at_ : st.main = .nextLink [] later) :
      SetupStep linkPerBackBoneNs backBoneNum st { st with main := .waiting later }
  -- No error can be pending here: its worker would still be counted.
  | endWait {st : SetupState} {later : List (List PlannedLink)} (at_ : st.main = .waiting later)
      (done : st.wg = 0) :
      SetupStep linkPerBackBoneNs backBoneNum st { st with main := .stepStart later }
  | work {st : SetupState} {before after : List LinkWorker} {worker worker' : LinkWorker}
      {events : List SetupEvent} (place : st.workers = before ++ worker :: after)
      (step : WorkerStep st.handles st.closed st.lmCurBackBoneNs worker events worker') :
      SetupStep linkPerBackBoneNs backBoneNum st { st with
        workers := before ++ worker' :: after
        events := st.events ++ events }
  | done {st : SetupState} {before after : List LinkWorker}
      (place : st.workers = before ++ .finishing :: after) :
      SetupStep linkPerBackBoneNs backBoneNum st { st with
        workers := before ++ .idle :: after
        wg := st.wg - 1 }

-- After `SetupBbNs` was called for every namespace, whose handles stay open.
def startSetup (edgeOrder : List (List PlannedLink)) (backBoneNum numWorkers : Nat) :
    SetupState where
  main := .stepStart edgeOrder
  curLinkNum := 0
  curBbnsIndex := 0
  curBackBoneNs := backBoneNum - 1
  lmCurBackBoneNs := none
  handles := List.range backBoneNum
  closed := []
  workers := List.replicate numWorkers .idle
  wg := 0
  events := []

-- `NetworkSetup` with `Parallel > 0`, from its first link on.
def parallelSetup (g : Graph) (edgeOrder : List (List PlannedLink)) (backBoneNum numWorkers : Nat) :
    TransitionSystem SetupState where
  initial st := st = startSetup edgeOrder backBoneNum numWorkers
  step := SetupStep (linkPerBackBoneNs g backBoneNum) backBoneNum

def SetupEvent.Right (handles : List Nat) : SetupEvent → Prop
  | .enters _ closed => closed = false
  | .places task ns => handles[task.bbns]? = some ns

def WellPlaced (st : SetupState) : Prop := ∀ event ∈ st.events, event.Right st.handles

/-- Only the first link of a step ever changes the namespace. -/
def EntersFirst (linkPerBackBoneNs : Nat) (edgeOrder : List (List PlannedLink)) : Prop :=
  ∀ k < edgeOrder.flatten.length, k % linkPerBackBoneNs = 0 → stepStart edgeOrder k = k

section Invariant

def ParallelMain.added : ParallelMain → Nat
  | .sendingTask _ _ _ => 1
  | .stepStart _ | .nextLink _ _ | .submitting _ _ _ | .waiting _ | .returned => 0

-- The links before `curLinkNum` are those of earlier steps and the done ones of this step.
def ParallelMain.At (edgeOrder : List (List PlannedLink)) (curLinkNum wg : Nat) :
    ParallelMain → Prop
  | .stepStart later => wg = 0 ∧ ∃ before, edgeOrder = before ++ later ∧
      curLinkNum = before.flatten.length
  | .nextLink edges later => ∃ before sent, edgeOrder = before ++ (sent ++ edges) :: later ∧
      curLinkNum = before.flatten.length + sent.length ∧ (sent = [] → wg = 0)
  | .submitting edge edges later => ∃ before sent,
      edgeOrder = before ++ (sent ++ edge :: edges) :: later ∧
      curLinkNum = before.flatten.length + sent.length
  | .sendingTask task edges later => ∃ before sent,
      edgeOrder = before ++ (sent ++ task.edge :: edges) :: later ∧
      curLinkNum = before.flatten.length + sent.length
  | .waiting later => ∃ before, edgeOrder = before ++ later ∧ curLinkNum = before.flatten.length
  | .returned => True

def SetupState.Counted (st : SetupState) : Prop :=
  st.wg = st.workers.countP LinkWorker.isBusy + st.main.added

def ParallelMain.Chosen (curBackBoneNs : NsHandle) (lmCurBackBoneNs : Option NsHandle) :
    ParallelMain → Prop
  | .submitting _ _ _ => lmCurBackBoneNs = some curBackBoneNs
  | .sendingTask task _ _ => lmCurBackBoneNs = some curBackBoneNs ∧ task.bbns = curBackBoneNs
  | .stepStart _ | .nextLink _ _ | .waiting _ | .returned => True

structure HandlesOk (st : SetupState) : Prop where
  closed : ∀ handle ∈ st.closed, handle < st.handles.length
  current : ∀ handle, st.lmCurBackBoneNs = some handle → handle = st.curBackBoneNs ∧
    handle ∉ st.closed ∧ handle < st.handles.length
  started : 0 < st.curLinkNum → st.lmCurBackBoneNs = some st.curBackBoneNs
  chosen : st.main.Chosen st.curBackBoneNs st.lmCurBackBoneNs

variable {linkPerBackBoneNs backBoneNum : Nat} {edgeOrder : List (List PlannedLink)}
  {st st' : SetupState}

theorem WorkerStep.busy {handles : List Nat} {closed : List NsHandle}
    {lmCurBackBoneNs : Option NsHandle} {worker worker' : LinkWorker} {events : List SetupEvent}
    (step : WorkerStep handles closed lmCurBackBoneNs worker events worker') :
    worker.isBusy = true ∧ worker'.isBusy = true := by
  cases step with
  | enterClosed next tooLate => cases worker <;> simp_all [LinkWorker.entry, LinkWorker.isBusy]
  | fail busy first => exact ⟨busy, rfl⟩
  | start | readInternal | readExternal | move | enter | build | leave => exact ⟨rfl, rfl⟩

theorem startSetup_counted (edgeOrder : List (List PlannedLink)) (backBoneNum numWorkers : Nat) :
    (startSetup edgeOrder backBoneNum numWorkers).Counted := by
  simp [SetupState.Counted, startSetup, ParallelMain.added, List.countP_replicate,
    LinkWorker.isBusy]

theorem SetupStep.counted (step : SetupStep linkPerBackBoneNs backBoneNum st st')
    (old : st.Counted) : st'.Counted := by
  unfold SetupState.Counted at old ⊢
  cases step with
  | takeTask at_ receiver =>
    simp_all [ParallelMain.added, List.countP_cons, LinkWorker.isBusy]
    omega
  | work place step =>
    have busy := step.busy
    simp_all
  | done place =>
    simp_all [List.countP_cons, LinkWorker.isBusy]
    omega
  | allSteps at_ | emptyStep at_ | beginStep at_ | enterBbNs at_ | enterFails at_ | keepBbNs at_
  | add at_ | beginWait at_ | endWait at_ => simp_all [ParallelMain.added]

theorem ParallelMain.At.of_le {main : ParallelMain} {curLinkNum wg wg' : Nat}
    (at_ : main.At edgeOrder curLinkNum wg) (le : wg' ≤ wg) : main.At edgeOrder curLinkNum wg' := by
  cases main with
  | stepStart later => exact ⟨by have := at_.1; omega, at_.2⟩
  | nextLink edges later =>
    have ⟨before, sent, whole, number, quiet⟩ := at_
    exact ⟨before, sent, whole, number, fun first => by have := quiet first; omega⟩
  | submitting | sendingTask | waiting | returned => exact at_

theorem SetupStep.located (step : SetupStep linkPerBackBoneNs backBoneNum st st')
    (old : st.main.At edgeOrder st.curLinkNum st.wg) :
    st'.main.At edgeOrder st'.curLinkNum st'.wg := by
  cases step with
  | allSteps at_ => trivial
  | emptyStep at_ =>
    rw [at_] at old
    have ⟨quiet, before, whole, number⟩ := old
    exact ⟨quiet, before ++ [[]], by simpa using whole, by simpa using number⟩
  | beginStep at_ =>
    rw [at_] at old
    have ⟨quiet, before, whole, number⟩ := old
    exact ⟨before, [], whole, number, fun _ => quiet⟩
  | enterBbNs at_ positive due created =>
    rw [at_] at old
    have ⟨before, sent, whole, number, _⟩ := old
    exact ⟨before, sent, whole, number⟩
  | enterFails at_ due => trivial
  | keepBbNs at_ positive waiting =>
    rw [at_] at old
    have ⟨before, sent, whole, number, _⟩ := old
    exact ⟨before, sent, whole, number⟩
  | add at_ =>
    rw [at_] at old
    exact old
  | @takeTask task _ _ _ _ at_ receiver =>
    rw [at_] at old
    have ⟨before, sent, whole, number⟩ := old
    exact ⟨before, sent ++ [task.edge], by simpa using whole, by simp [number, Nat.add_assoc],
      by simp⟩
  | beginWait at_ =>
    rw [at_] at old
    have ⟨before, sent, whole, number, _⟩ := old
    exact ⟨before ++ [sent], by simpa using whole, by simpa using number⟩
  | endWait at_ done =>
    rw [at_] at old
    exact ⟨done, old⟩
  | work place step => exact old
  | done place => exact old.of_le (Nat.sub_le _ _)

theorem startSetup_handlesOk (edgeOrder : List (List PlannedLink))
    (backBoneNum numWorkers : Nat) : HandlesOk (startSetup edgeOrder backBoneNum numWorkers) where
  closed := by simp [startSetup]
  current := by simp [startSetup]
  started := by simp [startSetup]
  chosen := trivial

theorem SetupStep.handlesOk (step : SetupStep linkPerBackBoneNs backBoneNum st st')
    (old : HandlesOk st) : HandlesOk st' := by
  obtain ⟨closed, current, started, chosen⟩ := old
  cases step with
  | enterBbNs at_ positive due created =>
    have live : ∀ handle ∈ st.lmCurBackBoneNs.toList ++ st.closed, handle < st.handles.length := by
      intro handle member
      cases List.mem_append.mp member with
      | inl last => exact (current handle (Option.mem_toList.mp last)).2.2
      | inr earlier => exact closed handle earlier
    constructor
    · intro handle member
      rw [List.length_append]
      exact Nat.lt_succ_of_lt (live handle member)
    · intro handle same
      cases Option.some.inj same
      exact ⟨rfl, fun member => absurd (live _ member) (lt_irrefl _), by simp⟩
    · exact fun _ => rfl
    · rfl
  | keepBbNs at_ positive waiting =>
    have number : 0 < st.curLinkNum := by
      by_contra none
      exact waiting (by rw [Nat.eq_zero_of_not_pos none, Nat.zero_mod])
    exact ⟨closed, current, started, started number⟩
  | takeTask at_ receiver =>
    rw [at_] at chosen
    exact ⟨closed, current, fun _ => chosen.1, trivial⟩
  | add at_ =>
    rw [at_] at chosen
    exact ⟨closed, current, started, chosen, rfl⟩
  | allSteps | emptyStep | beginStep | enterFails | beginWait | endWait =>
    exact ⟨closed, current, started, trivial⟩
  | work | done => exact ⟨closed, current, started, chosen⟩

structure SetupInvariant (edgeOrder : List (List PlannedLink)) (st : SetupState) : Prop where
  located : st.main.At edgeOrder st.curLinkNum st.wg
  counted : st.Counted
  handlesOk : HandlesOk st

theorem startSetup_invariant (edgeOrder : List (List PlannedLink)) (backBoneNum numWorkers : Nat) :
    SetupInvariant edgeOrder (startSetup edgeOrder backBoneNum numWorkers) :=
  ⟨⟨rfl, [], rfl, rfl⟩, startSetup_counted edgeOrder backBoneNum numWorkers,
    startSetup_handlesOk edgeOrder backBoneNum numWorkers⟩

theorem SetupStep.invariant (step : SetupStep linkPerBackBoneNs backBoneNum st st')
    (old : SetupInvariant edgeOrder st) : SetupInvariant edgeOrder st' :=
  ⟨step.located old.located, step.counted old.counted, step.handlesOk old.handlesOk⟩

end Invariant

section Alignment

variable {linkPerBackBoneNs backBoneNum : Nat} {edgeOrder : List (List PlannedLink)}
  {st st' : SetupState}

def LinkWorker.Uses (handles : List Nat) (lmCurBackBoneNs : Option NsHandle) : LinkWorker → Prop
  | .starting task => lmCurBackBoneNs = some task.bbns
  | .inside task ns => lmCurBackBoneNs = some task.bbns ∧ handles[task.bbns]? = some ns
  | .moving task backboneNs => lmCurBackBoneNs = some task.bbns ∧ backboneNs = task.bbns
  | .entering task backboneNs => lmCurBackBoneNs = some task.bbns ∧ backboneNs = task.bbns
  | .building task backboneNs ns => lmCurBackBoneNs = some task.bbns ∧ backboneNs = task.bbns ∧
    handles[task.bbns]? = some ns
  | .leaving backboneNs => lmCurBackBoneNs = some backboneNs
  | .idle | .finishing | .failed => True

structure Aligned (st : SetupState) : Prop where
  workers : ∀ worker ∈ st.workers, worker.Uses st.handles st.lmCurBackBoneNs
  wellPlaced : WellPlaced st

theorem LinkWorker.Uses.entry_current {worker : LinkWorker} {handles : List Nat}
    {lmCurBackBoneNs : Option NsHandle} (uses : worker.Uses handles lmCurBackBoneNs)
    {handle : NsHandle} (next : worker.entry = some handle) : lmCurBackBoneNs = some handle := by
  cases worker with
  | starting task =>
    cases next
    exact uses
  | entering task backboneNs =>
    cases next
    rw [uses.1, uses.2]
  | leaving backboneNs =>
    cases next
    exact uses
  | idle | inside | moving | building | finishing | failed => cases next

theorem WorkerStep.uses {worker worker' : LinkWorker} {events : List SetupEvent}
    (step : WorkerStep st.handles st.closed st.lmCurBackBoneNs worker events worker')
    (handlesOk : HandlesOk st)
    (uses : worker.Uses st.handles st.lmCurBackBoneNs) :
    worker'.Uses st.handles st.lmCurBackBoneNs ∧ ∀ event ∈ events, event.Right st.handles := by
  cases step with
  | start opened live => exact ⟨⟨uses, opened⟩, by simp [SetupEvent.Right]⟩
  | readInternal kind read =>
    have same := Option.some.inj (read.symm.trans uses.1)
    exact ⟨⟨uses.1, same, uses.2⟩, by simp⟩
  | readExternal kind read =>
    have same := Option.some.inj (read.symm.trans uses.1)
    exact ⟨⟨uses.1, same⟩, by simp⟩
  | move opened live => exact ⟨uses, by simpa [SetupEvent.Right] using uses.2 ▸ opened⟩
  | enter opened live =>
    exact ⟨⟨uses.1, uses.2, uses.2 ▸ opened⟩, by simp [SetupEvent.Right]⟩
  | build => exact ⟨by rw [uses.2.1]; exact uses.1, by simpa [SetupEvent.Right] using uses.2.2⟩
  | leave live => exact ⟨trivial, by simp [SetupEvent.Right]⟩
  | enterClosed next tooLate =>
    exact absurd tooLate (handlesOk.current _ (uses.entry_current next)).2.1
  | fail busy first => exact ⟨trivial, by simp⟩

theorem EntersFirst.first (entersFirst : EntersFirst linkPerBackBoneNs edgeOrder)
    {before later : List (List PlannedLink)} {sent edges : List PlannedLink} {edge : PlannedLink}
    {curLinkNum : Nat} (whole : edgeOrder = before ++ (sent ++ edge :: edges) :: later)
    (number : curLinkNum = before.flatten.length + sent.length)
    (due : curLinkNum % linkPerBackBoneNs = 0) : sent = [] := by
  have bound : curLinkNum < edgeOrder.flatten.length := by
    simp [whole, number]
  have start := entersFirst curLinkNum bound due
  rw [whole, stepStart_step before later (sent ++ edge :: edges) (by omega)
    (by simp [number])] at start
  exact List.length_eq_zero_iff.mp (by omega)

theorem SetupEvent.Right.append {handles : List Nat} {event : SetupEvent}
    (right : event.Right handles) (more : List Nat) : event.Right (handles ++ more) := by
  cases event with
  | enters handle closed => exact right
  | places task ns =>
    have bound := (List.getElem?_eq_some_iff.mp right).1
    exact (List.getElem?_append_left bound).trans right

theorem SetupState.Counted.allIdle (counted : st.Counted) (quiet : st.wg = 0) :
    ∀ worker ∈ st.workers, worker = .idle := by
  intro worker member
  have none : st.workers.countP LinkWorker.isBusy = 0 := by
    unfold SetupState.Counted at counted
    omega
  have free := List.countP_eq_zero.mp none worker member
  cases worker with
  | idle => rfl
  | starting | inside | moving | entering | building | leaving | finishing | failed =>
    exact absurd rfl free

theorem SetupStep.aligned (entersFirst : EntersFirst linkPerBackBoneNs edgeOrder)
    (step : SetupStep linkPerBackBoneNs backBoneNum st st')
    (invariant : SetupInvariant edgeOrder st) (old : Aligned st) : Aligned st' := by
  obtain ⟨workers, wellPlaced⟩ := old
  cases step with
  | enterBbNs at_ positive due created =>
    have located := invariant.located
    rw [at_] at located
    have ⟨before, sent, whole, number, quiet⟩ := located
    -- The step's first link: main has waited for all earlier tasks.
    have allIdle := invariant.counted.allIdle (quiet (entersFirst.first whole number due))
    constructor
    · intro worker member
      rw [allIdle worker member]
      trivial
    · exact fun event member => (wellPlaced event member).append _
  | takeTask at_ receiver =>
    have chosen := invariant.handlesOk.chosen
    rw [at_] at chosen
    have same := chosen.1.trans (congrArg some chosen.2.symm)
    exact ⟨forall_moved workers receiver same, wellPlaced⟩
  | @work before after worker worker' events place step =>
    have ⟨uses, right⟩ := step.uses invariant.handlesOk (workers worker (by simp [place]))
    constructor
    · exact forall_moved workers place uses
    · intro event member
      cases List.mem_append.mp member with
      | inl old => exact wellPlaced event old
      | inr new => exact right event new
  | done place => exact ⟨forall_moved workers place trivial, wellPlaced⟩
  | allSteps | emptyStep | beginStep | enterFails | keepBbNs | add | beginWait | endWait =>
    exact ⟨workers, wellPlaced⟩

end Alignment

section Schedule

variable {g : Graph} {edgeOrder : List (List PlannedLink)} {backBoneNum numWorkers : Nat}
  {st : SetupState}

theorem reachable_setupInvariant
    (reachable : (parallelSetup g edgeOrder backBoneNum numWorkers).Reachable st) :
    SetupInvariant edgeOrder st := by
  apply reachable.invariant
  · intro st start
    exact start ▸ startSetup_invariant edgeOrder backBoneNum numWorkers
  · exact fun st st' old step => step.invariant old

abbrev Works (handles : List Nat) (closed : List NsHandle) (lmCurBackBoneNs : Option NsHandle) :
    LinkWorker → LinkWorker → Prop :=
  Relation.ReflTransGen fun worker worker' =>
    ∃ events, WorkerStep handles closed lmCurBackBoneNs worker events worker'

theorem task_works {handles : List Nat} {closed : List NsHandle} {task : LinkTask} {ns : Nat}
    (opened : handles[task.bbns]? = some ns) (live : task.bbns ∉ closed) :
    Works handles closed (some task.bbns) (.starting task) .finishing := by
  have last : Works handles closed (some task.bbns) (.building task task.bbns ns) .finishing :=
    .head ⟨_, .build⟩ (.single ⟨_, .leave live⟩)
  by_cases kind : task.edge.2.2.2 = -1
  next => exact .head ⟨_, .start opened live⟩ (.head ⟨_, .readInternal kind rfl⟩ last)
  next =>
    have moved : Works handles closed (some task.bbns) (.moving task task.bbns) .finishing :=
      .head ⟨_, .move opened live⟩ (.head ⟨_, .enter opened live⟩ last)
    exact .head ⟨_, .start opened live⟩ (.head ⟨_, .readExternal kind rfl⟩ moved)

theorem works_run (linkPerBackBoneNs backBoneNum : Nat) {worker worker' : LinkWorker}
    (works : Works st.handles st.closed st.lmCurBackBoneNs worker worker')
    {before after : List LinkWorker} (place : st.workers = before ++ worker :: after) :
    ∃ events, Relation.ReflTransGen (SetupStep linkPerBackBoneNs backBoneNum) st
      { st with workers := before ++ worker' :: after, events := events } := by
  induction works with
  | refl => exact ⟨st.events, place ▸ .refl⟩
  | tail _ step ih =>
    have ⟨done, run⟩ := ih
    have ⟨events, last⟩ := step
    exact ⟨done ++ events, run.tail (.work rfl last)⟩

def ParallelMain.underway : ParallelMain → Nat
  | .submitting _ _ _ | .sendingTask _ _ _ => 1
  | .stepStart _ | .nextLink _ _ | .waiting _ | .returned => 0

theorem SetupStep.index_le {L : Nat} {st' : SetupState} (positive : 0 < L)
    (step : SetupStep L backBoneNum st st')
    (old : st.curBbnsIndex ≤ entersBefore L (st.curLinkNum + st.main.underway)) :
    st'.curBbnsIndex ≤ entersBefore L (st'.curLinkNum + st'.main.underway) := by
  cases step with
  | emptyStep | beginStep => exact Nat.zero_le _
  | enterBbNs at_ _ due created =>
    rw [at_] at old
    have before := entersBefore_due positive due
    have after := entersBefore_succ positive st.curLinkNum
    simp only [ParallelMain.underway, Nat.add_zero] at old ⊢
    omega
  | keepBbNs at_ _ waiting =>
    rw [at_] at old
    exact le_trans old (entersBefore_mono (Nat.le_succ _))
  | allSteps at_ | enterFails at_ | add at_ | takeTask at_ | beginWait at_ | endWait at_ =>
    rw [at_] at old
    exact old
  | work | done => exact old

structure FreeAt (g : Graph) (edgeOrder : List (List PlannedLink)) (backBoneNum numWorkers : Nat)
    (main : ParallelMain) (curLinkNum : Nat) (st : SetupState) : Prop where
  reachable : (parallelSetup g edgeOrder backBoneNum numWorkers).Reachable st
  main : st.main = main
  curLinkNum : st.curLinkNum = curLinkNum
  free : st.workers = List.replicate numWorkers .idle

variable {edge : PlannedLink} {edges : List PlannedLink} {later : List (List PlannedLink)}
  {curLinkNum : Nat}

theorem index_lt (planned : edgeOrder.flatten.length = g.getEdgeNum) (some_bbns : 0 < backBoneNum)
    (reachable : (parallelSetup g edgeOrder backBoneNum numWorkers).Reachable st)
    (at_ : st.main = .nextLink (edge :: edges) later)
    (due : st.curLinkNum % linkPerBackBoneNs g backBoneNum = 0) :
    0 < linkPerBackBoneNs g backBoneNum ∧ st.curBbnsIndex < backBoneNum := by
  have located := (reachable_setupInvariant reachable).located
  rw [at_] at located
  have ⟨before, sent, whole, number, _⟩ := located
  have bound : st.curLinkNum < g.getEdgeNum := by
    simp [← planned, whole, number]
  have positive := linkPerBackBoneNs_pos some_bbns (Nat.zero_lt_of_lt bound)
  have index : st.curBbnsIndex ≤
      entersBefore (linkPerBackBoneNs g backBoneNum) (st.curLinkNum + st.main.underway) := by
    apply reachable.invariant (P := fun st => st.curBbnsIndex ≤
      entersBefore (linkPerBackBoneNs g backBoneNum) (st.curLinkNum + st.main.underway))
    · intro st start
      exact start ▸ Nat.zero_le _
    · exact fun st st' old step => step.index_le positive old
  have share : st.curLinkNum / linkPerBackBoneNs g backBoneNum < backBoneNum :=
    Nat.div_lt_of_lt_mul (lt_of_lt_of_le bound (by
      rw [Nat.mul_comm]
      exact getEdgeNum_le g some_bbns))
  rw [at_, ParallelMain.underway, Nat.add_zero, entersBefore_due positive due] at index
  exact ⟨positive, lt_of_le_of_lt index share⟩

theorem FreeAt.submit (planned : edgeOrder.flatten.length = g.getEdgeNum)
    (some_bbns : 0 < backBoneNum)
    (at_ : FreeAt g edgeOrder backBoneNum numWorkers (.nextLink (edge :: edges) later)
      curLinkNum st) :
    ∃ st', FreeAt g edgeOrder backBoneNum numWorkers (.submitting edge edges later)
      curLinkNum st' := by
  by_cases due : st.curLinkNum % linkPerBackBoneNs g backBoneNum = 0
  next =>
    have ⟨positive, created⟩ := index_lt planned some_bbns at_.reachable at_.main due
    exact ⟨_, at_.reachable.next (.enterBbNs at_.main positive due created), rfl, at_.curLinkNum,
      at_.free⟩
  next =>
    have positive : 0 < linkPerBackBoneNs g backBoneNum := by
      have located := (reachable_setupInvariant at_.reachable).located
      rw [at_.main] at located
      have ⟨before, sent, whole, number, _⟩ := located
      apply linkPerBackBoneNs_pos some_bbns
      simp [← planned, whole]
    exact ⟨_, at_.reachable.next (.keepBbNs at_.main positive due), rfl, at_.curLinkNum, at_.free⟩

structure TakenAt (g : Graph) (edgeOrder : List (List PlannedLink)) (backBoneNum others : Nat)
    (edge : PlannedLink) (main : ParallelMain) (curLinkNum : Nat) (st : SetupState) : Prop where
  reachable : (parallelSetup g edgeOrder backBoneNum (others + 1)).Reachable st
  main : st.main = main
  curLinkNum : st.curLinkNum = curLinkNum
  taken : st.workers = .starting ⟨st.curBackBoneNs, edge⟩ :: List.replicate others .idle

variable {others : Nat}

theorem FreeAt.take (at_ : FreeAt g edgeOrder backBoneNum (others + 1)
      (.submitting edge edges later) curLinkNum st) :
    ∃ st', TakenAt g edgeOrder backBoneNum others edge (.nextLink edges later)
      (curLinkNum + 1) st' := by
  have added := at_.reachable.next (.add at_.main)
  have free : st.workers = [] ++ .idle :: List.replicate others .idle := at_.free
  exact ⟨_, added.next (.takeTask rfl free), rfl, congrArg (· + 1) at_.curLinkNum, rfl⟩

theorem TakenAt.current {main : ParallelMain} {edge : PlannedLink} (some_link : 0 < curLinkNum)
    (at_ : TakenAt g edgeOrder backBoneNum others edge main curLinkNum st) :
    st.lmCurBackBoneNs = some st.curBackBoneNs ∧ st.curBackBoneNs ∉ st.closed ∧
      st.curBackBoneNs < st.handles.length := by
  have handlesOk := (reachable_setupInvariant at_.reachable).handlesOk
  have started := handlesOk.started (at_.curLinkNum ▸ some_link)
  exact ⟨started, (handlesOk.current _ started).2⟩

theorem TakenAt.finish {main : ParallelMain} {edge : PlannedLink} (some_link : 0 < curLinkNum)
    (at_ : TakenAt g edgeOrder backBoneNum others edge main curLinkNum st) :
    ∃ st', FreeAt g edgeOrder backBoneNum (others + 1) main curLinkNum st' := by
  have ⟨known, live, bound⟩ := at_.current some_link
  let task : LinkTask := ⟨st.curBackBoneNs, edge⟩
  have opened : st.handles[task.bbns]? = some st.handles[st.curBackBoneNs] :=
    List.getElem?_eq_getElem bound
  have works : Works st.handles st.closed st.lmCurBackBoneNs (.starting task) .finishing := by
    rw [known]
    exact task_works opened live
  have taken : st.workers = [] ++ .starting task :: List.replicate others .idle := at_.taken
  have ⟨events, run⟩ := works_run (linkPerBackBoneNs g backBoneNum) backBoneNum works taken
  have finished := at_.reachable.later run
  exact ⟨_, finished.next (@SetupStep.done _ _ _ [] (List.replicate others .idle) rfl), at_.main,
    at_.curLinkNum, rfl⟩

theorem FreeAt.links (planned : edgeOrder.flatten.length = g.getEdgeNum)
    (some_bbns : 0 < backBoneNum) (sent : List PlannedLink)
    (at_ : FreeAt g edgeOrder backBoneNum (others + 1) (.nextLink (sent ++ edges) later)
      curLinkNum st) :
    ∃ st', FreeAt g edgeOrder backBoneNum (others + 1) (.nextLink edges later)
      (curLinkNum + sent.length) st' := by
  induction sent generalizing curLinkNum st with
  | nil => exact ⟨st, at_⟩
  | cons edge sent ih =>
    have ⟨_, submitting⟩ := at_.submit planned some_bbns
    have ⟨_, taken⟩ := submitting.take
    have ⟨_, finished⟩ := taken.finish (Nat.succ_pos _)
    have ⟨st', last⟩ := ih finished
    exact ⟨st', by simpa [Nat.add_assoc, Nat.add_comm 1] using last⟩

theorem FreeAt.step (planned : edgeOrder.flatten.length = g.getEdgeNum)
    (some_bbns : 0 < backBoneNum) (links : List PlannedLink)
    (at_ : FreeAt g edgeOrder backBoneNum (others + 1) (.stepStart (links :: later))
      curLinkNum st) :
    ∃ st', FreeAt g edgeOrder backBoneNum (others + 1) (.stepStart later)
      (curLinkNum + links.length) st' := by
  cases links with
  | nil => exact ⟨_, at_.reachable.next (.emptyStep at_.main), rfl, at_.curLinkNum, at_.free⟩
  | cons edge links =>
    have begun : FreeAt g edgeOrder backBoneNum (others + 1)
        (.nextLink ((edge :: links) ++ []) later) curLinkNum
        { st with main := .nextLink (edge :: links) later, curBbnsIndex := 0 } :=
      ⟨at_.reachable.next (.beginStep at_.main), by simp, at_.curLinkNum, at_.free⟩
    have ⟨last, atEnd⟩ := begun.links planned some_bbns
    have waiting := atEnd.reachable.next (.beginWait atEnd.main)
    have quiet : last.wg = 0 := by
      have counted := (reachable_setupInvariant atEnd.reachable).counted
      rw [SetupState.Counted, atEnd.main, atEnd.free] at counted
      simpa [ParallelMain.added, List.countP_replicate, LinkWorker.isBusy] using counted
    exact ⟨_, waiting.next (.endWait rfl quiet), rfl, atEnd.curLinkNum, atEnd.free⟩

theorem FreeAt.steps (planned : edgeOrder.flatten.length = g.getEdgeNum)
    (some_bbns : 0 < backBoneNum) (before : List (List PlannedLink))
    (at_ : FreeAt g edgeOrder backBoneNum (others + 1) (.stepStart (before ++ later))
      curLinkNum st) :
    ∃ st', FreeAt g edgeOrder backBoneNum (others + 1) (.stepStart later)
      (curLinkNum + before.flatten.length) st' := by
  induction before generalizing curLinkNum st with
  | nil => exact ⟨st, at_⟩
  | cons links before ih =>
    have ⟨_, stepped⟩ := at_.step planned some_bbns links
    have ⟨st', last⟩ := ih stepped
    exact ⟨st', by simpa [Nat.add_assoc] using last⟩

theorem late_enter_not_wellPlaced (others : Nat) (planned : edgeOrder.flatten.length = g.getEdgeNum)
    (some_bbns : 0 < backBoneNum) {before : List (List PlannedLink)} {sent : List PlannedLink}
    {last : PlannedLink}
    (whole : edgeOrder = before ++ (sent ++ last :: edge :: edges) :: later)
    (due : (before.flatten.length + sent.length + 1) % linkPerBackBoneNs g backBoneNum = 0) :
    ∃ st, (parallelSetup g edgeOrder backBoneNum (others + 1)).Reachable st ∧ ¬ WellPlaced st := by
  have initial : FreeAt g edgeOrder backBoneNum (others + 1)
      (.stepStart (before ++ (sent ++ last :: edge :: edges) :: later)) 0
      (startSetup edgeOrder backBoneNum (others + 1)) :=
    ⟨.start rfl, congrArg _ whole, rfl, rfl⟩
  have ⟨first, atStep⟩ := initial.steps planned some_bbns before
  have begun : FreeAt g edgeOrder backBoneNum (others + 1)
      (.nextLink (sent ++ last :: edge :: edges) later) (0 + before.flatten.length)
      { first with
        main := .nextLink (sent ++ last :: edge :: edges) later
        curBbnsIndex := 0 } := by
    cases sent with
    | nil => exact ⟨atStep.reachable.next (.beginStep atStep.main), rfl, atStep.curLinkNum,
        atStep.free⟩
    | cons edge sent => exact ⟨atStep.reachable.next (.beginStep atStep.main), rfl,
        atStep.curLinkNum, atStep.free⟩
  have ⟨_, atLast⟩ := begun.links planned some_bbns
  have ⟨_, submitting⟩ := atLast.submit planned some_bbns
  have ⟨st, taken⟩ := submitting.take
  have ⟨known, _, _⟩ := taken.current (Nat.succ_pos _)
  have nowDue : st.curLinkNum % linkPerBackBoneNs g backBoneNum = 0 := by
    rw [taken.curLinkNum, Nat.zero_add]
    exact due
  have ⟨positive, created⟩ := index_lt planned some_bbns taken.reachable taken.main nowDue
  have entered := taken.reachable.next (.enterBbNs taken.main positive nowDue created)
  have closed : st.curBackBoneNs ∈ st.lmCurBackBoneNs.toList ++ st.closed := by
    simp [known]
  have tooLate := entered.next (@SetupStep.work _ _ _ [] (List.replicate others .idle) _ _ _
    taken.taken (.enterClosed rfl closed))
  refine ⟨_, tooLate, fun wellPlaced => ?_⟩
  have right := wellPlaced (.enters st.curBackBoneNs true) (by simp)
  cases right

end Schedule

theorem exists_step {α : Type} (edgeOrder : List (List α)) {k : Nat}
    (bound : k < edgeOrder.flatten.length) : ∃ before sent edge edges later,
      edgeOrder = before ++ (sent ++ edge :: edges) :: later ∧
      k = before.flatten.length + sent.length := by
  induction edgeOrder generalizing k with
  | nil => simp at bound
  | cons links rest ih =>
    by_cases here : k < links.length
    next =>
      exact ⟨[], links.take k, links[k], links.drop (k + 1), rest, by simp, by simp; omega⟩
    next =>
      have ⟨before, sent, edge, edges, later, whole, number⟩ := ih (k := k - links.length) (by
        simp only [List.flatten_cons, List.length_append] at bound
        omega)
      refine ⟨links :: before, sent, edge, edges, later, by simp [whole], ?_⟩
      rw [List.flatten_cons, List.length_append]
      omega

/-- Handles stay live and right exactly when only first links change the namespace. -/
theorem parallelSetup_wellPlaced_iff (g : Graph) {edgeOrder : List (List PlannedLink)}
    (planned : edgeOrder.flatten.length = g.getEdgeNum) {backBoneNum numWorkers : Nat}
    (some_bbns : 0 < backBoneNum) (some_workers : 0 < numWorkers) :
    (∀ st, (parallelSetup g edgeOrder backBoneNum numWorkers).Reachable st → WellPlaced st) ↔
      EntersFirst (linkPerBackBoneNs g backBoneNum) edgeOrder := by
  constructor
  · intro wellPlaced k bound due
    have ⟨before, sent, edge, edges, later, whole, number⟩ := exists_step edgeOrder bound
    have start := stepStart_step before later (sent ++ edge :: edges) (k := k) (by omega)
      (by simp [number])
    rw [← whole] at start
    cases sent using List.reverseRecOn with
    | nil => simpa [start] using number.symm
    | append_singleton sent last =>
      have ⟨others, size⟩ := Nat.exists_eq_succ_of_ne_zero (Nat.ne_of_gt some_workers)
      subst size
      have ⟨st, reachable, wrong⟩ := late_enter_not_wellPlaced others planned some_bbns
        (by simpa using whole) (by
          rw [Nat.add_assoc, ← due, number]
          simp)
      exact absurd (wellPlaced st reachable) wrong
  · intro entersFirst st reachable
    have both : SetupInvariant edgeOrder st ∧ Aligned st := by
      apply reachable.invariant
      · intro st start
        subst start
        refine ⟨startSetup_invariant edgeOrder backBoneNum numWorkers, ?_, ?_⟩
        · intro worker member
          rw [List.eq_of_mem_replicate member]
          trivial
        · simp [WellPlaced, startSetup]
      · intro st st' old step
        exact ⟨step.invariant old.1, step.aligned entersFirst old.1 old.2⟩
    exact both.2.wellPlaced

theorem parallelSetup_wellPlaced_iff_sample :
    (∀ st, (parallelSetup sampleGraph [[], [], sampleLinks] 1 2).Reachable st → WellPlaced st) ↔
      EntersFirst (linkPerBackBoneNs sampleGraph 1) [[], [], sampleLinks] :=
  parallelSetup_wellPlaced_iff sampleGraph (by decide) (by decide) (by decide)

-- The third of four links enters the second namespace while the second link's task is starting.
theorem sample_not_wellPlaced :
    ∃ st, (parallelSetup sampleGraph [[], [], sampleLinks] 2 1).Reachable st ∧ ¬ WellPlaced st := by
  have whole : [[], [], sampleLinks] =
      [[], []] ++ ([(1, 2, -1, -1)] ++ (1, 2, -1, -1) :: (2, 3, -1, -1) :: [(2, 7, 1, 4097)]) ::
        [] := rfl
  exact late_enter_not_wellPlaced 0 (by decide) (by decide) whole (by decide)

end SplitNN.Agent
