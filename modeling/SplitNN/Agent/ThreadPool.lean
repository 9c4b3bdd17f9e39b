import Mathlib
import SplitNN.Shared.Transition

set_option autoImplicit false

namespace SplitNN.Agent

open TransitionSystem (forall_moved)

variable {ε : Type}

-- A task is known by the error it returns, `none` for `nil`.
abbrev Task (ε : Type) := Option ε

inductive Worker (ε : Type) where
  | idle
  | running (task : Task ε)
  | sendingError (err : ε)
  | settingHasError
  | finishing

-- Where `NetworkSetup` is; the lists hold the tasks of the current step and of later steps.
inductive MainState (ε : Type) where
  | stepStart (later : List (List (Task ε)))
  | submitting (tasks : List (Task ε)) (later : List (List (Task ε)))
  | sendingTask (task : Task ε) (tasks : List (Task ε)) (later : List (List (Task ε)))
  | waiting (later : List (List (Task ε)))
  | waitReturned (later : List (List (Task ε)))
  | receivingError
  | returned (err : Option ε)

structure PoolState (ε : Type) where
  main : MainState ε
  workers : List (Worker ε)
  wg : Nat
  hasError : Bool
  -- Not in the program: the errors that tasks have returned so far.
  taskErrors : List ε

inductive PoolStep : PoolState ε → PoolState ε → Prop where
  | allSteps {st : PoolState ε} (at_ : st.main = .stepStart []) :
      PoolStep st { st with main := .returned none }
  | emptyStep {st : PoolState ε} {later : List (List (Task ε))}
      (at_ : st.main = .stepStart ([] :: later)) : PoolStep st { st with main := .stepStart later }
  | beginStep {st : PoolState ε} {task : Task ε} {tasks : List (Task ε)}
      {later : List (List (Task ε))} (at_ : st.main = .stepStart ((task :: tasks) :: later)) :
      PoolStep st { st with main := .submitting (task :: tasks) later }
  | add {st : PoolState ε} {task : Task ε} {tasks : List (Task ε)} {later : List (List (Task ε))}
      (at_ : st.main = .submitting (task :: tasks) later) :
      PoolStep st { st with main := .sendingTask task tasks later, wg := st.wg + 1 }
  -- The task channel has no buffer: an idle worker takes the task as main hands it over.
  | takeTask {st : PoolState ε} {task : Task ε} {tasks : List (Task ε)}
      {later : List (List (Task ε))} {before after : List (Worker ε)}
      (at_ : st.main = .sendingTask task tasks later)
      (receiver : st.workers = before ++ .idle :: after) :
      PoolStep st { st with
        main := .submitting tasks later
        workers := before ++ .running task :: after }
  | beginWait {st : PoolState ε} {later : List (List (Task ε))}
      (at_ : st.main = .submitting [] later) : PoolStep st { st with main := .waiting later }
  | endWait {st : PoolState ε} {later : List (List (Task ε))} (at_ : st.main = .waiting later)
      (done : st.wg = 0) : PoolStep st { st with main := .waitReturned later }
  | noError {st : PoolState ε} {later : List (List (Task ε))}
      (at_ : st.main = .waitReturned later) (clear : st.hasError = false) :
      PoolStep st { st with main := .stepStart later }
  | someError {st : PoolState ε} {later : List (List (Task ε))}
      (at_ : st.main = .waitReturned later) (raised : st.hasError = true) :
      PoolStep st { st with main := .receivingError }
  | succeed {st : PoolState ε} {before after : List (Worker ε)}
      (worker : st.workers = before ++ .running none :: after) :
      PoolStep st { st with workers := before ++ .finishing :: after }
  | fail {st : PoolState ε} {err : ε} {before after : List (Worker ε)}
      (worker : st.workers = before ++ .running (some err) :: after) :
      PoolStep st { st with
        workers := before ++ .sendingError err :: after
        taskErrors := st.taskErrors ++ [err] }
  -- The error channel has no buffer either: the worker is held until main receives.
  | takeError {st : PoolState ε} {err : ε} {before after : List (Worker ε)}
      (at_ : st.main = .receivingError)
      (worker : st.workers = before ++ .sendingError err :: after) :
      PoolStep st { st with
        main := .returned (some err)
        workers := before ++ .settingHasError :: after }
  | setHasError {st : PoolState ε} {before after : List (Worker ε)}
      (worker : st.workers = before ++ .settingHasError :: after) :
      PoolStep st { st with workers := before ++ .finishing :: after, hasError := true }
  | done {st : PoolState ε} {before after : List (Worker ε)}
      (worker : st.workers = before ++ .finishing :: after) :
      PoolStep st { st with workers := before ++ .idle :: after, wg := st.wg - 1 }

def startPool (numWorkers : Nat) (steps : List (List (Task ε))) : PoolState ε where
  main := .stepStart steps
  workers := List.replicate numWorkers .idle
  wg := 0
  hasError := false
  taskErrors := []

def threadPool (numWorkers : Nat) (steps : List (List (Task ε))) :
    TransitionSystem (PoolState ε) where
  initial st := st = startPool numWorkers steps
  step := PoolStep

section Parts

def MainState.pending : MainState ε → List (Task ε)
  | .stepStart later => later.flatten
  | .submitting tasks later => tasks ++ later.flatten
  | .sendingTask task tasks later => task :: (tasks ++ later.flatten)
  | .waiting later => later.flatten
  | .waitReturned later => later.flatten
  | .receivingError => []
  | .returned _ => []

def MainState.added : MainState ε → Nat
  | .sendingTask _ _ _ => 1
  | .stepStart _ | .submitting _ _ | .waiting _ | .waitReturned _ | .receivingError
  | .returned _ => 0

def MainState.betweenSteps : MainState ε → Prop
  | .stepStart _ | .waitReturned _ | .returned _ => True
  | .submitting _ _ | .sendingTask _ _ _ | .waiting _ | .receivingError => False

def Worker.isBusy : Worker ε → Bool
  | .idle => false
  | .running _ | .sendingError _ | .settingHasError | .finishing => true

end Parts

section Invariant

def PoolState.Counted (st : PoolState ε) : Prop :=
  st.wg = st.workers.countP Worker.isBusy + st.main.added

theorem startPool_counted (numWorkers : Nat) (steps : List (List (Task ε))) :
    (startPool numWorkers steps).Counted := by
  simp [PoolState.Counted, startPool, MainState.added, List.countP_replicate, Worker.isBusy]

theorem PoolStep.counted {st st' : PoolState ε} (step : PoolStep st st') (old : st.Counted) :
    st'.Counted := by
  unfold PoolState.Counted at old ⊢
  cases step with
  | allSteps at_ | emptyStep at_ | beginStep at_ | add at_ | beginWait at_ | endWait at_
  | noError at_ | someError at_ => simp_all [MainState.added]
  | takeTask at_ receiver =>
    simp_all [MainState.added, List.countP_cons, Worker.isBusy]
    omega
  | takeError at_ worker =>
    simp_all [MainState.added, List.countP_cons, Worker.isBusy]
  | succeed worker | setHasError worker | fail worker =>
    simp_all [List.countP_cons, Worker.isBusy]
  | done worker =>
    simp_all [List.countP_cons, Worker.isBusy]
    omega

def MainState.unaware : MainState ε → Prop
  | .receivingError | .returned (some _) => False
  | .stepStart _ | .submitting _ _ | .sendingTask _ _ _ | .waiting _ | .waitReturned _
  | .returned none => True

/-- Main never gets as far as receiving an error, so each stays with the worker that has it. -/
structure ErrorsHeld (st : PoolState ε) : Prop where
  hasError : st.hasError = false
  main : st.main.unaware
  workers : ∀ worker ∈ st.workers, worker ≠ .settingHasError
  quiet : st.main.betweenSteps → st.wg = 0
  held : st.taskErrors ≠ [] ↔ ∃ err, .sendingError err ∈ st.workers

theorem startPool_errorsHeld (numWorkers : Nat) (steps : List (List (Task ε))) :
    ErrorsHeld (startPool numWorkers steps) where
  hasError := rfl
  main := trivial
  workers := by simp [startPool]
  quiet := fun _ => rfl
  held := by simp [startPool]

theorem PoolStep.errorsHeld {st st' : PoolState ε} (step : PoolStep st st')
    (old : ErrorsHeld st) : ErrorsHeld st' := by
  obtain ⟨hasError, main, workers, quiet, held⟩ := old
  cases step with
  | allSteps at_ | emptyStep at_ | noError at_ =>
    exact ⟨hasError, trivial, workers, fun _ => quiet (at_ ▸ trivial), held⟩
  | beginStep | add | beginWait => exact ⟨hasError, trivial, workers, False.elim, held⟩
  | endWait at_ done => exact ⟨hasError, trivial, workers, fun _ => done, held⟩
  | takeTask at_ receiver =>
    exact ⟨hasError, trivial, forall_moved workers receiver (by simp), False.elim,
      by simpa [receiver] using held⟩
  | succeed worker =>
    exact ⟨hasError, main, forall_moved workers worker (by simp), quiet,
      by simpa [worker] using held⟩
  | @fail err before after worker =>
    have sending : .sendingError err ∈ before ++ .sendingError err :: after := by simp
    exact ⟨hasError, main, forall_moved workers worker (by simp), quiet,
      ⟨fun _ => ⟨err, sending⟩, fun _ => by simp⟩⟩
  | done worker =>
    exact ⟨hasError, main, forall_moved workers worker (by simp),
      fun between => Nat.sub_eq_zero_of_le (by rw [quiet between]; omega),
      by simpa [worker] using held⟩
  -- The flag is still down, main is not receiving, and no worker gets to raise the flag.
  | someError at_ raised => simp [hasError] at raised
  | takeError at_ worker => simp [at_, MainState.unaware] at main
  | setHasError worker => exact absurd rfl (workers _ (by simp [worker]))

def FailureAhead (st : PoolState ε) : Prop :=
  (∃ err, some err ∈ st.main.pending) ∨ (∃ err, .running (some err) ∈ st.workers) ∨
    st.taskErrors ≠ []

theorem PoolStep.failureAhead {st st' : PoolState ε} (step : PoolStep st st')
    (errorsHeld : ErrorsHeld st) : FailureAhead st' ↔ FailureAhead st := by
  cases step with
  | allSteps at_ => simp [FailureAhead, at_, MainState.pending]
  | emptyStep at_ => simp [FailureAhead, at_, MainState.pending]
  | beginStep at_ => simp [FailureAhead, at_, MainState.pending]
  | add at_ => simp [FailureAhead, at_, MainState.pending]
  | takeTask at_ receiver =>
    simp only [FailureAhead, at_, MainState.pending, receiver]
    grind
  | beginWait at_ => simp [FailureAhead, at_, MainState.pending]
  | endWait at_ done => simp [FailureAhead, at_, MainState.pending]
  | noError at_ clear => simp [FailureAhead, at_, MainState.pending]
  | someError at_ raised => simp [errorsHeld.hasError] at raised
  | succeed worker => simp [FailureAhead, worker]
  | @fail err _ _ worker =>
    have failed : .running (some err) ∈ st.workers := by simp [worker]
    exact ⟨fun _ => Or.inr (Or.inl ⟨err, failed⟩), fun _ => Or.inr (Or.inr (by simp))⟩
  | takeError at_ worker => exact absurd errorsHeld.main (by simp [at_, MainState.unaware])
  | setHasError worker => simp [FailureAhead, worker]
  | done worker => simp [FailureAhead, worker]

theorem PoolStep.length_workers {st st' : PoolState ε} (step : PoolStep st st') :
    st'.workers.length = st.workers.length := by
  cases step <;> simp_all

structure PoolInvariant (numWorkers : Nat) (steps : List (List (Task ε))) (st : PoolState ε) :
    Prop where
  errorsHeld : ErrorsHeld st
  counted : st.Counted
  size : st.workers.length = numWorkers
  ahead : FailureAhead st ↔ ∃ err, some err ∈ steps.flatten

theorem reachable_invariant {numWorkers : Nat} {steps : List (List (Task ε))} {st : PoolState ε}
    (reachable : (threadPool numWorkers steps).Reachable st) :
    PoolInvariant numWorkers steps st := by
  apply reachable.invariant
  · intro st start
    subst start
    exact ⟨startPool_errorsHeld numWorkers steps, startPool_counted numWorkers steps,
      by simp [startPool],
      by simp [startPool, FailureAhead, MainState.pending]⟩
  · intro st st' old step
    exact ⟨step.errorsHeld old.errorsHeld, step.counted old.counted,
      step.length_workers.trans old.size, (step.failureAhead old.errorsHeld).trans old.ahead⟩

end Invariant

section Progress

variable {st : PoolState ε}

theorem ErrorsHeld.busyWorker_steps (errorsHeld : ErrorsHeld st) (clear : ¬ FailureAhead st)
    {worker : Worker ε} (member : worker ∈ st.workers) (busy : worker.isBusy = true) :
    ∃ st', PoolStep st st' := by
  have ⟨before, after, place⟩ := List.append_of_mem member
  cases worker with
  | idle => cases busy
  | running task =>
    cases task with
    | none => exact ⟨_, .succeed place⟩
    | some err => exact ⟨_, .fail place⟩
  | sendingError err =>
    have failed := errorsHeld.held.mpr ⟨err, member⟩
    exact absurd (Or.inr (Or.inr failed)) clear
  | settingHasError => exact ⟨_, .setHasError place⟩
  | finishing => exact ⟨_, .done place⟩

theorem ErrorsHeld.progress (errorsHeld : ErrorsHeld st) (counted : st.Counted)
    (some_workers : 0 < st.workers.length) (clear : ¬ FailureAhead st)
    (unfinished : ∀ err, st.main ≠ .returned err) :
    ∃ st', PoolStep st st' := by
  cases at_ : st.main with
  | stepStart later =>
    cases later with
    | nil => exact ⟨_, .allSteps at_⟩
    | cons tasks later =>
      cases tasks with
      | nil => exact ⟨_, .emptyStep at_⟩
      | cons task tasks => exact ⟨_, .beginStep at_⟩
  | submitting tasks later =>
    cases tasks with
    | nil => exact ⟨_, .beginWait at_⟩
    | cons task tasks => exact ⟨_, .add at_⟩
  | sendingTask task tasks later =>
    by_cases free : .idle ∈ st.workers
    next =>
      have ⟨before, after, place⟩ := List.append_of_mem free
      exact ⟨_, .takeTask at_ place⟩
    next =>
      have ⟨worker, member⟩ := List.exists_mem_of_length_pos some_workers
      apply errorsHeld.busyWorker_steps clear member
      cases worker with
      | idle => exact absurd member free
      | running _ | sendingError _ | settingHasError | finishing => rfl
  | waiting later =>
    by_cases done : st.wg = 0
    next => exact ⟨_, .endWait at_ done⟩
    next =>
      rw [PoolState.Counted, at_, MainState.added, Nat.add_zero] at counted
      have ⟨worker, member, busy⟩ :=
        List.countP_pos_iff.mp (Nat.pos_of_ne_zero (counted ▸ done))
      exact errorsHeld.busyWorker_steps clear member busy
  | waitReturned later => exact ⟨_, .noError at_ errorsHeld.hasError⟩
  | receivingError => exact absurd errorsHeld.main (by simp [at_, MainState.unaware])
  | returned err => exact absurd at_ (unfinished err)

theorem ErrorsHeld.not_returned (errorsHeld : ErrorsHeld st) (counted : st.Counted)
    (ahead : FailureAhead st) (err : Option ε) : st.main ≠ .returned err := by
  intro at_
  have quiet : st.wg = 0 := errorsHeld.quiet (at_ ▸ trivial)
  rw [PoolState.Counted, quiet, at_, MainState.added, Nat.add_zero] at counted
  have allIdle := List.countP_eq_zero.mp counted.symm
  rcases ahead with ⟨err, pending⟩ | ⟨err, running⟩ | failed
  · simp [at_, MainState.pending] at pending
  · exact allIdle _ running rfl
  · have ⟨err, sending⟩ := errorsHeld.held.mp failed
    exact allIdle _ sending rfl

end Progress

section Amount

def laterAmount (later : List (List (Task ε))) : Nat :=
  (later.map fun tasks => 10 * tasks.length + 5).sum

def MainState.amount : MainState ε → Nat
  | .stepStart later => laterAmount later + 1
  | .submitting tasks later => 10 * tasks.length + 4 + laterAmount later
  | .sendingTask _ tasks later => 10 * tasks.length + 13 + laterAmount later
  | .waiting later => 3 + laterAmount later
  | .waitReturned later => 2 + laterAmount later
  | .receivingError => 1
  | .returned _ => 0

def Worker.amount : Worker ε → Nat
  | .idle => 0
  | .finishing => 1
  | .settingHasError => 2
  | .sendingError _ => 3
  | .running _ => 4

def PoolState.amount (st : PoolState ε) : Nat :=
  st.main.amount + (st.workers.map Worker.amount).sum

theorem PoolStep.amount_lt {st st' : PoolState ε} (step : PoolStep st st') :
    st'.amount < st.amount := by
  cases step with
  | allSteps at_ => simp [PoolState.amount, at_, MainState.amount]
  | emptyStep at_ => simp [PoolState.amount, at_, MainState.amount, laterAmount]
  | beginStep at_ => simp [PoolState.amount, at_, MainState.amount, laterAmount]
  | add at_ =>
    simp [PoolState.amount, at_, MainState.amount]
    omega
  | takeTask at_ receiver =>
    simp [PoolState.amount, at_, receiver, MainState.amount, Worker.amount]
    omega
  | beginWait at_ => simp [PoolState.amount, at_, MainState.amount]
  | endWait at_ done => simp [PoolState.amount, at_, MainState.amount]
  | noError at_ clear =>
    simp [PoolState.amount, at_, MainState.amount]
    omega
  | someError at_ raised =>
    simp [PoolState.amount, at_, MainState.amount]
    omega
  | succeed worker => simp [PoolState.amount, worker, Worker.amount]
  | fail worker => simp [PoolState.amount, worker, Worker.amount]
  | takeError at_ worker =>
    simp [PoolState.amount, at_, worker, MainState.amount, Worker.amount]
    omega
  | setHasError worker => simp [PoolState.amount, worker, Worker.amount]
  | done worker => simp [PoolState.amount, worker, Worker.amount]

end Amount

/-- What a failing task must not spoil. -/
structure FailureSafe (st : PoolState ε) : Prop where
  progress : (∀ err, st.main ≠ .returned err) → ∃ st', PoolStep st st'
  reported : ∀ later, st.main = .waitReturned later → (st.hasError = true ↔ st.taskErrors ≠ [])
  received : ∀ later, st.main = .waitReturned later → st.hasError = true →
    ∃ last err, Relation.ReflTransGen PoolStep st last ∧ last.main = .returned (some err)

/-- The set-up never hangs exactly when no task returns an error. -/
theorem threadPool_failureSafe_iff {numWorkers : Nat} (some_workers : 0 < numWorkers)
    (steps : List (List (Task ε))) :
    (∀ st, (threadPool numWorkers steps).Reachable st → FailureSafe st) ↔
      ∀ tasks ∈ steps, ∀ task ∈ tasks, task = none := by
  constructor
  · intro safe tasks isStep task member
    by_contra failing
    have ⟨err, fails⟩ := Option.ne_none_iff_exists'.mp failing
    have initial : (threadPool numWorkers steps).Reachable (startPool numWorkers steps) :=
      .start rfl
    have ⟨last, run, stuck⟩ := (threadPool numWorkers steps).exists_stuck PoolState.amount
      (fun _ _ step => step.amount_lt) (startPool numWorkers steps)
    have reachable := initial.later run
    have invariant := reachable_invariant reachable
    have ahead := invariant.ahead.mpr ⟨err, List.mem_flatten.mpr ⟨tasks, isStep, fails ▸ member⟩⟩
    have ⟨next, step⟩ := (safe last reachable).progress
      (invariant.errorsHeld.not_returned invariant.counted ahead)
    exact stuck next step
  · intro succeed st reachable
    have invariant := reachable_invariant reachable
    have clear : ¬ FailureAhead st := by
      rw [invariant.ahead]
      intro ⟨err, member⟩
      have ⟨tasks, isStep, isTask⟩ := List.mem_flatten.mp member
      cases succeed tasks isStep (some err) isTask
    have noFlag := invariant.errorsHeld.hasError
    constructor
    · exact invariant.errorsHeld.progress invariant.counted (invariant.size ▸ some_workers) clear
    · intro later _
      have none : st.taskErrors = [] := by
        by_contra failed
        exact clear (Or.inr (Or.inr failed))
      simp [noFlag, none]
    · intro later _ raised
      simp [noFlag] at raised

theorem threadPool_failureSafe_iff_sample :
    (∀ st, (threadPool 2 [[none, some "bridge"], [none]]).Reachable st → FailureSafe st) ↔
      ∀ tasks ∈ [[none, some "bridge"], [none]], ∀ task ∈ tasks, task = none :=
  threadPool_failureSafe_iff (by decide) [[none, some "bridge"], [none]]

-- Main waits for the worker, which waits for main to receive its error.
def heldPool : PoolState String where
  main := .waiting []
  workers := [.sendingError "bridge"]
  wg := 1
  hasError := false
  taskErrors := ["bridge"]

theorem heldPool_reachable : (threadPool 1 [[some "bridge"]]).Reachable heldPool := by
  have begun : (threadPool 1 [[some "bridge"]]).Reachable _ :=
    (TransitionSystem.Reachable.start rfl).next (.beginStep rfl)
  have submitted := (begun.next (.add rfl)).next (@PoolStep.takeTask _ _ _ _ _ [] [] rfl rfl)
  exact (submitted.next (.beginWait rfl)).next (@PoolStep.fail _ _ _ [] [] rfl)

theorem heldPool_not_failureSafe :
    (threadPool 1 [[some "bridge"]]).Reachable heldPool ∧ ¬ FailureSafe heldPool := by
  refine ⟨heldPool_reachable, fun safe => ?_⟩
  have ⟨st', step⟩ := safe.progress (by simp [heldPool])
  cases step <;> simp_all [heldPool, List.cons_eq_append_iff]

end SplitNN.Agent
