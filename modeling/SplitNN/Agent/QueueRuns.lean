import Mathlib
import SplitNN.Shared.Transition
import SplitNN.Agent.QueueOrder

set_option autoImplicit false

namespace SplitNN.Agent

-- What a user of the queue does to it; `node` is what the pushed pointer points to.
inductive QueueOp where
  | push (id : Int) (node : Node)
  | pop
  | update (id newContribution : Int)
deriving DecidableEq

-- The queue with the history that its users know.
structure QueueRun where
  pq : PriorityQueue
  pushed : List Int
  popped : List Int
  assigned : Int → Int

namespace QueueRun

def start : QueueRun := ⟨⟨#[], Dict.empty⟩, [], [], fun _ => 0⟩

-- `none` is a panic.
def perform (run : QueueRun) : QueueOp → Option QueueRun
  | .push id node => some {
      run with
      pq := Heap.push PriorityQueue.heap { run.pq with nodes := run.pq.nodes.set id node } id
      pushed := id :: run.pushed
      assigned := Function.update run.assigned id node.contribution }
  | .pop => do
    let (id, pq) ← Heap.pop PriorityQueue.heap run.pq
    return { run with pq := pq, popped := id :: run.popped }
  | .update id newContribution => do
    let pq ← run.pq.update id newContribution
    return { run with pq := pq, assigned := Function.update run.assigned id newContribution }

-- Only new nodes are pushed, only queued ones updated.
def Allowed (run : QueueRun) : QueueOp → Prop
  | .push id _ => id ∉ run.pushed
  | .pop => 0 < run.pq.len
  | .update id _ => id ∈ run.pq.queue.toList

instance (run : QueueRun) : (op : QueueOp) → Decidable (run.Allowed op)
  | .push id _ => inferInstanceAs (Decidable (id ∉ run.pushed))
  | .pop => inferInstanceAs (Decidable (0 < run.pq.len))
  | .update id _ => inferInstanceAs (Decidable (id ∈ run.pq.queue.toList))

/-- Back-pointers and heap order, of exactly the nodes that were pushed and not popped. -/
structure Kept (run : QueueRun) : Prop where
  indexed : run.pq.Indexed
  gone : ∀ id ∈ run.popped, (run.pq.nodes.get? id).map Node.index = some (-1) ∧
    id ∉ run.pq.queue.toList
  distinct : run.pushed.Nodup
  holds : (run.pq.queue.toList ++ run.popped).Perm run.pushed
  contribution : ∀ id ∈ run.pushed, run.pq.contributionOf id = some (run.assigned id)
  ordered : run.pq.Ordered

variable {run : QueueRun}

theorem start_kept : start.Kept where
  indexed := ⟨by simp [start], by simp [start]⟩
  gone := nofun
  distinct := List.nodup_nil
  holds := .refl _
  contribution := nofun
  ordered := fun _ bound => absurd bound (Nat.not_lt_zero _)

theorem Kept.queued_pushed (kept : run.Kept) {id : Int} (queued : id ∈ run.pq.queue.toList) :
    id ∈ run.pushed :=
  kept.holds.mem_iff.mp (List.mem_append_left _ queued)

theorem Kept.popped_pushed (kept : run.Kept) {id : Int} (popped : id ∈ run.popped) :
    id ∈ run.pushed :=
  kept.holds.mem_iff.mp (List.mem_append_right _ popped)

theorem Kept.assign (kept : run.Kept) {id value : Int} {pq : PriorityQueue}
    (contributions : ∀ other, pq.contributionOf other =
      if other = id then some value else run.pq.contributionOf other)
    {other : Int} (member : other = id ∨ other ∈ run.pushed) :
    pq.contributionOf other = some (Function.update run.assigned id value other) := by
  rw [contributions, Function.update_apply]
  by_cases same : other = id
  next => rw [if_pos same, if_pos same]
  next =>
    rw [if_neg same, if_neg same]
    exact kept.contribution other (member.resolve_left same)

theorem Kept.push (kept : run.Kept) {id : Int} (new : id ∉ run.pushed) (node : Node) :
    ∃ run', run.perform (.push id node) = some run' ∧ run'.Kept := by
  have fresh : id ∉ run.pq.queue.toList := mt kept.queued_pushed new
  have known : id ∈ (run.pq.nodes.set id node).keys :=
    Dict.mem_keys_of_get? (Dict.get?_set_self _ _ _)
  have ⟨indexed, perm, _, contributions⟩ :=
    PriorityQueue.heapPush_spec (kept.indexed.declare fresh node) fresh known
  refine ⟨_, rfl, ?_⟩
  constructor
  case indexed => exact indexed
  case gone =>
    intro other popped
    have different : other ≠ id := fun same => new (same ▸ kept.popped_pushed popped)
    have ⟨index, absent⟩ := kept.gone other popped
    constructor
    next =>
      have untouched := PriorityQueue.heapPush_untouched
        { run.pq with nodes := run.pq.nodes.set id node } absent different
      have stored := Dict.get?_set_other run.pq.nodes node different
      exact (congrArg (Option.map Node.index) (untouched.trans stored)).trans index
    next =>
      intro queued
      rcases List.mem_cons.mp (perm.mem_iff.mp queued) with same | before
      · exact different same
      · exact absent before
  case distinct => exact List.nodup_cons.mpr ⟨new, kept.distinct⟩
  case holds => exact (perm.append_right run.popped).trans (kept.holds.cons id)
  case contribution =>
    refine fun other member => kept.assign (fun other => ?_) (List.mem_cons.mp member)
    refine (contributions other).trans ?_
    simp only [PriorityQueue.contributionOf, Dict.get?_set]
    split <;> rfl
  case ordered => exact PriorityQueue.heapPush_ordered (kept.ordered.declare fresh node) fresh

theorem Kept.pop (kept : run.Kept) (nonempty : 0 < run.pq.len) :
    ∃ id run', run.perform .pop = some run' ∧ run'.Kept ∧ run'.popped = id :: run.popped ∧
      id ∈ run.pq.queue.toList ∧
      ∀ other ∈ run.pq.queue.toList, run.assigned other ≤ run.assigned id := by
  have ⟨id, pq, popped, indexed, perm, _, contributions⟩ :=
    PriorityQueue.heapPop_spec kept.indexed nonempty
  have ⟨index, untouched⟩ := PriorityQueue.heapPop_leaves kept.indexed popped
  have ⟨ordered, first⟩ := PriorityQueue.heapPop_ordered kept.ordered popped
  have queued : id ∈ run.pq.queue.toList := perm.mem_iff.mpr List.mem_cons_self
  refine ⟨id, { run with pq := pq, popped := id :: run.popped }, ?_, ?_, rfl, queued, ?_⟩
  · simp [perform, popped]
  · constructor
    case indexed => exact indexed
    case gone =>
      have taken : id ∉ pq.queue.toList :=
        (List.nodup_cons.mp (perm.nodup_iff.mp kept.indexed.distinct)).1
      refine List.forall_mem_cons.mpr ⟨⟨index, taken⟩, fun other before => ?_⟩
      have ⟨index', absent⟩ := kept.gone other before
      refine ⟨by rw [untouched other absent, index'], fun still => absent ?_⟩
      exact perm.mem_iff.mpr (List.mem_cons_of_mem id still)
    case distinct => exact kept.distinct
    case holds =>
      have moved : (pq.queue.toList ++ id :: run.popped).Perm
          (run.pq.queue.toList ++ run.popped) :=
        List.perm_middle.trans (perm.symm.append_right run.popped)
      exact moved.trans kept.holds
    case contribution =>
      intro other member
      rw [contributions]
      exact kept.contribution other member
    case ordered => exact ordered
  · intro other member
    exact kept.ordered.first first member (kept.contribution other (kept.queued_pushed member))
      (kept.contribution id (kept.queued_pushed queued))

theorem Kept.update (kept : run.Kept) {id : Int} (queued : id ∈ run.pq.queue.toList)
    (newContribution : Int) :
    ∃ run', run.perform (.update id newContribution) = some run' ∧ run'.Kept := by
  have ⟨pq, updated, indexed, perm, _, contributions⟩ :=
    PriorityQueue.update_spec kept.indexed queued newContribution
  refine ⟨{ run with pq := pq, assigned := Function.update run.assigned id newContribution },
    by simp [perform, updated], ?_⟩
  constructor
  case indexed => exact indexed
  case gone =>
    intro other popped
    have ⟨index, absent⟩ := kept.gone other popped
    refine ⟨?_, mt perm.mem_iff.mp absent⟩
    rw [PriorityQueue.update_untouched kept.indexed queued updated absent, index]
  case distinct => exact kept.distinct
  case holds => exact (perm.append_right run.popped).trans kept.holds
  case contribution => exact fun other member => kept.assign contributions (.inr member)
  case ordered => exact PriorityQueue.update_ordered kept.ordered kept.indexed queued updated

theorem Kept.perform (kept : run.Kept) {op : QueueOp} (allowed : run.Allowed op) :
    ∃ run', run.perform op = some run' ∧ run'.Kept := by
  cases op with
  | push id node => exact kept.push allowed node
  | pop =>
    have ⟨_, run', performed, kept', _⟩ := kept.pop allowed
    exact ⟨run', performed, kept'⟩
  | update id newContribution => exact kept.update allowed newContribution

theorem Kept.mem_queue (kept : run.Kept) (id : Int) :
    id ∈ run.pq.queue.toList ↔ id ∈ run.pushed ∧ id ∉ run.popped := by
  have apart : (run.pq.queue.toList ++ run.popped).Nodup := kept.holds.nodup_iff.mpr kept.distinct
  constructor
  next =>
    intro queued
    exact ⟨kept.queued_pushed queued, List.disjoint_of_nodup_append apart queued⟩
  next =>
    intro ⟨pushed, left⟩
    exact (List.mem_append.mp (kept.holds.mem_iff.mpr pushed)).resolve_right left

end QueueRun

def queueRuns : TransitionSystem QueueRun where
  initial run := run = .start
  step run run' := ∃ op, run.Allowed op ∧ run.perform op = some run'

/-- No operation that is allowed panics, and after every one of them the queue is in order. -/
theorem queueRuns_kept {run : QueueRun} (reachable : queueRuns.Reachable run) :
    run.Kept ∧ (∀ id, id ∈ run.pq.queue.toList ↔ id ∈ run.pushed ∧ id ∉ run.popped) ∧
      (∀ k < run.pq.len, 0 < k →
        run.pq.contribution k ≤ run.pq.contribution (Heap.parent k)) ∧
      (∀ op, run.Allowed op → ∃ run', run.perform op = some run') ∧
      (0 < run.pq.len → ∃ id run', run.perform .pop = some run' ∧
        run'.popped = id :: run.popped ∧ id ∈ run.pq.queue.toList ∧
        ∀ other ∈ run.pq.queue.toList, run.assigned other ≤ run.assigned id) := by
  have kept : run.Kept := by
    refine reachable.invariant (P := QueueRun.Kept) ?_ ?_
    next => exact fun _ start => start ▸ QueueRun.start_kept
    next =>
      intro run run' kept ⟨op, allowed, performed⟩
      have ⟨_, same, kept'⟩ := kept.perform allowed
      exact Option.some.inj (same.symm.trans performed) ▸ kept'
  refine ⟨kept, kept.mem_queue, kept.ordered, fun op allowed => ?_, fun nonempty => ?_⟩
  next =>
    have ⟨run', performed, _⟩ := kept.perform allowed
    exact ⟨run', performed⟩
  next =>
    have ⟨id, run', performed, _, popped, queued, most⟩ := kept.pop nonempty
    exact ⟨id, run', performed, popped, queued, most⟩

theorem queueRuns_kept_sample :
    ∃ run, queueRuns.Reachable run ∧ run.popped = [2] ∧
      run.pq = ⟨#[1], ⟨[(1, ⟨5, 0⟩), (2, ⟨9, -1⟩)], by decide⟩⟩ ∧ run.Kept := by
  let assigned : Int → Int := Function.update (fun _ => 0) 1 5
  have first : queueRuns.Reachable
      ⟨⟨#[1], ⟨[(1, ⟨5, 0⟩)], by decide⟩⟩, [1], [], assigned⟩ := by
    refine .next (.start rfl) ⟨.push 1 ⟨5, 0⟩, List.not_mem_nil, ?_⟩
    exact congrArg (fun pq => some (QueueRun.mk pq _ _ _)) (Heap.up_stop (by decide))
  have second : queueRuns.Reachable
      ⟨⟨#[1, 2], ⟨[(1, ⟨5, 0⟩), (2, ⟨3, 1⟩)], by decide⟩⟩, [2, 1], [],
        Function.update assigned 2 3⟩ := by
    refine .next first ⟨.push 2 ⟨3, 0⟩, by decide, ?_⟩
    exact congrArg (fun pq => some (QueueRun.mk pq _ _ _)) (Heap.up_stop (by decide))
  have third : queueRuns.Reachable
      ⟨⟨#[2, 1], ⟨[(1, ⟨5, 1⟩), (2, ⟨9, 0⟩)], by decide⟩⟩, [2, 1], [],
        Function.update (Function.update assigned 2 3) 2 9⟩ := by
    refine .next second ⟨.update 2 9, by decide, ?_⟩
    have fixed : Heap.fix PriorityQueue.heap
        ⟨#[1, 2], ⟨[(1, ⟨5, 0⟩), (2, ⟨9, 1⟩)], by decide⟩⟩ 1 =
          ⟨#[2, 1], ⟨[(1, ⟨5, 1⟩), (2, ⟨9, 0⟩)], by decide⟩⟩ := by
      rw [Heap.fix, Heap.down_leaf (by decide), Heap.up_move (by decide),
        Heap.up_stop (by decide)]
      rfl
    exact congrArg (fun pq => some (QueueRun.mk pq _ _ _)) fixed
  have fourth : queueRuns.Reachable
      ⟨⟨#[1], ⟨[(1, ⟨5, 0⟩), (2, ⟨9, -1⟩)], by decide⟩⟩, [2, 1], [2],
        Function.update (Function.update assigned 2 3) 2 9⟩ := by
    refine .next third ⟨.pop, by decide, ?_⟩
    have popped : Heap.pop PriorityQueue.heap
        ⟨#[2, 1], ⟨[(1, ⟨5, 1⟩), (2, ⟨9, 0⟩)], by decide⟩⟩ =
          some (2, ⟨#[1], ⟨[(1, ⟨5, 0⟩), (2, ⟨9, -1⟩)], by decide⟩⟩) := by
      simp only [Heap.pop]
      rw [if_neg (by decide), Heap.down_leaf (by decide)]
      rfl
    rw [QueueRun.perform, popped]
    rfl
  exact ⟨_, fourth, rfl, rfl, (queueRuns_kept fourth).1⟩

end SplitNN.Agent
