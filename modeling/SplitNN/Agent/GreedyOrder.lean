import Mathlib
import SplitNN.Shared.Greedy
import SplitNN.Shared.Transition
import SplitNN.Agent.Planner
import SplitNN.Agent.QueueOrder

set_option autoImplicit false

namespace SplitNN.Agent

open PriorityQueue (heap)
open Selection (Greedy)

namespace Graph

-- The links between `node` and the nodes of `selected`, with their multiplicities.
def selectedLinks (g : Graph) (selected : List Int) (node : Int) : Nat :=
  (g.neighbors node).countP fun u => decide (u ∈ selected)

def connectable (g : Graph) (selected : List Int) (node : Int) : Nat :=
  (g.dangling node).length + g.selectedLinks selected node

def worth (g : Graph) (initContribution : Int → Int) (delta : Int) (selected : List Int)
    (node : Int) : Int :=
  initContribution node + delta * g.selectedLinks selected node

theorem selectedLinks_append (g : Graph) {selected : List Int} {node : Int}
    (fresh : node ∉ selected) (u : Int) :
    g.selectedLinks (selected ++ [node]) u =
      g.selectedLinks selected u + (g.neighbors u).count node := by
  unfold selectedLinks
  induction g.neighbors u with
  | nil => rfl
  | cons v rest ih =>
    simp only [List.countP_cons, List.count_cons, ih]
    by_cases same : v = node
    next =>
      subst same
      simp [fresh]
      omega
    next =>
      simp [same]
      omega

theorem length_stepLinks (g : Graph) {order : List Int} (distinct : order.Nodup) {i : Nat}
    {v : Int} (found : order[i]? = some v) :
    (g.stepLinks order v).length = g.connectable (order.take i) v := by
  have before : earlier order v = fun u => decide (u ∈ order.take i) :=
    funext (earlier_iff_take distinct found)
  simp only [stepLinks, before, connectable, selectedLinks, List.length_append, List.length_map,
    List.countP_eq_length_filter]
  omega

end Graph

theorem visitNeighbors_contributions {delta : Int} {selectedNodes : Dict Int Bool} {node : Int}
    {neighbors : List Int} {step step' : StepState}
    (run : neighbors.foldlM (Graph.visitNeighbor delta selectedNodes node) step = some step')
    (indexed : step.pq.Indexed) (ordered : step.pq.Ordered)
    (queued : ∀ u ∈ neighbors, selectedNodes.getD u false = false → u ∈ step.pq.queue.toList) :
    step'.pq.Ordered ∧ ∀ u, selectedNodes.getD u false = false →
      step'.pq.contributionOf u =
        (step.pq.contributionOf u).map fun value => value + delta * neighbors.count u := by
  induction neighbors generalizing step with
  | nil =>
    have same : step = step' := Option.some.inj run
    subst same
    exact ⟨ordered, fun u _ => by simp⟩
  | cons v rest ih =>
    rw [List.foldlM_cons] at run
    cases selected : selectedNodes.getD v false with
    | true =>
      rw [Graph.visitNeighbor, if_pos selected] at run
      obtain ⟨ordered', contributions⟩ := ih run indexed ordered
        fun u member => queued u (List.mem_cons_of_mem v member)
      refine ⟨ordered', fun u free => ?_⟩
      have different : v ≠ u := by
        rintro rfl
        rw [selected] at free
        cases free
      rw [contributions u free, List.count_cons_of_ne different]
    | false =>
      have here := queued v (by simp) selected
      obtain ⟨neighborNode, stored⟩ := indexed.known here
      obtain ⟨pq, updated, indexed', perm, _, changed⟩ :=
        PriorityQueue.update_spec indexed here (neighborNode.contribution + delta)
      have visit : Graph.visitNeighbor delta selectedNodes node step v =
          some { step with pq := pq } := by
        simp [Graph.visitNeighbor, selected, stored, updated]
      rw [visit] at run
      obtain ⟨ordered', contributions⟩ := ih run indexed'
        (PriorityQueue.update_ordered ordered indexed here updated)
        fun u member free => perm.mem_iff.mpr (queued u (List.mem_cons_of_mem v member) free)
      refine ⟨ordered', fun u free => ?_⟩
      rw [contributions u free, changed u]
      by_cases same : u = v
      next =>
        subst same
        simp [PriorityQueue.contributionOf, stored]
        ring
      next => rw [if_neg same, List.count_cons_of_ne (Ne.symm same)]

theorem add_ordered {pq : PriorityQueue} (ordered : pq.Ordered) {node : Int}
    (fresh : node ∉ pq.queue.toList) (contribution : Int) : (pq.add node contribution).Ordered :=
  PriorityQueue.heapPush_ordered (ordered.declare fresh ⟨contribution, 0⟩) fresh

theorem initQueue_ordered (initContribution : Int → Int) {order : List Int}
    (distinct : order.Nodup) : (Graph.initQueue initContribution order).Ordered ∧
      ∀ u ∈ order, (Graph.initQueue initContribution order).contributionOf u =
        some (initContribution u) := by
  have all := initQueue_rule (P := fun pq done => (pq.Indexed ∧ pq.queue.toList.Perm done) ∧
    pq.Ordered ∧ ∀ u ∈ done, pq.contributionOf u = some (initContribution u)) initContribution
    ⟨⟨⟨by simp, by simp⟩, by simp⟩, fun k bound => absurd bound (Nat.not_lt_zero k), by simp⟩
    ?add distinct
  case add =>
    rintro pq done node ⟨⟨indexed, perm⟩, ordered, contributions⟩ absent
    have fresh : node ∉ pq.queue.toList := fun member => absent (perm.mem_iff.mp member)
    obtain ⟨indexed', perm', changed⟩ := add_spec indexed fresh (initContribution node)
    refine ⟨⟨indexed', ?_⟩, add_ordered ordered fresh _, fun u member => ?_⟩
    next =>
      exact perm'.trans ((perm.cons node).trans (List.perm_append_singleton node done).symm)
    next =>
      rw [changed u]
      split
      next same => rw [same]
      next different =>
        refine contributions u ?_
        simpa [different] using member
  exact all.2

namespace Graph

-- The states in which a planner's loop asks for the length of its queue.
def rounds (g : Graph) (initContribution : Int → Int) (delta : Int) (mapOrder : List Int) :
    TransitionSystem PlanState where
  initial st := st = planStart initContribution mapOrder
  step st st' := 0 < st.pq.len ∧ g.planRound delta st = some st'

end Graph

structure GreedyInvariant (g : Graph) (initContribution : Int → Int) (delta : Int)
    (st : PlanState) : Prop where
  ordered : st.pq.Ordered
  contribution : ∀ u ∈ st.pq.queue.toList,
    st.pq.contributionOf u = some (g.worth initContribution delta st.nodeOrder u)
  greedy : Greedy (g.worth initContribution delta) st.pq.queue.toList st.nodeOrder

section Rounds

variable {g : Graph} {order mapOrder : List Int} {initContribution : Int → Int} {delta : Int}
  {st st' : PlanState} {node : Int}

theorem selectNode_run (selected : g.selectNode delta st node = some st') :
    ∃ step, (g.neighbors node).foldlM
        (Graph.visitNeighbor delta (st.selectedNodes.set node true) node)
        ⟨st.pq, [], st.curEdgeNum⟩ = some step ∧
      st'.pq = step.pq ∧ st'.nodeOrder = st.nodeOrder ++ [node] := by
  unfold Graph.selectNode at selected
  simp only [Option.bind_eq_bind, Option.bind_eq_some_iff] at selected
  have ⟨step, run, result⟩ := selected
  have built := Option.some.inj result
  exact ⟨step, run, by rw [← built], by rw [← built]⟩

-- The node's links raise the worth of its neighbors by as much as the loop adds.
theorem worth_append (loopless : g.Loopless) {selected : List Int} (fresh : node ∉ selected)
    {u : Int} (known : u ∈ g.adjacencyList.keys) (known' : node ∈ g.adjacencyList.keys) :
    g.worth initContribution delta (selected ++ [node]) u =
      g.worth initContribution delta selected u + delta * (g.neighbors node).count u := by
  have both := loopless.undirected.symmetric u known node known'
  rw [Graph.worth, Graph.worth, g.selectedLinks_append fresh, both]
  push_cast
  ring

theorem selectNode_contributions (loopless : g.Loopless)
    (nodes : order.Perm g.adjacencyList.keys) (invariant : PlanInvariant g order [node] st)
    (ordered : st.pq.Ordered)
    (contributions : ∀ u ∈ st.pq.queue.toList,
      st.pq.contributionOf u = some (g.worth initContribution delta st.nodeOrder u))
    (selected : g.selectNode delta st node = some st') :
    st'.pq.Ordered ∧ st'.pq.queue.toList.Perm st.pq.queue.toList ∧
      st'.nodeOrder = st.nodeOrder ++ [node] ∧
      ∀ u ∈ st.pq.queue.toList,
        st'.pq.contributionOf u = some (g.worth initContribution delta st'.nodeOrder u) := by
  have ⟨step, run, queue, grown⟩ := selectNode_run selected
  have queued : ∀ u ∈ g.neighbors node, (st.selectedNodes.set node true).getD u false = false →
      u ∈ st.pq.queue.toList :=
    fun _ => invariant.toQueueInvariant.neighbor_queued nodes loopless.undirected
  have ⟨visited, run', _, perm, _⟩ := visitNeighbors_spec delta
    (st.selectedNodes.set node true) node (g.neighbors node) ⟨st.pq, [], st.curEdgeNum⟩
    invariant.indexed queued
  have same : visited = step := Option.some.inj (run'.symm.trans run)
  have ⟨ordered', contributions'⟩ := visitNeighbors_contributions run invariant.indexed ordered
    queued
  refine ⟨queue ▸ ordered', queue ▸ same ▸ perm, grown, fun u member => ?_⟩
  have apart : u ∉ st.nodeOrder ++ [node] := by
    have distinct := invariant.toQueueInvariant.nodup nodes
    rw [List.append_assoc, List.singleton_append, List.nodup_cons] at distinct
    simp only [List.mem_append, List.mem_singleton, not_or]
    constructor
    next => exact fun before => List.disjoint_of_nodup_append distinct.2 member before
    next => exact fun here => distinct.1 (here ▸ List.mem_append_left _ member)
  have free : (st.selectedNodes.set node true).getD u false = false := by
    rw [invariant.toQueueInvariant.selected_set, decide_eq_false apart]
  have known := (invariant.toQueueInvariant.member nodes u).mpr (.inr (.inl member))
  have known' := (invariant.toQueueInvariant.member nodes node).mpr (.inl rfl)
  rw [queue, contributions' u free, contributions u member, grown,
    worth_append loopless (invariant.toQueueInvariant.fresh nodes) known known', Option.map_some]

theorem planRound_greedy (loopless : g.Loopless) (nodes : order.Perm g.adjacencyList.keys)
    (invariant : PlanInvariant g order [] st)
    (greedy : GreedyInvariant g initContribution delta st) (nonempty : 0 < st.pq.len) :
    ∃ node st', g.planRound delta st = some st' ∧ PlanInvariant g order [] st' ∧
      GreedyInvariant g initContribution delta st' ∧ st'.pq.len + 1 = st.pq.len ∧
      node ∈ st.pq.queue.toList ∧ st'.nodeOrder = st.nodeOrder ++ [node] ∧
      ∀ u ∈ st.pq.queue.toList, g.worth initContribution delta st.nodeOrder u ≤
        g.worth initContribution delta st.nodeOrder node := by
  have ⟨node, pq, st', popped, pending, selected, round, invariant', shorter⟩ :=
    planRound_invariant loopless nodes delta invariant nonempty
  have ⟨top, rest, taken, _, perm, _, kept⟩ :=
    PriorityQueue.heapPop_spec invariant.indexed nonempty
  have ⟨same, same'⟩ := Prod.mk.inj (Option.some.inj (taken.symm.trans popped))
  subst same same'
  have ⟨ordered, first⟩ := PriorityQueue.heapPop_ordered greedy.ordered popped
  have here : top ∈ st.pq.queue.toList := perm.mem_iff.mpr (by simp)
  have most : ∀ u ∈ st.pq.queue.toList, g.worth initContribution delta st.nodeOrder u ≤
      g.worth initContribution delta st.nodeOrder top := fun u member =>
    greedy.ordered.first first member (greedy.contribution u member)
      (greedy.contribution top here)
  have left : ∀ u ∈ rest.queue.toList,
      rest.contributionOf u = some (g.worth initContribution delta st.nodeOrder u) := by
    intro u member
    rw [kept u]
    exact greedy.contribution u (perm.mem_iff.mpr (List.mem_cons_of_mem top member))
  have ⟨ordered', moved, grown, contributions⟩ :=
    selectNode_contributions loopless nodes pending ordered left selected
  refine ⟨top, st', round, invariant', ⟨ordered', ?_, ?_⟩, shorter, here, grown, most⟩
  next => exact fun u member => contributions u (moved.mem_iff.mp member)
  next =>
    rw [grown]
    exact greedy.greedy.snoc (perm.trans (moved.symm.cons top)) most

theorem planStart_greedy (distinct : mapOrder.Nodup) :
    GreedyInvariant g initContribution delta (Graph.planStart initContribution mapOrder) := by
  have ⟨_, queued⟩ := initQueue_spec initContribution distinct
  have ⟨ordered, contributions⟩ := initQueue_ordered initContribution distinct
  refine ⟨ordered, fun u member => ?_, Greedy.nil _ _⟩
  have listed : u ∈ mapOrder := queued.mem_iff.mp member
  simpa [Graph.worth, Graph.selectedLinks, Graph.planStart] using contributions u listed

theorem rounds_invariant (loopless : g.Loopless) (nodes : mapOrder.Perm g.adjacencyList.keys)
    (reached : (g.rounds initContribution delta mapOrder).Reachable st) :
    PlanInvariant g mapOrder [] st ∧ GreedyInvariant g initContribution delta st := by
  refine reached.invariant (P := fun st => PlanInvariant g mapOrder [] st ∧
    GreedyInvariant g initContribution delta st) ?_ ?_
  next =>
    intro st start
    rw [show st = Graph.planStart initContribution mapOrder from start]
    have distinct := nodes.nodup_iff.mpr g.adjacencyList.keys_nodup
    exact ⟨(planStart_invariant initContribution nodes).1, planStart_greedy distinct⟩
  next =>
    intro st st' ⟨invariant, greedy⟩ ⟨nonempty, stepped⟩
    have ⟨_, last, round, invariant', greedy', _⟩ :=
      planRound_greedy loopless nodes invariant greedy nonempty
    have same : last = st' := Option.some.inj (round.symm.trans stepped)
    exact same ▸ ⟨invariant', greedy'⟩

theorem planLoop_reaches (initContribution : Int → Int) (mapOrder : List Int) {fuel : Nat}
    {last : PlanState} (run : g.planLoop delta fuel st = some last) :
    Relation.ReflTransGen (g.rounds initContribution delta mapOrder).step st last := by
  induction fuel generalizing st with
  | zero => exact Option.some.inj run ▸ .refl
  | succ fuel ih =>
    rw [Graph.planLoop] at run
    split at run
    next => exact Option.some.inj run ▸ .refl
    next nonempty =>
      obtain ⟨st', round, rest⟩ := Option.bind_eq_some_iff.mp run
      exact .head ⟨Nat.pos_of_ne_zero nonempty, round⟩ (ih rest)

end Rounds

-- The planners that select one node after another; the best weighted one repeats `initDynamic`.
inductive HeapPlanner where
  | dynamic
  | initDynamic (nodeId : Int)
  | degree
  | weightedDynamic

namespace HeapPlanner

def run (g : Graph) (mapOrder : List Int) : HeapPlanner → Option Plan
  | dynamic => g.maximizeEdgesOrderDynamic mapOrder
  | initDynamic nodeId => g.maximizeEdgesOrderInitDynamic nodeId mapOrder
  | degree => g.maximizeEdgesOrderDegree mapOrder
  | weightedDynamic => g.maximizeEdgesOrderWeightedDynamic mapOrder

-- `initDynamic` returns at once where its node is unknown.
def Starts (g : Graph) : HeapPlanner → Prop
  | initDynamic nodeId => nodeId ∈ g.adjacencyList.keys
  | _ => True

def initContribution (g : Graph) : HeapPlanner → Int → Int
  | dynamic, node => (g.dangling node).length
  | initDynamic _, _ => 0
  | degree, node | weightedDynamic, node => (g.neighbors node).length + (g.dangling node).length

def delta : HeapPlanner → Int
  | degree => -1
  | _ => 1

def rounds (g : Graph) (mapOrder : List Int) (planner : HeapPlanner) :
    TransitionSystem PlanState where
  initial st := planner.Starts g ∧
    (g.rounds (planner.initContribution g) planner.delta mapOrder).initial st
  step := (g.rounds (planner.initContribution g) planner.delta mapOrder).step

def key (g : Graph) (planner : HeapPlanner) (selected : List Int) (node : Int) : Int :=
  let dangling : Int := (g.dangling node).length
  let degree : Int := (g.neighbors node).length
  let links : Int := g.selectedLinks selected node
  match planner with
  | dynamic => dangling + links
  | initDynamic _ => links
  | .degree => dangling + degree - links
  | weightedDynamic => dangling + degree + links

/-- The contributions are the keys, and the next node has the greatest of them. -/
structure GreedyAt (g : Graph) (planner : HeapPlanner) (st : PlanState) : Prop where
  remaining : (st.pq.queue.toList ++ st.nodeOrder).Perm g.adjacencyList.keys
  contribution : ∀ u ∈ st.pq.queue.toList,
    st.pq.contributionOf u = some (planner.key g st.nodeOrder u)
  next : 0 < st.pq.len → ∃ node st', g.planRound planner.delta st = some st' ∧
    node ∈ st.pq.queue.toList ∧ st'.nodeOrder = st.nodeOrder ++ [node] ∧
    ∀ u ∈ st.pq.queue.toList, planner.key g st.nodeOrder u ≤ planner.key g st.nodeOrder node

theorem key_eq_worth (g : Graph) (planner : HeapPlanner) :
    planner.key g = g.worth (planner.initContribution g) planner.delta := by
  funext selected node
  cases planner <;> simp only [key, Graph.worth, initContribution, delta] <;> ring

theorem run_eq (g : Graph) (mapOrder : List Int) (planner : HeapPlanner) :
    planner.Starts g → planner.run g mapOrder =
      g.maximizeEdgesOrder (planner.initContribution g) planner.delta mapOrder := by
  intro starts
  cases planner with
  | initDynamic nodeId => exact if_pos starts
  | _ => rfl

theorem run_unknown {g : Graph} {planner : HeapPlanner} (idle : ¬ planner.Starts g)
    (mapOrder : List Int) : planner.run g mapOrder = some ⟨[], [], []⟩ := by
  cases planner with
  | initDynamic nodeId => exact if_neg idle
  | _ => exact absurd trivial idle

variable {g : Graph} {planner : HeapPlanner} {mapOrder : List Int} {st : PlanState}

theorem reachable_rounds (reached : (planner.rounds g mapOrder).Reachable st) :
    (g.rounds (planner.initContribution g) planner.delta mapOrder).Reachable st := by
  induction reached with
  | start initial => exact .start initial.2
  | next _ step ih => exact ih.next step

theorem greedyAt (loopless : g.Loopless) (nodes : mapOrder.Perm g.adjacencyList.keys)
    (reached : (planner.rounds g mapOrder).Reachable st) : planner.GreedyAt g st := by
  have ⟨invariant, greedy⟩ := rounds_invariant loopless nodes (reachable_rounds reached)
  constructor
  case remaining => exact invariant.nodes.trans nodes
  case contribution =>
    rw [key_eq_worth]
    exact greedy.contribution
  case next =>
    intro nonempty
    have ⟨node, st', round, _, _, _, queued, grown, most⟩ :=
      planRound_greedy loopless nodes invariant greedy nonempty
    rw [key_eq_worth]
    exact ⟨node, st', round, queued, grown, most⟩

theorem run_reaches (loopless : g.Loopless) (nodes : mapOrder.Perm g.adjacencyList.keys)
    (starts : planner.Starts g) : ∃ st, (planner.rounds g mapOrder).Reachable st ∧
      st.pq.len = 0 ∧
      planner.run g mapOrder = some ⟨st.nodeOrder, st.edgeOrder, st.curEdgeNumSeq⟩ := by
  have ⟨start, length⟩ := planStart_invariant (planner.initContribution g) nodes
  have ⟨last, run, _, empty⟩ := planLoop_invariant loopless nodes planner.delta start length
  have first : (planner.rounds g mapOrder).initial
      (Graph.planStart (planner.initContribution g) mapOrder) := ⟨starts, rfl⟩
  have steps : Relation.ReflTransGen (planner.rounds g mapOrder).step
      (Graph.planStart (planner.initContribution g) mapOrder) last :=
    planLoop_reaches (planner.initContribution g) mapOrder run
  refine ⟨last, (TransitionSystem.Reachable.start first).later steps, empty, ?_⟩
  rw [run_eq g mapOrder planner starts]
  rw [Graph.planStart] at run
  simp only [Graph.maximizeEdgesOrder, run]
  rfl

theorem run_greedy (loopless : g.Loopless) (nodes : mapOrder.Perm g.adjacencyList.keys)
    {plan : Plan} (run : planner.run g mapOrder = some plan) :
    Greedy (planner.key g) [] plan.nodeOrder := by
  by_cases starts : planner.Starts g
  next =>
    have ⟨st, reached, empty, result⟩ := run_reaches loopless nodes starts
    have ⟨_, greedy⟩ := rounds_invariant loopless nodes (reachable_rounds reached)
    have drained : st.pq.queue.toList = [] := by simpa [PriorityQueue.len] using empty
    have same := Option.some.inj (run.symm.trans result)
    rw [same, key_eq_worth, ← drained]
    exact greedy.greedy
  next =>
    have same := Option.some.inj (run.symm.trans (run_unknown starts mapOrder))
    rw [same]
    exact Greedy.nil _ _

end HeapPlanner

theorem dynamic_step_most {g : Graph} (loopless : g.Loopless) {mapOrder : List Int}
    (nodes : mapOrder.Perm g.adjacencyList.keys) {plan : Plan}
    (run : g.maximizeEdgesOrderDynamic mapOrder = some plan) {i : Nat} {edges : List PlannedLink}
    (step : plan.edgeOrder[i]? = some edges) {u : Int} (later : u ∈ plan.nodeOrder.drop i) :
    g.connectable (plan.nodeOrder.take i) u ≤ edges.length := by
  have ⟨plan', run', listed, steps, _⟩ := maximizeEdgesOrder_spec loopless
    (HeapPlanner.initContribution g .dynamic) 1 nodes
  have same : plan' = plan := Option.some.inj (run'.symm.trans run)
  rw [same] at listed steps
  rw [steps, List.getElem?_map, Option.map_eq_some_iff] at step
  have ⟨v, found, emitted⟩ := step
  have distinct : plan.nodeOrder.Nodup := listed.nodup_iff.mpr g.adjacencyList.keys_nodup
  have greedy : Greedy (HeapPlanner.dynamic.key g) [] plan.nodeOrder :=
    HeapPlanner.run_greedy loopless nodes run
  have most := greedy.chosen found later
  rw [← emitted, g.length_stepLinks distinct found]
  simp only [HeapPlanner.key, Graph.connectable] at most ⊢
  omega

/-- The heap-driven planners select a node whose key no other node's exceeds, in every step. -/
theorem planners_greedy {g : Graph} (loopless : g.Loopless) {mapOrder : List Int}
    (nodes : mapOrder.Perm g.adjacencyList.keys) :
    (∀ planner : HeapPlanner,
      (∀ st, (planner.rounds g mapOrder).Reachable st → planner.GreedyAt g st) ∧
      (planner.Starts g → ∃ st, (planner.rounds g mapOrder).Reachable st ∧ st.pq.len = 0 ∧
        planner.run g mapOrder = some ⟨st.nodeOrder, st.edgeOrder, st.curEdgeNumSeq⟩) ∧
      ∀ plan, planner.run g mapOrder = some plan → Greedy (planner.key g) [] plan.nodeOrder) ∧
    ∀ plan, g.maximizeEdgesOrderDynamic mapOrder = some plan →
      ∀ (i : Nat) edges, plan.edgeOrder[i]? = some edges → ∀ u ∈ plan.nodeOrder.drop i,
        g.connectable (plan.nodeOrder.take i) u ≤ edges.length := by
  constructor
  next =>
    intro planner
    refine ⟨fun st reached => HeapPlanner.greedyAt loopless nodes reached, ?_, ?_⟩
    next => exact fun starts => HeapPlanner.run_reaches loopless nodes starts
    next => exact fun plan run => HeapPlanner.run_greedy loopless nodes run
  next =>
    intro plan run i edges step u later
    exact dynamic_step_most loopless nodes run step later

theorem planners_greedy_sample :
    (∀ planner : HeapPlanner,
      (∀ st, (planner.rounds sampleGraph [2, 3, 1]).Reachable st →
        planner.GreedyAt sampleGraph st) ∧
      (planner.Starts sampleGraph → ∃ st, (planner.rounds sampleGraph [2, 3, 1]).Reachable st ∧
        st.pq.len = 0 ∧ planner.run sampleGraph [2, 3, 1] =
          some ⟨st.nodeOrder, st.edgeOrder, st.curEdgeNumSeq⟩) ∧
      ∀ plan, planner.run sampleGraph [2, 3, 1] = some plan →
        Greedy (planner.key sampleGraph) [] plan.nodeOrder) ∧
    ∀ plan, sampleGraph.maximizeEdgesOrderDynamic [2, 3, 1] = some plan →
      ∀ (i : Nat) edges, plan.edgeOrder[i]? = some edges → ∀ u ∈ plan.nodeOrder.drop i,
        sampleGraph.connectable (plan.nodeOrder.take i) u ≤ edges.length :=
  planners_greedy sampleGraph_wellFormed.loopless (by decide)

end SplitNN.Agent
