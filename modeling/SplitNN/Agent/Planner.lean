import Mathlib
import SplitNN.Agent.Plan
import SplitNN.Agent.PriorityQueue

set_option autoImplicit false

namespace SplitNN.Agent

open PriorityQueue (heap)

-- The state of the loop over one node's neighbors.
structure StepState where
  pq : PriorityQueue
  edgeSubset : List PlannedLink
  curEdgeNum : Nat

-- The state of the loop over the queue.
structure PlanState where
  pq : PriorityQueue
  selectedNodes : Dict Int Bool
  nodeOrder : List Int
  edgeOrder : List (List PlannedLink)
  curEdgeNumSeq : List Nat
  curEdgeNum : Nat

namespace Graph

-- The planners differ in `delta`, what a selected neighbor adds to a contribution.
def visitNeighbor (delta : Int) (selectedNodes : Dict Int Bool) (node : Int) (step : StepState)
    (neighbor : Int) : Option StepState :=
  if selectedNodes.getD neighbor false then
    some { step with
      edgeSubset := step.edgeSubset ++ [internalLink (node, neighbor)]
      curEdgeNum := step.curEdgeNum + 1 }
  else do
    -- A neighbor that is no node has a nil pointer in the map.
    let neighborNode ← step.pq.nodes.get? neighbor
    let pq ← step.pq.update neighbor (neighborNode.contribution + delta)
    return { step with pq := pq }

def selectNode (g : Graph) (delta : Int) (st : PlanState) (node : Int) : Option PlanState := do
  let selectedNodes := st.selectedNodes.set node true
  let step ← (g.neighbors node).foldlM (visitNeighbor delta selectedNodes node)
    ⟨st.pq, [], st.curEdgeNum⟩
  let edgeSubset := step.edgeSubset ++ (g.dangling node).map (Prod.mk node)
  let curEdgeNum := step.curEdgeNum + (g.dangling node).length
  return {
    pq := step.pq
    selectedNodes := selectedNodes
    nodeOrder := st.nodeOrder ++ [node]
    edgeOrder := st.edgeOrder ++ [edgeSubset]
    curEdgeNumSeq := st.curEdgeNumSeq ++ [curEdgeNum]
    curEdgeNum := curEdgeNum }

-- What the loop does while the queue is not empty.
def planRound (g : Graph) (delta : Int) (st : PlanState) : Option PlanState := do
  let (node, pq) ← Heap.pop heap st.pq
  let st := { st with pq := pq }
  if st.selectedNodes.getD node false then return st
  else selectNode g delta st node

-- `for pq.Len() > 0`; each round takes one node off the queue.
def planLoop (g : Graph) (delta : Int) : Nat → PlanState → Option PlanState
  | 0, st => some st
  | fuel + 1, st =>
    if st.pq.len = 0 then some st
    else do
      let st ← planRound g delta st
      planLoop g delta fuel st

def initQueue (initContribution : Int → Int) (mapOrder : List Int) : PriorityQueue :=
  mapOrder.foldl
    (fun pq node =>
      Heap.push heap { pq with nodes := pq.nodes.set node ⟨initContribution node, 0⟩ } node)
    (Heap.init heap ⟨#[], Dict.empty⟩)

-- The heap-driven planners; `mapOrder` is the order in which Go iterates over the map.
def maximizeEdgesOrder (g : Graph) (initContribution : Int → Int) (delta : Int)
    (mapOrder : List Int) : Option Plan := do
  let st ← planLoop g delta mapOrder.length
    ⟨initQueue initContribution mapOrder, Dict.empty, [], [], [], 0⟩
  return ⟨st.nodeOrder, st.edgeOrder, st.curEdgeNumSeq⟩

def maximizeEdgesOrderDegree (g : Graph) (mapOrder : List Int) : Option Plan :=
  g.maximizeEdgesOrder (fun node => (g.neighbors node).length + (g.dangling node).length) (-1)
    mapOrder

def maximizeEdgesOrderDynamic (g : Graph) (mapOrder : List Int) : Option Plan :=
  g.maximizeEdgesOrder (fun node => (g.dangling node).length) 1 mapOrder

def maximizeEdgesOrderWeightedDynamic (g : Graph) (mapOrder : List Int) : Option Plan :=
  g.maximizeEdgesOrder (fun node => (g.neighbors node).length + (g.dangling node).length) 1
    mapOrder

def maximizeEdgesOrderInitDynamic (g : Graph) (nodeId : Int) (mapOrder : List Int) : Option Plan :=
  if nodeId ∈ g.adjacencyList.keys then g.maximizeEdgesOrder (fun _ => 0) 1 mapOrder
  else some ⟨[], [], []⟩

-- One run for each node; the plan of the last run stays.
def maximizeEdgesOrderBestWeightedDynamic (g : Graph) (mapOrder : List Int)
    (innerOrder : Int → List Int) : Option Plan :=
  mapOrder.foldlM (fun _ nodeId => g.maximizeEdgesOrderInitDynamic nodeId (innerOrder nodeId))
    ⟨[], [], []⟩

-- The three loops over maps take an order each.
def naiveOrder (g : Graph) (nodeOrder linkOrder danglingOrder : List Int) : Plan :=
  let idle := g.adjacencyList.keys.length - 1
  let allInternalEdges := linkOrder.flatMap fun i =>
    ((g.neighbors i).filter fun j => decide (i < j)).map fun j => internalLink (i, j)
  let allDanglingEdges := danglingOrder.flatMap fun i => (g.dangling i).map (Prod.mk i)
  let allEdges := allInternalEdges ++ allDanglingEdges
  { nodeOrder := nodeOrder
    edgeOrder := List.replicate idle [] ++ [allEdges]
    curEdgeNumSeq := List.replicate idle 0 ++ [allEdges.length] }

end Graph

theorem visitNeighbors_spec (delta : Int) (selectedNodes : Dict Int Bool) (node : Int)
    (neighbors : List Int) (step : StepState) (indexed : step.pq.Indexed)
    (queued : ∀ u ∈ neighbors, selectedNodes.getD u false = false → u ∈ step.pq.queue.toList) :
    ∃ step', neighbors.foldlM (Graph.visitNeighbor delta selectedNodes node) step = some step' ∧
      step'.pq.Indexed ∧ step'.pq.queue.toList.Perm step.pq.queue.toList ∧
      step'.edgeSubset = step.edgeSubset ++
        (neighbors.filter fun u => selectedNodes.getD u false).map
          (fun u => internalLink (node, u)) ∧
      step'.curEdgeNum = step.curEdgeNum +
        (neighbors.filter fun u => selectedNodes.getD u false).length := by
  induction neighbors generalizing step with
  | nil => exact ⟨step, rfl, indexed, List.Perm.refl _, by simp, by simp⟩
  | cons u rest ih =>
    cases selected : selectedNodes.getD u false with
    | true =>
      obtain ⟨step', run, indexed', perm, edges, number⟩ := ih
        { step with
          edgeSubset := step.edgeSubset ++ [internalLink (node, u)]
          curEdgeNum := step.curEdgeNum + 1 }
        indexed fun v member => queued v (List.mem_cons_of_mem u member)
      refine ⟨step', ?_, indexed', perm, ?_, ?_⟩
      · rw [List.foldlM_cons, Graph.visitNeighbor, if_pos selected]
        exact run
      · simpa [selected] using edges
      · rw [number]
        simp [selected]
        omega
    | false =>
      have here := queued u (by simp) selected
      obtain ⟨neighborNode, stored⟩ := indexed.known here
      obtain ⟨pq, updated, indexed', perm, -, -⟩ :=
        PriorityQueue.update_spec indexed here (neighborNode.contribution + delta)
      obtain ⟨step', run, indexed'', perm', edges, number⟩ := ih { step with pq := pq } indexed'
        fun v member free => perm.mem_iff.mpr (queued v (List.mem_cons_of_mem u member) free)
      refine ⟨step', ?_, indexed'', perm'.trans perm, ?_, ?_⟩
      · have visit : Graph.visitNeighbor delta selectedNodes node step u =
            some { step with pq := pq } := by
          simp [Graph.visitNeighbor, selected, stored, updated]
        rw [List.foldlM_cons, visit]
        exact run
      · simpa [selected] using edges
      · simpa [selected] using number

-- What the lookups in the loop over the neighbors rest on; `pending` is off the queue already.
structure QueueInvariant (order pending : List Int) (st : PlanState) : Prop where
  indexed : st.pq.Indexed
  nodes : (pending ++ st.pq.queue.toList ++ st.nodeOrder).Perm order
  selected : ∀ id, st.selectedNodes.getD id false = decide (id ∈ st.nodeOrder)

structure PlanInvariant (g : Graph) (order pending : List Int) (st : PlanState) : Prop
    extends QueueInvariant order pending st where
  steps : st.edgeOrder = st.nodeOrder.map (g.stepLinks st.nodeOrder)
  totals : st.curEdgeNumSeq = runningTotals st.edgeOrder
  edgeNum : st.curEdgeNum = st.edgeOrder.flatten.length

section Selection

variable {g : Graph} {order pending : List Int} {st : PlanState} {node : Int}

theorem QueueInvariant.nodup (invariant : QueueInvariant order pending st)
    (nodes : order.Perm g.adjacencyList.keys) :
    (pending ++ st.pq.queue.toList ++ st.nodeOrder).Nodup :=
  invariant.nodes.nodup_iff.mpr (nodes.nodup_iff.mpr g.adjacencyList.keys_nodup)

theorem QueueInvariant.fresh (invariant : QueueInvariant order [node] st)
    (nodes : order.Perm g.adjacencyList.keys) : node ∉ st.nodeOrder :=
  fun member => List.disjoint_of_nodup_append (invariant.nodup nodes) (by simp) member

theorem QueueInvariant.member (invariant : QueueInvariant order [node] st)
    (nodes : order.Perm g.adjacencyList.keys) (u : Int) :
    u ∈ g.adjacencyList.keys ↔ u = node ∨ u ∈ st.pq.queue.toList ∨ u ∈ st.nodeOrder := by
  rw [← nodes.mem_iff, ← invariant.nodes.mem_iff]
  simp

theorem QueueInvariant.selected_set (invariant : QueueInvariant order pending st) (node u : Int) :
    (st.selectedNodes.set node true).getD u false = decide (u ∈ st.nodeOrder ++ [node]) := by
  rw [Dict.getD_set, invariant.selected]
  by_cases same : u = node
  next => simp [same]
  next => simp [same]

theorem QueueInvariant.neighbor_queued (invariant : QueueInvariant order [node] st)
    (nodes : order.Perm g.adjacencyList.keys)
    (undirected : Multigraph.Undirected g.neighbors g.adjacencyList.keys) {u : Int}
    (listed : u ∈ g.neighbors node)
    (free : (st.selectedNodes.set node true).getD u false = false) :
    u ∈ st.pq.queue.toList := by
  have known := (invariant.member nodes node).mpr (Or.inl rfl)
  have inside := (invariant.member nodes u).mp (undirected.closed node known u listed)
  simp only [invariant.selected_set, decide_eq_false_iff_not, List.mem_append,
    List.mem_singleton, not_or] at free
  exact (inside.resolve_left free.2).resolve_right free.1

-- A round takes a node off the queue that is not selected yet.
theorem QueueInvariant.pop (invariant : QueueInvariant order [] st)
    (nodes : order.Perm g.adjacencyList.keys) (nonempty : 0 < st.pq.len) :
    ∃ node pq, Heap.pop heap st.pq = some (node, pq) ∧
      QueueInvariant order [node] { st with pq := pq } ∧ pq.len + 1 = st.pq.len ∧
      ∀ delta, g.planRound delta st = g.selectNode delta { st with pq := pq } node := by
  have ⟨node, pq, popped, indexed, perm, _⟩ :=
    PriorityQueue.heapPop_spec invariant.indexed nonempty
  have taken : QueueInvariant order [node] { st with pq := pq } :=
    ⟨indexed, (perm.symm.append_right st.nodeOrder).trans invariant.nodes, invariant.selected⟩
  have shorter : st.pq.len = pq.len + 1 := by
    simpa [PriorityQueue.len] using perm.length_eq
  have unselected : st.selectedNodes.getD node false = false := by
    rw [invariant.selected, decide_eq_false_iff_not]
    exact taken.fresh nodes
  refine ⟨node, pq, popped, taken, shorter.symm, fun delta => ?_⟩
  simp only [Graph.planRound, popped, Option.bind_eq_bind, Option.bind_some, unselected,
    Bool.false_eq_true, if_false]

theorem QueueInvariant.selectNode (invariant : QueueInvariant order [node] st)
    (nodes : order.Perm g.adjacencyList.keys)
    (undirected : Multigraph.Undirected g.neighbors g.adjacencyList.keys) (delta : Int) :
    ∃ st', g.selectNode delta st node = some st' ∧ QueueInvariant order [] st' ∧
      st'.pq.len = st.pq.len := by
  have ⟨step, run, indexed, perm, _⟩ := visitNeighbors_spec delta
    (st.selectedNodes.set node true) node (g.neighbors node) ⟨st.pq, [], st.curEdgeNum⟩
    invariant.indexed fun u listed free => invariant.neighbor_queued nodes undirected listed free
  refine ⟨_, by simp only [Graph.selectNode, run, Option.bind_eq_bind, Option.bind_some]; rfl,
    ⟨indexed, ?_, invariant.selected_set node⟩, by simpa [PriorityQueue.len] using perm.length_eq⟩
  have moved : ([] ++ step.pq.queue.toList ++ (st.nodeOrder ++ [node])).Perm
      ([node] ++ st.pq.queue.toList ++ st.nodeOrder) := by
    rw [List.nil_append, ← List.append_assoc, List.append_assoc [node]]
    exact ((perm.append_right st.nodeOrder).append_right [node]).trans List.perm_append_comm
  exact moved.trans invariant.nodes

theorem PlanInvariant.neighbor (invariant : PlanInvariant g order [node] st)
    (nodes : order.Perm g.adjacencyList.keys) (loopless : g.Loopless) {u : Int}
    (listed : u ∈ g.neighbors node) :
    u ≠ node ∧ (u ∈ st.pq.queue.toList ∨ u ∈ st.nodeOrder) := by
  have known := (invariant.toQueueInvariant.member nodes node).mpr (Or.inl rfl)
  have different : u ≠ node := fun same => loopless.loopFree node known (same ▸ listed)
  have inside := (invariant.toQueueInvariant.member nodes u).mp
    (loopless.undirected.closed node known u listed)
  exact ⟨different, inside.resolve_left different⟩

theorem selectNode_invariant (loopless : g.Loopless)
    (nodes : order.Perm g.adjacencyList.keys) (delta : Int)
    (invariant : PlanInvariant g order [node] st) :
    ∃ st', g.selectNode delta st node = some st' ∧ PlanInvariant g order [] st' ∧
      st'.pq.len = st.pq.len := by
  have undirected := loopless.undirected
  obtain ⟨st', selected, queue, length⟩ :=
    invariant.toQueueInvariant.selectNode nodes undirected delta
  obtain ⟨step, run, -, -, edges, number⟩ := visitNeighbors_spec delta
    (st.selectedNodes.set node true) node (g.neighbors node) ⟨st.pq, [], st.curEdgeNum⟩
    invariant.indexed fun _ => invariant.toQueueInvariant.neighbor_queued nodes undirected
  have before : (g.neighbors node).filter (fun u => (st.selectedNodes.set node true).getD u false) =
      (g.neighbors node).filter (earlier (st.nodeOrder ++ [node]) node) := by
    apply List.filter_congr
    intro u listed
    have away := invariant.neighbor nodes loopless listed
    rw [invariant.toQueueInvariant.selected_set,
      earlier_last (invariant.toQueueInvariant.fresh nodes) away.1]
  have links : step.edgeSubset ++ (g.dangling node).map (Prod.mk node) =
      g.stepLinks (st.nodeOrder ++ [node]) node := by
    rw [edges, before]
    simp [Graph.stepLinks]
  have count : step.curEdgeNum + (g.dangling node).length =
      (st.edgeOrder ++ [g.stepLinks (st.nodeOrder ++ [node]) node]).flatten.length := by
    rw [number, before]
    simp only [invariant.edgeNum, Graph.stepLinks, List.flatten_append, List.length_append,
      List.length_map, List.flatten_singleton]
    omega
  refine ⟨st', selected, ⟨queue, ?_, ?_, ?_⟩, length⟩
  all_goals
    simp only [Graph.selectNode, run, Option.bind_eq_bind, Option.bind_some] at selected
    have result := Option.some.inj selected
    subst result
  case refine_1 =>
    simp only [links, List.map_append, List.map_cons, List.map_nil, invariant.steps]
    congr 1
    exact List.map_congr_left fun v listed => (stepLinks_append listed node).symm
  case refine_2 =>
    simp only [links, runningTotals_append, count, invariant.totals]
  case refine_3 =>
    simp only [links, count]

theorem planRound_invariant (loopless : g.Loopless)
    (nodes : order.Perm g.adjacencyList.keys) (delta : Int)
    (invariant : PlanInvariant g order [] st) (nonempty : 0 < st.pq.len) :
    ∃ node pq st', Heap.pop heap st.pq = some (node, pq) ∧
      PlanInvariant g order [node] { st with pq := pq } ∧
      g.selectNode delta { st with pq := pq } node = some st' ∧
      g.planRound delta st = some st' ∧ PlanInvariant g order [] st' ∧
      st'.pq.len + 1 = st.pq.len := by
  have ⟨node, pq, popped, taken, shorter, round⟩ := invariant.toQueueInvariant.pop nodes nonempty
  have pending : PlanInvariant g order [node] { st with pq := pq } :=
    ⟨taken, invariant.steps, invariant.totals, invariant.edgeNum⟩
  have ⟨st', selected, invariant', length⟩ := selectNode_invariant loopless nodes delta pending
  exact ⟨node, pq, st', popped, pending, selected, (round delta).trans selected, invariant',
    by rw [length, shorter]⟩

theorem planLoop_rule {P : PlanState → Prop} {delta : Int}
    (round : ∀ st, P st → 0 < st.pq.len →
      ∃ st', g.planRound delta st = some st' ∧ P st' ∧ st'.pq.len + 1 = st.pq.len)
    {fuel : Nat} (holds : P st) (enough : st.pq.len = fuel) :
    ∃ st', g.planLoop delta fuel st = some st' ∧ P st' ∧ st'.pq.len = 0 := by
  induction fuel generalizing st with
  | zero => exact ⟨st, rfl, holds, enough⟩
  | succ fuel ih =>
    have ⟨st', stepped, holds', shorter⟩ := round st holds (by omega)
    have ⟨last, run, done, empty⟩ := ih holds' (by omega)
    refine ⟨last, ?_, done, empty⟩
    rw [Graph.planLoop, if_neg (by omega), stepped]
    exact run

theorem planLoop_invariant (loopless : g.Loopless)
    (nodes : order.Perm g.adjacencyList.keys) (delta : Int) {fuel : Nat}
    (invariant : PlanInvariant g order [] st) (enough : st.pq.len = fuel) :
    ∃ st', g.planLoop delta fuel st = some st' ∧ PlanInvariant g order [] st' ∧
      st'.pq.len = 0 := by
  refine planLoop_rule (P := PlanInvariant g order []) ?_ invariant enough
  intro st invariant nonempty
  have ⟨_, _, st', _, _, _, round, invariant', shorter⟩ :=
    planRound_invariant loopless nodes delta invariant nonempty
  exact ⟨st', round, invariant', shorter⟩

end Selection

def PriorityQueue.add (pq : PriorityQueue) (node contribution : Int) : PriorityQueue :=
  Heap.push heap { pq with nodes := pq.nodes.set node ⟨contribution, 0⟩ } node

theorem initQueue_rule {P : PriorityQueue → List Int → Prop} (initContribution : Int → Int)
    (start : P ⟨#[], Dict.empty⟩ [])
    (add : ∀ pq done node, P pq done → node ∉ done →
      P (pq.add node (initContribution node)) (done ++ [node]))
    {order : List Int} (distinct : order.Nodup) :
    P (Graph.initQueue initContribution order) order := by
  have run (rest : List Int) (pq : PriorityQueue) (done : List Int) (holds : P pq done)
      (fresh : (done ++ rest).Nodup) :
      P (rest.foldl (fun pq node => pq.add node (initContribution node)) pq) (done ++ rest) := by
    induction rest generalizing pq done with
    | nil => simpa using holds
    | cons node rest ih =>
      have absent : node ∉ done := fun member =>
        List.disjoint_of_nodup_append fresh member (by simp)
      have further := ih _ (done ++ [node]) (add pq done node holds absent) (by simpa using fresh)
      rwa [List.append_assoc] at further
  exact run order ⟨#[], Dict.empty⟩ [] start distinct

theorem add_spec {pq : PriorityQueue} (indexed : pq.Indexed) {node : Int}
    (fresh : node ∉ pq.queue.toList) (contribution : Int) :
    (pq.add node contribution).Indexed ∧
      (pq.add node contribution).queue.toList.Perm (node :: pq.queue.toList) ∧
      ∀ other, (pq.add node contribution).contributionOf other =
        if other = node then some contribution else pq.contributionOf other := by
  have known : node ∈ (pq.nodes.set node ⟨contribution, 0⟩).keys :=
    Dict.mem_keys_of_get? (Dict.get?_set_self _ _ _)
  obtain ⟨indexed', perm, -, contributions⟩ := PriorityQueue.heapPush_spec
    (indexed.declare fresh ⟨contribution, 0⟩) fresh known
  refine ⟨indexed', perm, fun other => (contributions other).trans ?_⟩
  rw [PriorityQueue.contributionOf, Dict.get?_set]
  split <;> rfl

theorem initQueue_spec (initContribution : Int → Int) {order : List Int} (distinct : order.Nodup) :
    (Graph.initQueue initContribution order).Indexed ∧
      (Graph.initQueue initContribution order).queue.toList.Perm order := by
  refine initQueue_rule (P := fun pq done => pq.Indexed ∧ pq.queue.toList.Perm done)
    initContribution ⟨⟨by simp, by simp⟩, by simp⟩ ?add distinct
  case add =>
    rintro pq done node ⟨indexed, perm⟩ absent
    have fresh : node ∉ pq.queue.toList := fun member => absent (perm.mem_iff.mp member)
    obtain ⟨indexed', perm', _⟩ := add_spec indexed fresh (initContribution node)
    refine ⟨indexed', perm'.trans ?_⟩
    exact (perm.cons node).trans (List.perm_append_singleton node done).symm

def Graph.planStart (initContribution : Int → Int) (mapOrder : List Int) : PlanState :=
  ⟨initQueue initContribution mapOrder, Dict.empty, [], [], [], 0⟩

theorem planStart_invariant {g : Graph} (initContribution : Int → Int) {mapOrder : List Int}
    (nodes : mapOrder.Perm g.adjacencyList.keys) :
    PlanInvariant g mapOrder [] (Graph.planStart initContribution mapOrder) ∧
      (Graph.planStart initContribution mapOrder).pq.len = mapOrder.length := by
  have distinct : mapOrder.Nodup := nodes.nodup_iff.mpr g.adjacencyList.keys_nodup
  obtain ⟨indexed, queued⟩ := initQueue_spec initContribution distinct
  constructor
  next =>
    refine ⟨⟨indexed, by simpa [Graph.planStart] using queued, ?_⟩, rfl, rfl, rfl⟩
    simp [Graph.planStart, Dict.getD]
  next => simpa [PriorityQueue.len, Graph.planStart] using queued.length_eq

/-- A heap-driven planner does not fail, and emits every link at its later end. -/
theorem maximizeEdgesOrder_spec {g : Graph} (loopless : g.Loopless)
    (initContribution : Int → Int) (delta : Int) {mapOrder : List Int}
    (nodes : mapOrder.Perm g.adjacencyList.keys) :
    ∃ plan, g.maximizeEdgesOrder initContribution delta mapOrder = some plan ∧
      plan.nodeOrder.Perm g.adjacencyList.keys ∧
      plan.edgeOrder = plan.nodeOrder.map (g.stepLinks plan.nodeOrder) ∧
      plan.curEdgeNumSeq = runningTotals plan.edgeOrder := by
  obtain ⟨start, length⟩ := planStart_invariant initContribution nodes
  obtain ⟨st, run, done, empty⟩ := planLoop_invariant loopless nodes delta start length
  have drained : st.pq.queue.toList = [] := by simpa [PriorityQueue.len] using empty
  have listed := done.nodes
  rw [drained] at listed
  refine ⟨⟨st.nodeOrder, st.edgeOrder, st.curEdgeNumSeq⟩, ?_, listed.trans nodes, done.steps,
    done.totals⟩
  rw [Graph.planStart] at run
  simp only [Graph.maximizeEdgesOrder, run]
  rfl

end SplitNN.Agent
