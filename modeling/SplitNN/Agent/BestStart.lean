import Mathlib
import SplitNN.Shared.Greedy
import SplitNN.Shared.Monadic
import SplitNN.Agent.GreedyOrder

set_option autoImplicit false

namespace SplitNN.Agent

open PriorityQueue (heap)
open Relation (ReflTransGen)

-- The order in which `MaximizeEdgesOrderInitDynamic` fills its heap is the order of the map.
section EqualKeys

theorem push_equal {pq : PriorityQueue} {id : Int} (value : Int)
    (equal : ∀ u ∈ id :: pq.queue.toList, pq.contributionOf u = some value) :
    (Heap.push heap pq id).queue.toList = pq.queue.toList ++ [id] := by
  have queue : (pq.push id).queue.toList = pq.queue.toList ++ [id] := by
    simp [PriorityQueue.push]
  have same : ∀ i < (pq.push id).len, (pq.push id).contribution i = value := by
    intro i bound
    have inner : i < (pq.push id).queue.size := bound
    have found := Array.getElem?_eq_getElem inner
    refine PriorityQueue.contribution_of_queued found ?_
    have member : (pq.push id).queue[i] ∈ (pq.push id).queue.toList :=
      Array.mem_toList_iff.mpr (Array.getElem_mem inner)
    rw [queue] at member
    refine (PriorityQueue.contributionOf_adjust pq _ id _ _).trans ?_
    exact equal _ (by simpa [or_comm] using member)
  have stop : heap.less (pq.push id) (heap.len (pq.push id) - 1)
      ((heap.len (pq.push id) - 1 - 1) / 2) = false := by
    have size : (pq.push id).len = pq.len + 1 := by
      simp [PriorityQueue.push, PriorityQueue.len]
    show decide ((pq.push id).contribution _ > (pq.push id).contribution _) = false
    rw [same _ (by show (pq.push id).len - 1 < _; omega),
      same _ (by show ((pq.push id).len - 1 - 1) / 2 < _; omega)]
    simp
  have still : Heap.push heap pq id = pq.push id := Heap.up_stop stop
  rw [still, queue]

theorem initQueue_equal (value : Int) {order : List Int} (distinct : order.Nodup) :
    (Graph.initQueue (fun _ => value) order).queue.toList = order := by
  have all := initQueue_rule (P := fun pq done => pq.Indexed ∧ pq.queue.toList = done ∧
    ∀ u ∈ done, pq.contributionOf u = some value) (fun _ => value)
    ⟨⟨by simp, by simp⟩, by simp, by simp⟩ ?add distinct
  case add =>
    rintro pq done node ⟨indexed, queue, equal⟩ absent
    have fresh : node ∉ pq.queue.toList := queue ▸ absent
    obtain ⟨indexed', _, changed⟩ := add_spec indexed fresh value
    have grown : ∀ u ∈ done ++ [node], (pq.add node value).contributionOf u = some value := by
      intro u member
      rw [changed u]
      split
      next => rfl
      next different => exact equal u (by simpa [different] using member)
    have last : (pq.add node value).queue.toList = pq.queue.toList ++ [node] := by
      refine push_equal value fun u member => ?_
      rw [PriorityQueue.contributionOf, Dict.get?_set]
      split
      next => rfl
      next different =>
        have old : u ∈ done := by simpa [different, queue] using member
        exact equal u old
    exact ⟨indexed', by rw [last, queue], grown⟩
  exact all.2.1

end EqualKeys

def Graph.Linked (g : Graph) (u v : Int) : Prop := v ∈ g.neighbors u

/-- The nodes that `nodeId` reaches come first, each next to one that is there already. -/
structure GrowsFrom (g : Graph) (nodeId : Int) (order : List Int) : Prop where
  head : order.head? = some nodeId
  component : ∃ first rest, order = first ++ rest ∧
    (∀ v, v ∈ first ↔ ReflTransGen g.Linked nodeId v) ∧
    ∀ (i : Nat) v, 0 < i → first[i]? = some v → ∃ u ∈ first.take i, g.Linked u v

-- Over the loop of `MaximizeEdgesOrderBestWeightedDynamic` each node is the first node once.
def TriedOnce (g : Graph) (mapOrder : List Int) (innerOrder : Int → List Int) : Prop :=
  ∃ plans, mapOrder.mapM (fun nodeId =>
      g.maximizeEdgesOrderInitDynamic nodeId (innerOrder nodeId)) = some plans ∧
    (plans.map fun plan => plan.nodeOrder.head?).Perm (g.adjacencyList.keys.map some)

section Start

variable {g : Graph} {mapOrder : List Int} {nodeId : Int} {plan : Plan} {st : PlanState}

theorem linked_symm (loopless : g.Loopless) {u v : Int} (linked : g.Linked u v) :
    g.Linked v u := by
  have known : u ∈ g.adjacencyList.keys := by
    by_contra absent
    rw [Graph.Linked, g.neighbors_unlisted absent] at linked
    cases linked
  have known' := loopless.undirected.closed u known v linked
  have both := loopless.undirected.symmetric u known v known'
  exact List.count_pos_iff.mp (both ▸ List.count_pos_iff.mpr linked)

theorem initDynamic_total (loopless : g.Loopless)
    (nodes : mapOrder.Perm g.adjacencyList.keys) (known : nodeId ∈ g.adjacencyList.keys) :
    ∃ plan, g.maximizeEdgesOrderInitDynamic nodeId mapOrder = some plan ∧
      plan.nodeOrder.Perm g.adjacencyList.keys := by
  rw [Graph.maximizeEdgesOrderInitDynamic, if_pos known]
  have ⟨plan, run, listed, _⟩ := maximizeEdgesOrder_spec loopless (fun _ => 0) 1 nodes
  exact ⟨plan, run, listed⟩

-- The heap holds equal keys, so the round takes the node that was pushed first.
theorem planRound_first (loopless : g.Loopless) (nodes : mapOrder.Perm g.adjacencyList.keys)
    (nonempty : 0 < (Graph.planStart (fun _ => 0) mapOrder).pq.len)
    (stepped : g.planRound 1 (Graph.planStart (fun _ => 0) mapOrder) = some st) :
    ∃ node, mapOrder.head? = some node ∧ st.nodeOrder = [node] := by
  have distinct := nodes.nodup_iff.mpr g.adjacencyList.keys_nodup
  have start := (planStart_invariant (fun _ => 0) nodes).1
  have ⟨node, pq, st', popped, _, selected, round, _⟩ :=
    planRound_invariant loopless nodes 1 start nonempty
  have same : st' = st := Option.some.inj (round.symm.trans stepped)
  have ⟨_, _, _, order⟩ := selectNode_run selected
  have ⟨_, first⟩ :=
    PriorityQueue.heapPop_ordered (initQueue_ordered (fun _ => 0) distinct).1 popped
  have queue := initQueue_equal 0 distinct
  refine ⟨node, ?_, by rw [← same, order]; rfl⟩
  rw [← queue, List.head?_eq_getElem?]
  simpa [Graph.planStart] using first

theorem planRound_extends {delta : Int} {st' : PlanState}
    (stepped : g.planRound delta st = some st') :
    ∃ more, st'.nodeOrder = st.nodeOrder ++ more := by
  unfold Graph.planRound at stepped
  simp only [Option.bind_eq_bind, Option.bind_eq_some_iff] at stepped
  obtain ⟨⟨node, pq⟩, _, rest⟩ := stepped
  split at rest
  next => exact ⟨[], by rw [← Option.some.inj rest]; simp⟩
  next =>
    obtain ⟨_, _, _, order⟩ := selectNode_run rest
    exact ⟨[node], order⟩

theorem initDynamic_head (loopless : g.Loopless)
    (nodes : mapOrder.Perm g.adjacencyList.keys) (known : nodeId ∈ g.adjacencyList.keys)
    (run : g.maximizeEdgesOrderInitDynamic nodeId mapOrder = some plan) :
    plan.nodeOrder.head? = mapOrder.head? := by
  let planner := HeapPlanner.initDynamic nodeId
  have ⟨last, reached, empty, result⟩ :=
    @HeapPlanner.run_reaches g planner mapOrder loopless nodes known
  have same := Option.some.inj (run.symm.trans result)
  have begun : last = Graph.planStart (fun _ => 0) mapOrder ∨
      last.nodeOrder.head? = mapOrder.head? ∧ last.nodeOrder ≠ [] := by
    refine (HeapPlanner.reachable_rounds reached).invariant
      (P := fun st => st = Graph.planStart (fun _ => 0) mapOrder ∨
        st.nodeOrder.head? = mapOrder.head? ∧ st.nodeOrder ≠ []) (fun st start => .inl start) ?_
    intro st st' before ⟨nonempty, stepped⟩
    right
    rcases before with rfl | ⟨head, some'⟩
    next =>
      have ⟨node, first, order⟩ := planRound_first loopless nodes nonempty stepped
      exact ⟨by rw [order, first]; rfl, by simp [order]⟩
    next =>
      have ⟨more, order⟩ := planRound_extends stepped
      rw [order]
      exact ⟨by rw [List.head?_append_of_ne_nil _ some', head], by simp [some']⟩
  rw [same]
  rcases begun with rfl | ⟨head, _⟩
  next =>
    have none : mapOrder.length = 0 := (planStart_invariant (fun _ => 0) nodes).2.symm.trans empty
    rw [List.eq_nil_of_length_eq_zero none] at nodes
    rw [nodes.symm.eq_nil] at known
    cases known
  next => exact head

theorem selectedLinks_pos (loopless : g.Loopless) (selected : List Int) (v : Int) :
    0 < (HeapPlanner.initDynamic nodeId).key g selected v ↔ ∃ u ∈ selected, g.Linked u v := by
  simp only [HeapPlanner.key, Graph.selectedLinks, Nat.cast_pos, List.countP_pos_iff,
    decide_eq_true_eq]
  constructor
  next =>
    rintro ⟨u, listed, member⟩
    exact ⟨u, member, linked_symm loopless listed⟩
  next =>
    rintro ⟨u, member, linked⟩
    exact ⟨u, linked_symm loopless linked, member⟩

theorem growsFrom_iff (loopless : g.Loopless) (nodes : mapOrder.Perm g.adjacencyList.keys)
    (known : nodeId ∈ g.adjacencyList.keys)
    (run : g.maximizeEdgesOrderInitDynamic nodeId mapOrder = some plan) :
    GrowsFrom g nodeId plan.nodeOrder ↔ mapOrder.head? = some nodeId := by
  have first := initDynamic_head loopless nodes known run
  refine ⟨fun grows => first ▸ grows.head, fun head => ?_⟩
  rw [← first] at head
  have ⟨plan', run', listed⟩ := initDynamic_total loopless nodes known
  have same : plan' = plan := Option.some.inj (run'.symm.trans run)
  rw [same] at listed
  have greedy : Selection.Greedy ((HeapPlanner.initDynamic nodeId).key g) [] plan.nodeOrder :=
    HeapPlanner.run_greedy loopless nodes run
  refine ⟨head, greedy.grows (selectedLinks_pos loopless) ?_ head
    (listed.nodup_iff.mpr g.adjacencyList.keys_nodup)⟩
  intro u member v linked
  exact listed.mem_iff.mpr
    (loopless.undirected.closed u (listed.mem_iff.mp member) v linked)

theorem triedOnce_iff (loopless : g.Loopless) {innerOrder : Int → List Int}
    (nodes : mapOrder.Perm g.adjacencyList.keys)
    (inner : ∀ nodeId ∈ mapOrder, (innerOrder nodeId).Perm g.adjacencyList.keys) :
    TriedOnce g mapOrder innerOrder ↔
      (mapOrder.map fun nodeId => (innerOrder nodeId).head?).Perm
        (g.adjacencyList.keys.map some) := by
  have heads {starts : List Int} {plans : List Plan} (sub : ∀ n ∈ starts, n ∈ mapOrder)
      (runs : starts.map (fun nodeId =>
        g.maximizeEdgesOrderInitDynamic nodeId (innerOrder nodeId)) = plans.map some) :
      (plans.map fun plan => plan.nodeOrder.head?) =
        starts.map fun nodeId => (innerOrder nodeId).head? := by
    induction starts generalizing plans with
    | nil => cases plans <;> simp_all
    | cons n rest ih =>
      cases plans with
      | nil => simp at runs
      | cons plan plans =>
        simp only [List.map_cons, List.cons.injEq] at runs
        have member := sub n (by simp)
        rw [List.map_cons, List.map_cons,
          ih (fun other inside => sub other (List.mem_cons_of_mem n inside)) runs.2,
          initDynamic_head loopless (inner n member) (nodes.mem_iff.mp member) runs.1]
  have ⟨plans, ran, _⟩ := Monadic.mapM_found (f := fun nodeId =>
      g.maximizeEdgesOrderInitDynamic nodeId (innerOrder nodeId)) mapOrder fun nodeId member => by
    have ⟨plan, run, _⟩ := initDynamic_total loopless (inner nodeId member)
      (nodes.mem_iff.mp member)
    exact ⟨plan, run⟩
  have same := heads (fun _ => id) (Monadic.mapM_eq_some.mp ran)
  constructor
  next =>
    intro ⟨plans', ran', tried⟩
    rw [Option.some.inj (ran'.symm.trans ran), same] at tried
    exact tried
  next => exact fun given => ⟨plans, ran, same ▸ given⟩

end Start

/-- A run starts where the map's order does, whatever node it is asked to start from. -/
theorem initDynamic_starts_iff {g : Graph} (loopless : g.Loopless) :
    (∀ nodeId ∈ g.adjacencyList.keys, ∀ mapOrder : List Int,
      mapOrder.Perm g.adjacencyList.keys →
        ∃ plan, g.maximizeEdgesOrderInitDynamic nodeId mapOrder = some plan ∧
          (GrowsFrom g nodeId plan.nodeOrder ↔ mapOrder.head? = some nodeId)) ∧
    ∀ (mapOrder : List Int) (innerOrder : Int → List Int),
      mapOrder.Perm g.adjacencyList.keys →
      (∀ nodeId ∈ mapOrder, (innerOrder nodeId).Perm g.adjacencyList.keys) →
        (TriedOnce g mapOrder innerOrder ↔
          (mapOrder.map fun nodeId => (innerOrder nodeId).head?).Perm
            (g.adjacencyList.keys.map some)) := by
  constructor
  next =>
    intro nodeId known mapOrder nodes
    have ⟨plan, run, _⟩ := initDynamic_total loopless nodes known
    exact ⟨plan, run, growsFrom_iff loopless nodes known run⟩
  next => exact fun mapOrder innerOrder nodes inner => triedOnce_iff loopless nodes inner

theorem initDynamic_starts_iff_sample :
    (∀ nodeId ∈ sampleGraph.adjacencyList.keys, ∀ mapOrder : List Int,
      mapOrder.Perm sampleGraph.adjacencyList.keys →
        ∃ plan, sampleGraph.maximizeEdgesOrderInitDynamic nodeId mapOrder = some plan ∧
          (GrowsFrom sampleGraph nodeId plan.nodeOrder ↔ mapOrder.head? = some nodeId)) ∧
    ∀ (mapOrder : List Int) (innerOrder : Int → List Int),
      mapOrder.Perm sampleGraph.adjacencyList.keys →
      (∀ nodeId ∈ mapOrder, (innerOrder nodeId).Perm sampleGraph.adjacencyList.keys) →
        (TriedOnce sampleGraph mapOrder innerOrder ↔
          (mapOrder.map fun nodeId => (innerOrder nodeId).head?).Perm
            (sampleGraph.adjacencyList.keys.map some)) :=
  initDynamic_starts_iff sampleGraph_wellFormed.loopless

-- Asked to start from 2, the run starts from 1; two runs start from 1 and none from 2.
theorem initDynamic_starts_elsewhere :
    (∃ plan, sampleGraph.maximizeEdgesOrderInitDynamic 2 [1, 2, 3] = some plan ∧
      ¬ GrowsFrom sampleGraph 2 plan.nodeOrder) ∧
    ¬ TriedOnce sampleGraph [1, 2, 3] fun nodeId =>
      if nodeId = 3 then [3, 1, 2] else [1, 2, 3] := by
  constructor
  next =>
    have nodes : [1, 2, 3].Perm sampleGraph.adjacencyList.keys := by decide
    have known : 2 ∈ sampleGraph.adjacencyList.keys := by decide
    have ⟨plan, run, _⟩ := initDynamic_total sampleGraph_wellFormed.loopless nodes known
    refine ⟨plan, run, fun grows => ?_⟩
    have first := initDynamic_head sampleGraph_wellFormed.loopless nodes known run
    rw [grows.head] at first
    cases first
  next =>
    rw [triedOnce_iff sampleGraph_wellFormed.loopless (by decide) (by decide)]
    decide

-- What `main` adds for one step of a plan.
def accStep (curEdgeNumSeq : List Nat) (accNodeNum : Int) (nodeNum : Nat) : Int :=
  if nodeNum = 0 then accNodeNum
  else accNodeNum + nodeNum *
    ((curEdgeNumSeq.getD nodeNum 0 : Int) - curEdgeNumSeq.getD (nodeNum - 1) 0)

def accNodeNum (plan : Plan) : Int :=
  (List.range plan.curEdgeNumSeq.length).foldl (accStep plan.curEdgeNumSeq) 0

/-- The plan returned costs no more than any plan of the loop. -/
def BestOfStarts (g : Graph) (mapOrder : List Int) (innerOrder : Int → List Int) : Prop :=
  ∃ best, g.maximizeEdgesOrderBestWeightedDynamic mapOrder innerOrder = some best ∧
    ∀ nodeId ∈ mapOrder, ∀ plan,
      g.maximizeEdgesOrderInitDynamic nodeId (innerOrder nodeId) = some plan →
        accNodeNum best ≤ accNodeNum plan

section Cost

theorem accSteps_append (edgeOrder : List (List PlannedLink)) (edgeSubset : List PlannedLink) :
    (List.range edgeOrder.length).foldl
        (accStep (runningTotals (edgeOrder ++ [edgeSubset]))) 0 =
      (List.range edgeOrder.length).foldl (accStep (runningTotals edgeOrder)) 0 := by
  refine List.foldl_ext _ _ _ fun acc nodeNum member => ?_
  have bound : nodeNum < (runningTotals edgeOrder).length := by
    simpa [runningTotals] using List.mem_range.mp member
  rw [accStep, accStep, runningTotals_append, List.getD_append _ _ _ _ bound,
    List.getD_append _ _ _ _ (by omega)]

theorem accStep_last (edgeOrder : List (List PlannedLink)) (edgeSubset : List PlannedLink)
    (acc : Int) : accStep (runningTotals (edgeOrder ++ [edgeSubset])) acc edgeOrder.length =
      acc + edgeOrder.length * edgeSubset.length := by
  have length : (runningTotals edgeOrder).length = edgeOrder.length := by simp [runningTotals]
  rw [accStep]
  split
  next none => simp [none]
  next some_step =>
    have here : (runningTotals (edgeOrder ++ [edgeSubset])).getD edgeOrder.length 0 =
        edgeOrder.flatten.length + edgeSubset.length := by
      rw [runningTotals_append, ← length, List.getD_append_right _ _ _ _ (le_refl _)]
      simp
    have before : (runningTotals (edgeOrder ++ [edgeSubset])).getD (edgeOrder.length - 1) 0 =
        edgeOrder.flatten.length := by
      rw [runningTotals_append, List.getD_append _ _ _ _ (by omega),
        List.getD_eq_getElem _ _ (by omega)]
      simp only [runningTotals, List.getElem_map, List.getElem_range]
      rw [List.take_of_length_le (by omega)]
    rw [here, before]
    push_cast
    ring

theorem accNodeNum_eq {plan : Plan} (totals : plan.curEdgeNumSeq = runningTotals plan.edgeOrder) :
    accNodeNum plan =
      (plan.edgeOrder.zipIdx.map fun entry => (entry.2 : Int) * entry.1.length).sum := by
  have steps (edgeOrder : List (List PlannedLink)) :
      (List.range edgeOrder.length).foldl (accStep (runningTotals edgeOrder)) 0 =
        (edgeOrder.zipIdx.map fun entry => (entry.2 : Int) * entry.1.length).sum := by
    induction edgeOrder using List.reverseRecOn with
    | nil => rfl
    | append_singleton edgeOrder edgeSubset ih =>
      rw [List.length_append, List.length_singleton, List.range_succ, List.foldl_append,
        accSteps_append, ih, List.foldl_cons, List.foldl_nil, accStep_last]
      simp [List.zipIdx_append]
  have length : plan.curEdgeNumSeq.length = plan.edgeOrder.length := by
    rw [totals]
    simp [runningTotals]
  rw [accNodeNum, length, totals, steps]

def Graph.placeCost (g : Graph) (order : List Int) : Int :=
  (order.zipIdx.map fun entry =>
    (entry.2 : Int) * g.connectable (order.take entry.2) entry.1).sum

/-- Taking the first or another of equal nodes makes no difference to the cost. -/
def Graph.OneCost (g : Graph) : Prop :=
  ∀ first second : List Int, first.Perm g.adjacencyList.keys → second.Perm g.adjacencyList.keys →
    Selection.Greedy g.selectedLinks [] first → Selection.Greedy g.selectedLinks [] second →
      g.placeCost first = g.placeCost second

variable {g : Graph} {mapOrder : List Int}

theorem placeCost_eq {plan : Plan} (distinct : plan.nodeOrder.Nodup)
    (steps : plan.edgeOrder = plan.nodeOrder.map (g.stepLinks plan.nodeOrder))
    (totals : plan.curEdgeNumSeq = runningTotals plan.edgeOrder) :
    accNodeNum plan = g.placeCost plan.nodeOrder := by
  rw [accNodeNum_eq totals, steps, List.zipIdx_map, List.map_map, Graph.placeCost]
  refine congrArg List.sum (List.map_congr_left fun entry member => ?_)
  have found : plan.nodeOrder[entry.2]? = some entry.1 := List.mem_zipIdx_iff_getElem?.mp member
  simp [← g.length_stepLinks distinct found]

theorem initDynamic_cost (loopless : g.Loopless) {nodeId : Int}
    (nodes : mapOrder.Perm g.adjacencyList.keys) (known : nodeId ∈ g.adjacencyList.keys)
    {plan : Plan} (run : g.maximizeEdgesOrderInitDynamic nodeId mapOrder = some plan) :
    plan.nodeOrder.Perm g.adjacencyList.keys ∧ Selection.Greedy g.selectedLinks [] plan.nodeOrder ∧
      accNodeNum plan = g.placeCost plan.nodeOrder := by
  have greedy : Selection.Greedy ((HeapPlanner.initDynamic nodeId).key g) [] plan.nodeOrder :=
    HeapPlanner.run_greedy loopless nodes run
  rw [Graph.maximizeEdgesOrderInitDynamic, if_pos known] at run
  have ⟨plan', run', listed, steps, totals⟩ := maximizeEdgesOrder_spec loopless (fun _ => 0) 1 nodes
  have same : plan' = plan := Option.some.inj (run'.symm.trans run)
  subst same
  refine ⟨listed, fun i v found u later => ?_,
    placeCost_eq (listed.nodup_iff.mpr g.adjacencyList.keys_nodup) steps totals⟩
  simpa [HeapPlanner.key] using greedy i v found u later

end Cost

section Best

variable {g : Graph} {mapOrder : List Int} {innerOrder : Int → List Int}

-- Each run overwrites the plan of the run before.
theorem best_eq_last (loopless : g.Loopless) {starts : List Int} {last : Int}
    (inner : ∀ nodeId ∈ starts ++ [last], nodeId ∈ g.adjacencyList.keys ∧
      (innerOrder nodeId).Perm g.adjacencyList.keys) :
    g.maximizeEdgesOrderBestWeightedDynamic (starts ++ [last]) innerOrder =
      g.maximizeEdgesOrderInitDynamic last (innerOrder last) := by
  unfold Graph.maximizeEdgesOrderBestWeightedDynamic
  generalize (⟨[], [], []⟩ : Plan) = plan
  induction starts generalizing plan with
  | nil => simp
  | cons n rest ih =>
    have ⟨known, nodes⟩ := inner n (by simp)
    have ⟨plan', run, _⟩ := initDynamic_total loopless nodes known
    rw [List.cons_append, List.foldlM_cons, run]
    exact ih (fun other member => inner other (List.mem_cons_of_mem n member)) plan'

theorem exists_last (nonempty : g.adjacencyList.keys ≠ [])
    (nodes : mapOrder.Perm g.adjacencyList.keys) :
    ∃ starts last, mapOrder = starts ++ [last] := by
  have some' : mapOrder ≠ [] := fun none => nonempty (none ▸ nodes).symm.eq_nil
  exact ⟨mapOrder.dropLast, mapOrder.getLast some', (List.dropLast_concat_getLast some').symm⟩

end Best

/-- The runs meet the nodes as the last one does, or all greedy orders cost the same. -/
def StartsAlike (g : Graph) (mapOrder : List Int) (innerOrder : Int → List Int) : Prop :=
  (∀ last ∈ mapOrder.getLast?, ∀ nodeId ∈ mapOrder, innerOrder nodeId = innerOrder last) ∨
    g.OneCost

/-- The plan of the last start is returned, and is the best one where the starts are alike. -/
theorem bestOfStarts_of_alike {g : Graph} (loopless : g.Loopless)
    (nonempty : g.adjacencyList.keys ≠ []) {mapOrder : List Int} {innerOrder : Int → List Int}
    (nodes : mapOrder.Perm g.adjacencyList.keys)
    (inner : ∀ nodeId ∈ mapOrder, (innerOrder nodeId).Perm g.adjacencyList.keys)
    (alike : StartsAlike g mapOrder innerOrder) : BestOfStarts g mapOrder innerOrder := by
  have ⟨starts, last, whole⟩ := exists_last nonempty nodes
  subst whole
  have here : last ∈ starts ++ [last] := by simp
  have known := nodes.mem_iff.mp here
  have ⟨best, run, _⟩ := initDynamic_total loopless (inner last here) known
  have ⟨listed, greedy, cost⟩ := initDynamic_cost loopless (inner last here) known run
  refine ⟨best, ?_, fun nodeId member plan run' => ?_⟩
  next =>
    rw [← run]
    exact best_eq_last loopless fun nodeId member => ⟨nodes.mem_iff.mp member, inner nodeId member⟩
  next =>
    have known' := nodes.mem_iff.mp member
    rcases alike with orders | oneCost
    next =>
      -- The start has no influence on a run.
      rw [orders last (by simp) nodeId member, Graph.maximizeEdgesOrderInitDynamic,
        if_pos known'] at run'
      rw [Graph.maximizeEdgesOrderInitDynamic, if_pos known, run'] at run
      rw [Option.some.inj run]
    next =>
      have ⟨listed', greedy', cost'⟩ := initDynamic_cost loopless (inner nodeId member) known' run'
      rw [cost, cost', oneCost _ _ listed listed' greedy greedy']

-- Two linked nodes; either may come first.
def pairGraph : Graph := ⟨⟨[(1, [2]), (2, [1])], by decide⟩, Dict.empty⟩

theorem pairGraph_loopless : pairGraph.Loopless := by
  refine ⟨⟨by decide, by decide, by decide⟩, ?_⟩
  unfold Multigraph.LoopFree
  decide

theorem pair_order {order : List Int} (nodes : order.Perm [1, 2]) :
    order = [1, 2] ∨ order = [2, 1] := by
  have member := List.mem_permutations.mpr nodes
  revert member
  simp [List.permutations, List.permutationsAux, List.permutationsAux.rec]

theorem bestOfStarts_of_alike_pair :
    BestOfStarts pairGraph [2, 1] fun nodeId => if nodeId = 2 then [2, 1] else [1, 2] := by
  refine bestOfStarts_of_alike pairGraph_loopless (by decide) (by decide) (by decide) (.inr ?_)
  have cost (order : List Int) (nodes : order.Perm [1, 2]) : pairGraph.placeCost order = 1 := by
    rcases pair_order nodes with rfl | rfl <;> decide
  exact fun first second one other _ _ => (cost first one).trans (cost second other).symm

-- Two nodes and a dangling link at one of them, which costs nothing where its node is first.
def lopsidedGraph : Graph :=
  ⟨⟨[(1, []), (2, [])], by decide⟩, ⟨[(2, [(7, 1, 4097)])], List.nodup_singleton 2⟩⟩

theorem lopsidedGraph_loopless : lopsidedGraph.Loopless := by
  refine ⟨⟨by decide, by decide, by decide⟩, ?_⟩
  unfold Multigraph.LoopFree
  decide

-- A two-node order is settled by its first node.
theorem lopsided_cost {a b nodeId : Int} (nodes : [a, b].Perm [1, 2])
    (known : nodeId ∈ lopsidedGraph.adjacencyList.keys) :
    ∃ plan, lopsidedGraph.maximizeEdgesOrderInitDynamic nodeId [a, b] = some plan ∧
      accNodeNum plan = lopsidedGraph.placeCost [a, b] := by
  have ⟨plan, run, listed⟩ := initDynamic_total lopsidedGraph_loopless nodes known
  have ⟨_, _, cost⟩ := initDynamic_cost lopsidedGraph_loopless nodes known run
  have first := initDynamic_head lopsidedGraph_loopless nodes known run
  have order : plan.nodeOrder = [a, b] := by
    rcases pair_order nodes with same | same <;> rcases pair_order listed with same' | same' <;>
      simp_all
  exact ⟨plan, run, order ▸ cost⟩

theorem bestOfStarts_fails :
    ¬ BestOfStarts lopsidedGraph [2, 1] fun nodeId => if nodeId = 2 then [2, 1] else [1, 2] := by
  rintro ⟨best, returned, least⟩
  have ⟨last, runLast, costLast⟩ := @lopsided_cost 1 2 1 (by decide) (by decide)
  have ⟨plan, run, cost⟩ := @lopsided_cost 2 1 2 (by decide) (by decide)
  have final := @best_eq_last lopsidedGraph (fun nodeId => if nodeId = 2 then [2, 1] else [1, 2])
    lopsidedGraph_loopless [2] 1 (by decide)
  have same : best = last := Option.some.inj (returned.symm.trans (final.trans runLast))
  have bound := least 2 (by simp) plan run
  rw [same, costLast, cost] at bound
  revert bound
  decide

end SplitNN.Agent
