import Mathlib
import SplitNN.Agent.Planner

set_option autoImplicit false

namespace SplitNN.Agent

-- A planner with the orders in which Go iterates over the maps in its run.
inductive Planner where
  | naive (nodeOrder linkOrder danglingOrder : List Int)
  | degree (mapOrder : List Int)
  | dynamic (mapOrder : List Int)
  | weightedDynamic (mapOrder : List Int)
  | initDynamic (nodeId : Int) (mapOrder : List Int)
  | bestWeightedDynamic (mapOrder : List Int) (innerOrder : Int → List Int)

namespace Planner

def run (g : Graph) : Planner → Option Plan
  | naive nodeOrder linkOrder danglingOrder =>
    some (g.naiveOrder nodeOrder linkOrder danglingOrder)
  | degree mapOrder => g.maximizeEdgesOrderDegree mapOrder
  | dynamic mapOrder => g.maximizeEdgesOrderDynamic mapOrder
  | weightedDynamic mapOrder => g.maximizeEdgesOrderWeightedDynamic mapOrder
  | initDynamic nodeId mapOrder => g.maximizeEdgesOrderInitDynamic nodeId mapOrder
  | bestWeightedDynamic mapOrder innerOrder =>
    g.maximizeEdgesOrderBestWeightedDynamic mapOrder innerOrder

def Valid (g : Graph) : Planner → Prop
  | naive nodeOrder linkOrder danglingOrder =>
    nodeOrder.Perm g.adjacencyList.keys ∧ linkOrder.Perm g.adjacencyList.keys ∧
      danglingOrder.Perm g.danglingEdgeList.keys
  | degree mapOrder | dynamic mapOrder | weightedDynamic mapOrder =>
    mapOrder.Perm g.adjacencyList.keys
  | initDynamic nodeId mapOrder =>
    nodeId ∈ g.adjacencyList.keys ∧ mapOrder.Perm g.adjacencyList.keys
  | bestWeightedDynamic mapOrder innerOrder =>
    mapOrder.Perm g.adjacencyList.keys ∧
      ∀ nodeId ∈ g.adjacencyList.keys, (innerOrder nodeId).Perm g.adjacencyList.keys

def HeapDriven : Planner → Prop
  | naive _ _ _ => False
  | _ => True

end Planner

structure StepPlan (g : Graph) (plan : Plan) : Prop where
  nodes : plan.nodeOrder.Perm g.adjacencyList.keys
  steps : plan.edgeOrder = plan.nodeOrder.map (g.stepLinks plan.nodeOrder)
  totals : plan.curEdgeNumSeq = runningTotals plan.edgeOrder

theorem initDynamic_stepPlan {g : Graph} (wellFormed : g.WellFormed) {nodeId : Int}
    (known : nodeId ∈ g.adjacencyList.keys) {mapOrder : List Int}
    (nodes : mapOrder.Perm g.adjacencyList.keys) :
    ∃ plan, g.maximizeEdgesOrderInitDynamic nodeId mapOrder = some plan ∧ StepPlan g plan := by
  obtain ⟨plan, run, listed, steps, totals⟩ :=
    maximizeEdgesOrder_spec wellFormed.loopless (fun _ => 0) 1 nodes
  exact ⟨plan, by rw [Graph.maximizeEdgesOrderInitDynamic, if_pos known, run],
    ⟨listed, steps, totals⟩⟩

-- The last run decides the plan, so every run has to be a good one.
theorem bestWeightedDynamic_stepPlan {g : Graph} (wellFormed : g.WellFormed)
    {mapOrder : List Int} (nonempty : mapOrder ≠ []) {innerOrder : Int → List Int}
    (known : ∀ nodeId ∈ mapOrder, nodeId ∈ g.adjacencyList.keys)
    (inner : ∀ nodeId ∈ mapOrder, (innerOrder nodeId).Perm g.adjacencyList.keys) :
    ∃ plan, g.maximizeEdgesOrderBestWeightedDynamic mapOrder innerOrder = some plan ∧
      StepPlan g plan := by
  have rounds (rest : List Int) (current : Plan) (members : ∀ nodeId ∈ rest, nodeId ∈ mapOrder)
      (good : rest = [] → StepPlan g current) :
      ∃ plan, rest.foldlM (fun _ nodeId =>
        g.maximizeEdgesOrderInitDynamic nodeId (innerOrder nodeId)) current = some plan ∧
          StepPlan g plan := by
    induction rest generalizing current with
    | nil => exact ⟨current, rfl, good rfl⟩
    | cons nodeId rest ih =>
      have member := members nodeId (by simp)
      obtain ⟨next, run, stepPlan⟩ :=
        initDynamic_stepPlan wellFormed (known nodeId member) (inner nodeId member)
      obtain ⟨plan, later, last⟩ := ih next
        (fun other listed => members other (List.mem_cons_of_mem nodeId listed))
        (fun _ => stepPlan)
      refine ⟨plan, ?_, last⟩
      rw [List.foldlM_cons, run]
      exact later
  exact rounds mapOrder _ (fun _ member => member) fun none => absurd none nonempty

theorem heapDriven_stepPlan {g : Graph} (wellFormed : g.WellFormed)
    (nonempty : g.adjacencyList.keys ≠ []) {planner : Planner} (valid : planner.Valid g)
    (heapDriven : planner.HeapDriven) :
    ∃ plan, planner.run g = some plan ∧ StepPlan g plan := by
  have shared (initContribution : Int → Int) (delta : Int) {mapOrder : List Int}
      (nodes : mapOrder.Perm g.adjacencyList.keys) :
      ∃ plan, g.maximizeEdgesOrder initContribution delta mapOrder = some plan ∧
        StepPlan g plan := by
    obtain ⟨plan, run, listed, steps, totals⟩ :=
      maximizeEdgesOrder_spec wellFormed.loopless initContribution delta nodes
    exact ⟨plan, run, ⟨listed, steps, totals⟩⟩
  cases planner with
  | naive => exact heapDriven.elim
  | degree mapOrder => exact shared _ (-1) valid
  | dynamic mapOrder => exact shared _ 1 valid
  | weightedDynamic mapOrder => exact shared _ 1 valid
  | initDynamic nodeId mapOrder => exact initDynamic_stepPlan wellFormed valid.1 valid.2
  | bestWeightedDynamic mapOrder innerOrder =>
    apply bestWeightedDynamic_stepPlan wellFormed
    next =>
      intro same
      subst same
      exact nonempty valid.1.symm.eq_nil
    next => exact fun nodeId member => valid.1.mem_iff.mp member
    next => exact fun nodeId member => valid.2 nodeId (valid.1.mem_iff.mp member)

theorem runningTotals_idle (idle : Nat) :
    runningTotals (List.replicate idle []) = List.replicate idle 0 := by
  induction idle with
  | zero => rfl
  | succ idle ih =>
    rw [List.replicate_succ', runningTotals_append, ih, List.replicate_succ']
    simp

theorem naiveOrder_coversOnce {g : Graph} (wellFormed : g.WellFormed)
    (nonempty : g.adjacencyList.keys ≠ []) {nodeOrder linkOrder danglingOrder : List Int}
    (nodes : nodeOrder.Perm g.adjacencyList.keys) (links : linkOrder.Perm g.adjacencyList.keys)
    (dangling : danglingOrder.Perm g.danglingEdgeList.keys) :
    CoversOnce g (g.naiveOrder nodeOrder linkOrder danglingOrder) := by
  have orients : Multigraph.Orients (fun u v : Int => decide (u < v)) g.adjacencyList.keys := by
    intro u _ v _ different
    change decide (v < u) = !decide (u < v)
    rw [← decide_not]
    apply decide_eq_decide.mpr
    omega
  have some_node : 0 < g.adjacencyList.keys.length := List.length_pos_iff.mpr nonempty
  apply coversOnce_of_oriented wellFormed nonempty orients links nodes
  case steps =>
    have length := nodes.length_eq
    simp [Graph.naiveOrder]
    omega
  case totals =>
    simp only [Graph.naiveOrder, runningTotals_append, runningTotals_idle]
    simp
  case listed =>
    have perm : (g.danglingLinks danglingOrder).Perm (g.danglingLinks g.danglingEdgeList.keys) :=
      List.Perm.flatMap_right _ dangling
    have oriented : linkOrder.flatMap (fun i =>
        ((g.neighbors i).filter fun j => decide (i < j)).map fun j => internalLink (i, j)) =
        (Multigraph.oriented (fun u v : Int => decide (u < v)) g.neighbors linkOrder).map
          internalLink := by
      simp [Multigraph.oriented, List.map_flatMap, Function.comp_def]
    have idle (n : Nat) : (List.replicate n ([] : List PlannedLink)).flatten = [] := by simp
    simp only [Graph.naiveOrder, oriented, List.flatten_append, List.flatten_singleton, idle,
      List.nil_append]
    exact perm.append_left _

theorem planner_spec {g : Graph} (wellFormed : g.WellFormed) (nonempty : g.adjacencyList.keys ≠ [])
    {planner : Planner} (valid : planner.Valid g) :
    ∃ plan, planner.run g = some plan ∧ CoversOnce g plan ∧
      (planner.HeapDriven → EmittedAtLaterEnd g plan) := by
  by_cases heapDriven : planner.HeapDriven
  next =>
    obtain ⟨plan, run, stepPlan⟩ := heapDriven_stepPlan wellFormed nonempty valid heapDriven
    refine ⟨plan, run, ?_, fun _ => ?_⟩
    · exact coversOnce_of_stepLinks wellFormed nonempty stepPlan.nodes stepPlan.steps
        stepPlan.totals
    · exact emittedAtLaterEnd_of_stepLinks
        (stepPlan.nodes.nodup_iff.mpr g.adjacencyList.keys_nodup) stepPlan.steps
  next =>
    cases planner with
    | naive nodeOrder linkOrder danglingOrder =>
      exact ⟨_, rfl, naiveOrder_coversOnce wellFormed nonempty valid.1 valid.2.1 valid.2.2,
        fun holds => absurd holds heapDriven⟩
    | _ => exact absurd trivial heapDriven

/-- Every set-up plan covers the network exactly once, and all planners plan the same links. -/
theorem plans_coverOnce {g : Graph} (wellFormed : g.WellFormed)
    (nonempty : g.adjacencyList.keys ≠ []) :
    (∀ planner : Planner, planner.Valid g → ∃ plan, planner.run g = some plan ∧
      CoversOnce g plan ∧ (planner.HeapDriven → EmittedAtLaterEnd g plan)) ∧
    ∀ planner planner' : Planner, planner.Valid g → planner'.Valid g → ∀ plan plan',
      planner.run g = some plan → planner'.run g = some plan' → plan.links = plan'.links := by
  constructor
  next => exact fun planner valid => planner_spec wellFormed nonempty valid
  next =>
    intro planner planner' valid valid' plan plan' run run'
    obtain ⟨found, same, covers, -⟩ := planner_spec wellFormed nonempty valid
    obtain ⟨found', same', covers', -⟩ := planner_spec wellFormed nonempty valid'
    obtain rfl := Option.some.inj (run.symm.trans same)
    obtain rfl := Option.some.inj (run'.symm.trans same')
    exact covers.links_eq covers'

theorem plans_coverOnce_sample :
    (∀ planner : Planner, planner.Valid sampleGraph → ∃ plan, planner.run sampleGraph = some plan ∧
      CoversOnce sampleGraph plan ∧
        (planner.HeapDriven → EmittedAtLaterEnd sampleGraph plan)) ∧
    ∀ planner planner' : Planner, planner.Valid sampleGraph → planner'.Valid sampleGraph →
      ∀ plan plan', planner.run sampleGraph = some plan → planner'.run sampleGraph = some plan' →
        plan.links = plan'.links :=
  plans_coverOnce sampleGraph_wellFormed (by decide)

end SplitNN.Agent
