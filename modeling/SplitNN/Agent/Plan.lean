import Mathlib
import SplitNN.Agent.Graph

set_option autoImplicit false

namespace SplitNN.Agent

open Multigraph (unordered oriented)

-- Go's `[4]int`: two nodes and, for a dangling link, the peer's server and the VXLAN id.
abbrev PlannedLink := Int × Int × Int × Int

structure Plan where
  nodeOrder : List Int
  edgeOrder : List (List PlannedLink)
  curEdgeNumSeq : List Nat
  deriving DecidableEq

def internalLink (link : Int × Int) : PlannedLink := (link.1, link.2, -1, -1)

namespace Graph

def neighbors (g : Graph) (u : Int) : List Int := g.adjacencyList.getD u []

def dangling (g : Graph) (u : Int) : List (Int × Int × Int) := g.danglingEdgeList.getD u []

structure WellFormed (g : Graph) : Prop where
  undirected : Multigraph.Undirected g.neighbors g.adjacencyList.keys
  loopFree : Multigraph.LoopFree g.neighbors g.adjacencyList.keys
  danglingKnown : ∀ u ∈ g.danglingEdgeList.keys, u ∈ g.adjacencyList.keys

-- What the planners rest on; a dangling entry of an undeclared node is not looked at.
structure Loopless (g : Graph) : Prop where
  undirected : Multigraph.Undirected g.neighbors g.adjacencyList.keys
  loopFree : Multigraph.LoopFree g.neighbors g.adjacencyList.keys

theorem WellFormed.loopless {g : Graph} (wellFormed : g.WellFormed) : g.Loopless :=
  ⟨wellFormed.undirected, wellFormed.loopFree⟩

def danglingLinks (g : Graph) (order : List Int) : List PlannedLink :=
  order.flatMap fun u => (g.dangling u).map (Prod.mk u)

theorem totalLength_eq_sum {α : Type} (map : Dict Int (List α)) :
    totalLength map = (map.keys.map fun u => (map.getD u []).length).sum := by
  have values : map.values = map.keys.map fun u => map.getD u [] := by
    rw [Dict.values, map.entries_eq_keys_map []]
    simp
  simp [totalLength, values, Function.comp_def]

theorem neighbors_unlisted (g : Graph) {u : Int} (absent : u ∉ g.adjacencyList.keys) :
    g.neighbors u = [] := by
  simp [neighbors, Dict.getD, (g.adjacencyList.get?_eq_none u).mpr absent]

theorem dangling_unlisted (g : Graph) {u : Int} (absent : u ∉ g.danglingEdgeList.keys) :
    g.dangling u = [] := by
  simp [dangling, Dict.getD, (g.danglingEdgeList.get?_eq_none u).mpr absent]

theorem danglingLinks_perm {g : Graph} (wellFormed : g.WellFormed) {order : List Int}
    (nodes : order.Perm g.adjacencyList.keys) :
    (g.danglingLinks order).Perm (g.danglingLinks g.danglingEdgeList.keys) := by
  have relevant : g.danglingLinks order =
      g.danglingLinks (order.filter fun u => decide (u ∈ g.danglingEdgeList.keys)) := by
    unfold danglingLinks
    clear nodes
    induction order with
    | nil => rfl
    | cons u rest ih =>
      by_cases member : u ∈ g.danglingEdgeList.keys
      next => simp [member, ih]
      next => simp [member, ih, g.dangling_unlisted member]
  have distinct : order.Nodup := nodes.nodup_iff.mpr g.adjacencyList.keys_nodup
  rw [relevant]
  apply List.Perm.flatMap_right
  rw [List.perm_ext_iff_of_nodup (distinct.filter _) g.danglingEdgeList.keys_nodup]
  intro u
  simp only [List.mem_filter, decide_eq_true_eq, and_iff_right_iff_imp]
  exact fun member => nodes.mem_iff.mpr (wellFormed.danglingKnown u member)

theorem length_danglingLinks (g : Graph) :
    (g.danglingLinks g.danglingEdgeList.keys).length = totalLength g.danglingEdgeList := by
  rw [totalLength_eq_sum]
  simp [danglingLinks, List.length_flatMap, dangling]

theorem getEdgeNum_eq {g : Graph} (wellFormed : g.WellFormed) {gives : Int → Int → Bool}
    (orients : Multigraph.Orients gives g.adjacencyList.keys) :
    g.getEdgeNum = (oriented gives g.neighbors g.adjacencyList.keys).length +
      (g.danglingLinks g.danglingEdgeList.keys).length := by
  have handshake := Multigraph.sum_length_eq wellFormed.undirected wellFormed.loopFree orients
  have stored : totalLength g.adjacencyList =
      2 * (oriented gives g.neighbors g.adjacencyList.keys).length :=
    (totalLength_eq_sum g.adjacencyList).trans handshake
  rw [getEdgeNum, stored, length_danglingLinks]
  omega

end Graph

def runningTotals (edgeOrder : List (List PlannedLink)) : List Nat :=
  (List.range edgeOrder.length).map fun i => (edgeOrder.take (i + 1)).flatten.length

theorem runningTotals_append (edgeOrder : List (List PlannedLink)) (edgeSubset : List PlannedLink) :
    runningTotals (edgeOrder ++ [edgeSubset]) =
      runningTotals edgeOrder ++ [(edgeOrder ++ [edgeSubset]).flatten.length] := by
  have early : ∀ i ∈ List.range edgeOrder.length,
      ((edgeOrder ++ [edgeSubset]).take (i + 1)).flatten.length =
        (edgeOrder.take (i + 1)).flatten.length := by
    intro i member
    have bound := List.mem_range.mp member
    rw [List.take_append_of_le_length (by omega)]
  simp only [runningTotals, List.length_append, List.length_singleton, List.range_succ,
    List.map_append, List.map_cons, List.map_nil]
  rw [List.map_congr_left early, List.take_of_length_le (by simp)]

/-- The plan sets every node and every link of the graph up once. -/
structure CoversOnce (g : Graph) (plan : Plan) : Prop where
  nodes : plan.nodeOrder.Perm g.adjacencyList.keys
  steps : plan.edgeOrder.length = plan.nodeOrder.length
  totals : plan.curEdgeNumSeq = runningTotals plan.edgeOrder
  last : plan.curEdgeNumSeq.getLast? = some g.getEdgeNum
  links : ∃ internal : List (Int × Int),
    plan.edgeOrder.flatten.Perm
      (internal.map internalLink ++ g.danglingLinks g.danglingEdgeList.keys) ∧
    ∀ u v, (unordered internal).count s(u, v) = (g.neighbors u).count v

theorem CoversOnce.length_flatten {g : Graph} {plan : Plan} (covers : CoversOnce g plan) :
    plan.edgeOrder.flatten.length = g.getEdgeNum := by
  have last := covers.last
  rw [covers.totals] at last
  have some_step : plan.edgeOrder ≠ [] := by
    intro none
    simp [none, runningTotals] at last
  rw [← List.dropLast_concat_getLast some_step, runningTotals_append, List.getLast?_concat,
    List.dropLast_concat_getLast some_step] at last
  exact Option.some.inj last

-- An internal link without its orientation; a dangling link as it is.
def forgetEnds (link : PlannedLink) : Sym2 Int ⊕ PlannedLink :=
  if link.2.2 = (-1, -1) then .inl s(link.1, link.2.1) else .inr link

def Plan.links (plan : Plan) : Multiset (Sym2 Int ⊕ PlannedLink) :=
  (plan.edgeOrder.flatten.map forgetEnds : List (Sym2 Int ⊕ PlannedLink))

theorem CoversOnce.links_eq {g : Graph} {plan plan' : Plan} (covers : CoversOnce g plan)
    (covers' : CoversOnce g plan') : plan.links = plan'.links := by
  obtain ⟨internal, listed, counted⟩ := covers.links
  obtain ⟨internal', listed', counted'⟩ := covers'.links
  have same : (unordered internal).Perm (unordered internal') := by
    rw [List.perm_iff_count]
    intro edge
    induction edge with
    | _ u v => rw [counted, counted']
  have forget (links : List (Int × Int)) :
      (links.map internalLink).map forgetEnds = (unordered links).map Sum.inl := by
    simp [unordered, internalLink, forgetEnds, Function.comp_def]
  have total {order : List (List PlannedLink)} {links : List (Int × Int)}
      (found : order.flatten.Perm
        (links.map internalLink ++ g.danglingLinks g.danglingEdgeList.keys)) :
      (order.flatten.map forgetEnds).Perm ((unordered links).map Sum.inl ++
        (g.danglingLinks g.danglingEdgeList.keys).map forgetEnds) := by
    have mapped := found.map forgetEnds
    rwa [List.map_append, forget] at mapped
  apply Multiset.coe_eq_coe.mpr
  exact (total listed).trans (((same.map Sum.inl).append_right _).trans (total listed').symm)

theorem coversOnce_of_oriented {g : Graph} (wellFormed : g.WellFormed)
    (nonempty : g.adjacencyList.keys ≠ []) {plan : Plan} {gives : Int → Int → Bool}
    {order : List Int} (orients : Multigraph.Orients gives g.adjacencyList.keys)
    (visited : order.Perm g.adjacencyList.keys) (nodes : plan.nodeOrder.Perm g.adjacencyList.keys)
    (steps : plan.edgeOrder.length = plan.nodeOrder.length)
    (totals : plan.curEdgeNumSeq = runningTotals plan.edgeOrder)
    (listed : plan.edgeOrder.flatten.Perm ((oriented gives g.neighbors order).map internalLink ++
      g.danglingLinks g.danglingEdgeList.keys)) : CoversOnce g plan := by
  have graph := wellFormed.undirected.of_perm visited.symm
  have free := wellFormed.loopFree.of_perm visited.symm
  have turned : Multigraph.Orients gives order := fun u left v right =>
    orients u (visited.mem_iff.mp left) v (visited.mem_iff.mp right)
  have visits : (oriented gives g.neighbors order).Perm
      (oriented gives g.neighbors g.adjacencyList.keys) := List.Perm.flatMap_right _ visited
  constructor
  case nodes => exact nodes
  case steps => exact steps
  case totals => exact totals
  case last =>
    have some_step : plan.edgeOrder ≠ [] := by
      intro none
      rw [none, nodes.length_eq] at steps
      exact nonempty (List.length_eq_zero_iff.mp steps.symm)
    have whole := (List.dropLast_concat_getLast some_step).symm
    have total : plan.edgeOrder.flatten.length = g.getEdgeNum := by
      rw [Graph.getEdgeNum_eq wellFormed orients, listed.length_eq, List.length_append,
        List.length_map, visits.length_eq]
    rw [totals, whole, runningTotals_append, List.getLast?_concat, ← whole, total]
  case links =>
    refine ⟨oriented gives g.neighbors order, listed, ?_⟩
    intro u v
    rw [Multigraph.count_edges graph free turned]
    split
    next => rfl
    next absent =>
      rw [g.neighbors_unlisted fun member => absent (visited.mem_iff.mpr member)]
      rfl

section AlongOrder

def earlier (order : List Int) (v u : Int) : Bool := decide (order.idxOf u < order.idxOf v)

def Graph.stepLinks (g : Graph) (order : List Int) (v : Int) : List PlannedLink :=
  ((g.neighbors v).filter (earlier order v)).map (fun u => internalLink (v, u)) ++
    (g.dangling v).map (Prod.mk v)

/-- Each step brings the links to earlier nodes with their multiplicities, and nothing else. -/
def EmittedAtLaterEnd (g : Graph) (plan : Plan) : Prop :=
  ∀ (i : Nat) v, plan.nodeOrder[i]? = some v → ∃ ends : List Int,
    plan.edgeOrder[i]? = some (ends.map (fun u => internalLink (v, u)) ++
      (g.dangling v).map (Prod.mk v)) ∧
    ∀ u, ends.count u = if u ∈ plan.nodeOrder.take i then (g.neighbors v).count u else 0

theorem earlier_append {order : List Int} {v : Int} (member : v ∈ order) (w u : Int) :
    earlier (order ++ [w]) v u = earlier order v u := by
  have place := List.idxOf_lt_length_iff.mpr member
  rw [earlier, earlier, List.idxOf_append_of_mem member]
  by_cases listed : u ∈ order
  next => rw [List.idxOf_append_of_mem listed]
  next =>
    have last : order.idxOf u = order.length := List.idxOf_eq_length listed
    rw [List.idxOf_append_of_notMem listed, last, decide_eq_false (by omega),
      decide_eq_false (by omega)]

theorem earlier_last {order : List Int} {w u : Int} (fresh : w ∉ order) (different : u ≠ w) :
    earlier (order ++ [w]) w u = decide (u ∈ order ++ [w]) := by
  have place : (order ++ [w]).idxOf w = order.length := by
    simp [List.idxOf_append_of_notMem fresh]
  rw [earlier, place]
  by_cases listed : u ∈ order
  next =>
    have bound := List.idxOf_lt_length_iff.mpr listed
    simp [List.idxOf_append_of_mem listed, bound, listed]
  next => simp [listed, different]

theorem earlier_orients (order : List Int) : Multigraph.Orients (earlier order) order := by
  intro u left v right different
  have apart : order.idxOf u ≠ order.idxOf v :=
    fun same => different ((List.idxOf_inj left).mp same)
  simp only [earlier]
  rw [← decide_not]
  apply decide_eq_decide.mpr
  omega

theorem earlier_iff_take {order : List Int} (distinct : order.Nodup) {i : Nat} {v : Int}
    (found : order[i]? = some v) (u : Int) : earlier order v u = decide (u ∈ order.take i) := by
  obtain ⟨bound, rfl⟩ := List.getElem?_eq_some_iff.mp found
  rw [earlier, distinct.idxOf_getElem]
  apply decide_eq_decide.mpr
  by_cases listed : u ∈ order
  next => exact (List.mem_take_iff_idxOf_lt listed).symm
  next =>
    have last : order.idxOf u = order.length := List.idxOf_eq_length listed
    constructor
    next => omega
    next => exact fun member => absurd (List.mem_of_mem_take member) listed

theorem stepLinks_append {g : Graph} {order : List Int} {v : Int} (member : v ∈ order) (w : Int) :
    g.stepLinks (order ++ [w]) v = g.stepLinks order v := by
  have same : earlier (order ++ [w]) v = earlier order v := funext (earlier_append member w)
  rw [Graph.stepLinks, same, Graph.stepLinks]

theorem flatten_stepLinks (g : Graph) (order nodes : List Int) :
    (nodes.map (g.stepLinks order)).flatten.Perm
      ((oriented (earlier order) g.neighbors nodes).map internalLink ++ g.danglingLinks nodes) := by
  have split := List.flatMap_append_perm nodes
    (fun v => ((g.neighbors v).filter (earlier order v)).map fun u => internalLink (v, u))
    (fun v => (g.dangling v).map (Prod.mk v))
  have links : (oriented (earlier order) g.neighbors nodes).map internalLink =
      nodes.flatMap fun v =>
        ((g.neighbors v).filter (earlier order v)).map fun u => internalLink (v, u) := by
    simp [oriented, List.map_flatMap, Function.comp_def]
  rw [links]
  exact split.symm

theorem coversOnce_of_stepLinks {g : Graph} (wellFormed : g.WellFormed)
    (nonempty : g.adjacencyList.keys ≠ []) {plan : Plan}
    (nodes : plan.nodeOrder.Perm g.adjacencyList.keys)
    (steps : plan.edgeOrder = plan.nodeOrder.map (g.stepLinks plan.nodeOrder))
    (totals : plan.curEdgeNumSeq = runningTotals plan.edgeOrder) : CoversOnce g plan := by
  have orients : Multigraph.Orients (earlier plan.nodeOrder) g.adjacencyList.keys :=
    fun u left v right => earlier_orients plan.nodeOrder u (nodes.mem_iff.mpr left) v
      (nodes.mem_iff.mpr right)
  apply coversOnce_of_oriented wellFormed nonempty orients nodes nodes (by simp [steps]) totals
  rw [steps]
  exact (flatten_stepLinks g _ _).trans
    ((Graph.danglingLinks_perm wellFormed nodes).append_left _)

theorem emittedAtLaterEnd_of_stepLinks {g : Graph} {plan : Plan} (distinct : plan.nodeOrder.Nodup)
    (steps : plan.edgeOrder = plan.nodeOrder.map (g.stepLinks plan.nodeOrder)) :
    EmittedAtLaterEnd g plan := by
  intro i v found
  refine ⟨(g.neighbors v).filter (earlier plan.nodeOrder v), ?_, ?_⟩
  next => simp [steps, found, Graph.stepLinks]
  next =>
    intro u
    have selected := earlier_iff_take distinct found u
    by_cases before : u ∈ plan.nodeOrder.take i
    next => rw [List.count_filter (by simp [selected, before]), if_pos before]
    next =>
      rw [if_neg before, List.count_eq_zero]
      intro member
      have given := (List.mem_filter.mp member).2
      simp [selected, before] at given

end AlongOrder

-- A doubled link, a single one and a dangling entry.
def sampleGraph : Graph :=
  ⟨⟨[(1, [2, 2]), (2, [1, 1, 3]), (3, [2])], by decide⟩, ⟨[(2, [(7, 1, 4097)])], by decide⟩⟩

theorem sampleGraph_wellFormed : sampleGraph.WellFormed := by
  refine ⟨⟨by decide, by decide, by decide⟩, ?_, by decide⟩
  unfold Multigraph.LoopFree
  decide

end SplitNN.Agent
