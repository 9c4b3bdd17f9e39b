import Mathlib
import SplitNN.Agent.PlanCoverage
import SplitNN.Agent.NetworkSetup
import SplitNN.Coordinator.DanglingIds
import SplitNN.System.SubTopologyRoundTrip

set_option autoImplicit false

-- A whole deployment: the coordinator splits a topology, each agent reads its part, plans it and
-- sets it up, and together they carry the topology.
namespace SplitNN.System

open Agent Coordinator
open Multigraph (unordered)
open Text (intLimit byteLength)

section Loaded

theorem mem_keys_addDanglingEdges {graph : Graph} {records : List (Int × Int × Int × Int)}
    {node : Int} (listed : node ∈ (addDanglingEdges graph records).danglingEdgeList.keys) :
    node ∈ graph.danglingEdgeList.keys ∨ ∃ record ∈ records, record.1 = node := by
  induction records generalizing graph with
  | nil => exact .inl listed
  | cons record rest ih =>
    rcases ih listed with before | ⟨other, member, same⟩
    · rcases Dict.mem_keys_set.mp before with old | here
      · exact .inl old
      · exact .inr ⟨record, by simp, here.symm⟩
    · exact .inr ⟨other, List.mem_cons_of_mem _ member, same⟩

structure NumberedSubTopology.Sound (sub : NumberedSubTopology) : Prop extends sub.Fits where
  distinct : sub.nodes.Nodup
  inside : ∀ record ∈ sub.dangling, record.node ∈ sub.nodes

abbrev edgeInts (edge : Nat × Nat) : Int × Int := (edge.1, edge.2)

variable {sub : NumberedSubTopology}

theorem NumberedSubTopology.Sound.keys (sound : sub.Sound) :
    sub.graph.adjacencyList.keys = sub.nodes.map fun id : Nat => (id : Int) := by
  have distinct : (sub.nodes.map fun id : Nat => (id : Int)).Nodup :=
    sound.distinct.map Nat.cast_injective
  have start := Dict.keys_ofKeys distinct fun _ => ([] : List Int)
  rw [graph, addDanglingEdges_adjacencyList, addEdges_keys, start]
  intro edge member
  obtain ⟨⟨u, v⟩, listed, rfl⟩ := List.mem_map.mp member
  have ends := sound.ends _ listed
  simp only [start]
  exact ⟨List.mem_map_of_mem ends.1, List.mem_map_of_mem ends.2.1⟩

theorem NumberedSubTopology.Sound.count_neighbors (sound : sub.Sound) (u v : Int) :
    (sub.graph.neighbors u).count v = (unordered (sub.edges.map edgeInts)).count s(u, v) := by
  rw [Graph.neighbors, graph, addDanglingEdges_adjacencyList, addEdges_count, graph_start_getD]
  · simp
  · intro edge member same
    obtain ⟨⟨x, y⟩, listed, rfl⟩ := List.mem_map.mp member
    exact (sound.ends _ listed).2.2 (Int.ofNat.inj same)

theorem NumberedSubTopology.Sound.mem_neighbors (sound : sub.Sound) {u v : Int}
    (listed : v ∈ sub.graph.neighbors u) :
    ∃ edge ∈ sub.edges, s((edge.1 : Int), edge.2) = s(u, v) := by
  rw [← List.count_pos_iff, sound.count_neighbors, List.count_pos_iff] at listed
  obtain ⟨ints, member, same⟩ := List.mem_map.mp listed
  obtain ⟨edge, found, rfl⟩ := List.mem_map.mp member
  exact ⟨edge, found, same⟩

theorem NumberedSubTopology.Sound.wellFormed (sound : sub.Sound) : sub.graph.WellFormed := by
  have keys := sound.keys
  have known {u v : Int} (listed : v ∈ sub.graph.neighbors u) :
      v ∈ sub.graph.adjacencyList.keys ∧ u ≠ v := by
    obtain ⟨edge, found, same⟩ := sound.mem_neighbors listed
    have ends := sound.ends edge found
    have first : (edge.1 : Int) ∈ sub.graph.adjacencyList.keys :=
      keys ▸ List.mem_map_of_mem ends.1
    have second : (edge.2 : Int) ∈ sub.graph.adjacencyList.keys :=
      keys ▸ List.mem_map_of_mem ends.2.1
    have apart : (edge.1 : Int) ≠ edge.2 := fun same => ends.2.2 (Int.ofNat.inj same)
    rcases Sym2.eq_iff.mp same with ⟨rfl, rfl⟩ | ⟨rfl, rfl⟩
    · exact ⟨second, apart⟩
    · exact ⟨first, apart.symm⟩
  refine ⟨⟨Dict.keys_nodup _, fun u _ v listed => (known listed).1, fun u _ v _ => ?_⟩,
    fun u _ listed => (known listed).2 rfl, fun u listed => ?_⟩
  · rw [sound.count_neighbors, sound.count_neighbors, Sym2.eq_swap]
  · rcases mem_keys_addDanglingEdges listed with before | ⟨record, member, rfl⟩
    · rw [addEdges_danglingEdgeList] at before
      simp [newGraph] at before
    · obtain ⟨written, found, rfl⟩ := List.mem_map.mp member
      rw [keys]
      exact List.mem_map_of_mem (sound.inside written found)

theorem NumberedSubTopology.danglingLinks_perm (sub : NumberedSubTopology) :
    (sub.graph.danglingLinks sub.graph.danglingEdgeList.keys).Perm
      (sub.dangling.map DanglingRecord.read) := by
  have stored (u : Int) : sub.graph.dangling u =
      ((sub.dangling.map DanglingRecord.read).filter fun record =>
        decide (record.1 = u)).map Prod.snd := by
    rw [Graph.dangling, graph, addDanglingEdges_getD, addEdges_danglingEdgeList]
    simp [newGraph, Dict.getD]
  rw [List.perm_iff_count]
  rintro ⟨u, rest⟩
  have at_u : (sub.graph.danglingLinks sub.graph.danglingEdgeList.keys).count (u, rest) =
      (sub.graph.dangling u).count rest := by
    by_cases known : u ∈ sub.graph.danglingEdgeList.keys
    next =>
      rw [Graph.danglingLinks, LoopNest.count_flatMap_only (Dict.keys_nodup _) known]
      · exact List.count_map_of_injective _ _ (Prod.mk_right_injective u) rest
      · intro v _ found
        obtain ⟨_, _, same⟩ := List.mem_map.mp found
        exact congrArg Prod.fst same
    next =>
      rw [sub.graph.dangling_unlisted known, List.count_nil, List.count_eq_zero]
      intro listed
      obtain ⟨v, member, found⟩ := List.mem_flatMap.mp listed
      obtain ⟨_, _, same⟩ := List.mem_map.mp found
      exact known ((Prod.mk.inj same).1 ▸ member)
  have counted (records : List (Int × Int × Int × Int)) :
      ((records.filter fun record => decide (record.1 = u)).map Prod.snd).count rest =
        records.count (u, rest) := by
    induction records with
    | nil => rfl
    | cons record later ih =>
      obtain ⟨x, y⟩ := record
      by_cases here : x = u
      next =>
        subst here
        simp [ih, List.count_cons]
      next => simp [ih, here]
  rw [at_u, stored, counted]

end Loaded

section Agents

def linkOps (trace : List Op) : List PlannedLink := (linkPlacements trace).map Prod.snd

-- The kernel takes ids of 24 bits, and one VXLAN device of an id on a host.
def Refused (trace : List Op) (op : Op) : Prop :=
  ∃ (u v serverId : Int) (vxlanId : Nat), op = .setupLink (u, v, serverId, vxlanId) ∧
    (2 ^ 24 ≤ vxlanId ∨ ∃ x y i : Int, (x, y, i, (vxlanId : Int)) ∈ linkOps trace)

theorem linkOps_append (trace : List Op) (op : Op) : linkOps (trace ++ [op]) =
    linkOps trace ++ match op with
      | .setupLink edge => [edge]
      | _ => [] := by
  cases op with
  | setupLink edge => simp [linkOps, observe_link]
  | _ => simp [linkOps, linkPlacements, observe]

theorem linkOps_mono {trace more : List Op} (grown : trace <+: more) :
    linkOps trace <+: linkOps more := by
  obtain ⟨rest, rfl⟩ := grown
  induction rest using List.reverseRecOn with
  | nil => simp
  | append_singleton rest op ih =>
    rw [← List.append_assoc, linkOps_append]
    exact ih.trans (List.prefix_append _ _)

/-- The agent sets up the nodes of its part first, and then the links and tunnel ends of it. -/
structure Carries (sub : NumberedSubTopology) (trace : List Op) : Prop where
  nodes : ∃ (order : List Int) (rest : List Op),
    order.Perm (sub.nodes.map fun id : Nat => (id : Int)) ∧
    trace = order.map Op.setupNode ++ rest ∧ ∀ id, Op.setupNode id ∉ rest
  links : ∃ internal : List (Int × Int),
    (linkOps trace).Perm (internal.map internalLink ++ sub.dangling.map DanglingRecord.read) ∧
    (unordered internal).Perm (unordered (sub.edges.map edgeInts))

structure NumberedSubTopology.FitsKernel (sub : NumberedSubTopology) : Prop where
  distinct : (sub.dangling.map DanglingRecord.vxlanId).Nodup
  small : ∀ record ∈ sub.dangling, record.vxlanId < 2 ^ 24

theorem Carries.spared {sub : NumberedSubTopology} {trace : List Op} (carries : Carries sub trace)
    (fitsKernel : sub.FitsKernel) {fails : Failures}
    (succeeds : ∀ trace op, ¬ Refused trace op → fails trace op = false) : Spared fails trace := by
  intro before op after whole
  apply succeeds
  rintro ⟨u, v, serverId, vxlanId, rfl, refused⟩
  obtain ⟨internal, listed, -⟩ := carries.links
  have here : linkOps before ++ [(u, v, serverId, (vxlanId : Int))] <+: linkOps trace := by
    have step := linkOps_append before (.setupLink (u, v, serverId, (vxlanId : Int)))
    exact step ▸ linkOps_mono ⟨after, by simp [whole]⟩
  let tunnelId (link : PlannedLink) : Option Nat :=
    if link.2.2.2 = -1 then none else some link.2.2.2.toNat
  have ids : ((linkOps trace).filterMap tunnelId).Perm
      (sub.dangling.map DanglingRecord.vxlanId) := by
    have inside : (internal.map internalLink).filterMap tunnelId = [] := by
      simp [tunnelId, internalLink]
    have outside : (sub.dangling.map DanglingRecord.read).filterMap tunnelId =
        sub.dangling.map DanglingRecord.vxlanId := by
      rw [List.filterMap_map, ← List.filterMap_eq_map]
      refine List.filterMap_congr fun record _ => ?_
      have natural : (record.vxlanId : Int) ≠ -1 := by omega
      simp [tunnelId, DanglingRecord.read, natural]
    have same := listed.filterMap tunnelId
    rwa [List.filterMap_append, inside, outside, List.nil_append] at same
  have own : tunnelId (u, v, serverId, (vxlanId : Int)) = some vxlanId := by
    have natural : (vxlanId : Int) ≠ -1 := by omega
    simp [tunnelId, natural]
  have started : (linkOps before).filterMap tunnelId ++ [vxlanId] <+:
      (linkOps trace).filterMap tunnelId := by
    have mapped := here.filterMap tunnelId
    rwa [List.filterMap_append, List.filterMap_cons_some own, List.filterMap_nil] at mapped
  rcases refused with large | ⟨x, y, i, earlier⟩
  · have member : vxlanId ∈ sub.dangling.map DanglingRecord.vxlanId :=
      ids.mem_iff.mp (started.subset (by simp))
    obtain ⟨record, known, rfl⟩ := List.mem_map.mp member
    exact absurd (fitsKernel.small record known) (not_lt.mpr large)
  · have distinct := (ids.nodup_iff.mpr fitsKernel.distinct).sublist started.sublist
    have taken : vxlanId ∈ (linkOps before).filterMap tunnelId :=
      List.mem_filterMap.mpr ⟨_, earlier, own⟩
    exact (List.nodup_append.mp distinct).2.2 vxlanId taken vxlanId (List.mem_singleton_self _) rfl

end Agents

section Numbers

deriving instance DecidableEq for DanglingRecord

def nodeNum (name : NodeName) : Nat := name.toNat?.getD 0

theorem Canonical.nodeNum {nodes : List NodeName} (canonical : Canonical nodes) {node : NodeName}
    (member : node ∈ nodes) : nodeNum node < intLimit ∧ toString (nodeNum node) = node := by
  obtain ⟨id, fits, rfl⟩ := canonical node member
  have same : System.nodeNum (toString id) = id := by simp [System.nodeNum]
  rw [same]
  exact ⟨fits, rfl⟩

variable (node2serverid : Dict NodeName Nat) (ids : NodeName × NodeName → Nat)

variable {node2serverid ids} {nodes : List NodeName} {adjacencyList : AdjacencyList}

end Numbers

section Whole

variable {nodes : List NodeName} {adjacencyList : AdjacencyList}
  {node2serverid : Dict NodeName Nat} {ids : NodeName × NodeName → Nat}

section Parts

variable {serverNum : Nat} {T : Nat → List Op}

end Parts

end Whole

end SplitNN.System
