import Mathlib
import SplitNN.Coordinator.PartitionVm
import SplitNN.Coordinator.SubTopology

set_option autoImplicit false

namespace SplitNN.Coordinator

structure PartitionStats where
  nodeCount : Nat
  edgeCount : Nat
  danglingEdges : Nat
deriving DecidableEq

inductive Counter where
  | nodeCount
  | edgeCount
  | danglingEdges
deriving DecidableEq

def PartitionStats.increment : Counter → PartitionStats → PartitionStats
  | .nodeCount, stats => { stats with nodeCount := stats.nodeCount + 1 }
  | .edgeCount, stats => { stats with edgeCount := stats.edgeCount + 1 }
  | .danglingEdges, stats => { stats with danglingEdges := stats.danglingEdges + 1 }

def countNode (node2serverid : Dict NodeName Nat) (partitionStats : Dict Nat PartitionStats)
    (node : NodeName) : Option (Dict Nat PartitionStats) := do
  let serverId ← node2serverid.get? node
  if serverId ∈ partitionStats.keys then
    partitionStats.modify? serverId (PartitionStats.increment .nodeCount)
  else return partitionStats.set serverId ⟨1, 0, 0⟩

def countLink (node2serverid : Dict NodeName Nat) (partitionStats : Dict Nat PartitionStats)
    (u v : NodeName) : Option (Dict Nat PartitionStats) := do
  let uServerId ← node2serverid.get? u
  let vServerId ← node2serverid.get? v
  if uServerId = vServerId then
    partitionStats.modify? uServerId (PartitionStats.increment .edgeCount)
  else
    -- Both increments of `edge_count` go to the server of `u`.
    let partitionStats ← partitionStats.modify? uServerId (PartitionStats.increment .edgeCount)
    let partitionStats ← partitionStats.modify? uServerId (PartitionStats.increment .edgeCount)
    let partitionStats ← partitionStats.modify? uServerId (PartitionStats.increment .danglingEdges)
    partitionStats.modify? vServerId (PartitionStats.increment .danglingEdges)

def initialStats (serverIds : List Nat) : Dict Nat PartitionStats :=
  serverIds.foldl (fun partitionStats serverId =>
    if serverId ∈ partitionStats.keys then partitionStats
    else partitionStats.set serverId ⟨0, 0, 0⟩) Dict.empty

def getPartitionStats (nodes : List NodeName) (adjacencyList : AdjacencyList)
    (node2serverid : Dict NodeName Nat) : Option (Dict Nat PartitionStats) := do
  let partitionStats ← nodes.foldlM (countNode node2serverid) (initialStats node2serverid.values)
  forEachNeighbor adjacencyList (fun partitionStats u v =>
    if u ≥ v then some partitionStats else countLink node2serverid partitionStats u v)
    nodes partitionStats

-- Python's `max` of nothing raises.
def maxEdgeCount (partitionStats : Dict Nat PartitionStats) : Option Nat :=
  (partitionStats.values.map PartitionStats.edgeCount).max?

def getEMaxDataForPmTopo (partGraph : PartGraph) (nodes : List NodeName)
    (adjacencyList : AdjacencyList) (pmCoreNum : Nat) : Option (Dict Nat Nat) :=
  (List.range' 1 pmCoreNum).foldlM (fun eMaxData n => do
    let node2serverid ← partitionGraphAcrossVm partGraph nodes adjacencyList n 0
    let partitionStats ← getPartitionStats nodes adjacencyList node2serverid
    let max ← maxEdgeCount partitionStats
    return eMaxData.set n max) Dict.empty

section Counting

variable (node2serverid : Dict NodeName Nat)

def serverOf (node : NodeName) : Nat := node2serverid.getD node 0

def linkIncrements (link : NodeName × NodeName) : List (Counter × Nat) :=
  if serverOf node2serverid link.1 = serverOf node2serverid link.2 then
    [(.edgeCount, serverOf node2serverid link.1)]
  else
    [(.edgeCount, serverOf node2serverid link.1), (.edgeCount, serverOf node2serverid link.1),
      (.danglingEdges, serverOf node2serverid link.1),
      (.danglingEdges, serverOf node2serverid link.2)]

def increments (nodes : List NodeName) (links : List (NodeName × NodeName)) :
    List (Counter × Nat) :=
  nodes.map (fun node => (.nodeCount, serverOf node2serverid node)) ++
    links.flatMap (linkIncrements node2serverid)

def inside (serverId : Nat) (link : NodeName × NodeName) : Bool :=
  decide (serverOf node2serverid link.1 = serverId) &&
    decide (serverOf node2serverid link.2 = serverId)

-- The link leaves the server from its smaller end.
def leaves (serverId : Nat) (link : NodeName × NodeName) : Bool :=
  decide (serverOf node2serverid link.1 = serverId) &&
    !decide (serverOf node2serverid link.2 = serverId)

def enters (serverId : Nat) (link : NodeName × NodeName) : Bool :=
  !decide (serverOf node2serverid link.1 = serverId) &&
    decide (serverOf node2serverid link.2 = serverId)

theorem increments_value (events : List (Counter × Nat)) (serverId : Nat)
    (stats : PartitionStats) :
    (events.filter fun event => decide (event.2 = serverId)).foldl
        (fun stats event => PartitionStats.increment event.1 stats) stats =
      ⟨stats.nodeCount + events.count (.nodeCount, serverId),
        stats.edgeCount + events.count (.edgeCount, serverId),
        stats.danglingEdges + events.count (.danglingEdges, serverId)⟩ := by
  induction events generalizing stats with
  | nil => simp
  | cons event rest ih =>
    cases event with
    | mk counter other =>
      by_cases same : other = serverId
      next =>
        subst same
        rw [List.filter_cons_of_pos (by simp), List.foldl_cons, ih]
        cases counter <;> simp [PartitionStats.increment] <;> omega
      next => simp [same, ih]

theorem count_nodeIncrements (nodes : List NodeName) (links : List (NodeName × NodeName))
    (serverId : Nat) :
    (increments node2serverid nodes links).count (.nodeCount, serverId) =
      nodes.countP fun node => decide (serverOf node2serverid node = serverId) := by
  have none : (links.flatMap (linkIncrements node2serverid)).count
      (.nodeCount, serverId) = 0 := by
    apply List.count_eq_zero.mpr
    intro member
    have ⟨link, _, event⟩ := List.mem_flatMap.mp member
    unfold linkIncrements at event
    split at event <;> simp at event
  rw [increments, List.count_append, none, List.count, List.countP_map, Nat.add_zero]
  apply List.countP_congr
  simp

theorem count_linkIncrements (nodes : List NodeName) (links : List (NodeName × NodeName))
    (serverId : Nat) (counter : Counter) (other : counter ≠ .nodeCount) :
    (increments node2serverid nodes links).count (counter, serverId) =
      (links.flatMap (linkIncrements node2serverid)).count (counter, serverId) := by
  have none : (nodes.map fun node => (Counter.nodeCount, serverOf node2serverid node)).count
      (counter, serverId) = 0 := by
    simp [List.count_eq_zero, Ne.symm other]
  rw [increments, List.count_append, none, Nat.zero_add]

theorem count_edgeIncrements (nodes : List NodeName) (links : List (NodeName × NodeName))
    (serverId : Nat) :
    (increments node2serverid nodes links).count (.edgeCount, serverId) =
      links.countP (inside node2serverid serverId) +
        2 * links.countP (leaves node2serverid serverId) := by
  rw [count_linkIncrements node2serverid nodes links serverId .edgeCount nofun]
  induction links with
  | nil => rfl
  | cons link rest ih =>
    rw [List.flatMap_cons, List.count_append, ih, List.countP_cons, List.countP_cons]
    by_cases together : serverOf node2serverid link.1 = serverOf node2serverid link.2
    next =>
      by_cases here : serverOf node2serverid link.2 = serverId <;>
        simp [linkIncrements, inside, leaves, together, here]
      omega
    next =>
      by_cases here : serverOf node2serverid link.1 = serverId
      next =>
        subst here
        simp [linkIncrements, inside, leaves, together, Ne.symm together]
        omega
      next => simp [linkIncrements, inside, leaves, together, here]

theorem count_danglingIncrements (nodes : List NodeName) (links : List (NodeName × NodeName))
    (serverId : Nat) :
    (increments node2serverid nodes links).count (.danglingEdges, serverId) =
      links.countP (leaves node2serverid serverId) +
        links.countP (enters node2serverid serverId) := by
  rw [count_linkIncrements node2serverid nodes links serverId .danglingEdges nofun]
  induction links with
  | nil => rfl
  | cons link rest ih =>
    rw [List.flatMap_cons, List.count_append, ih, List.countP_cons, List.countP_cons]
    by_cases left : serverOf node2serverid link.1 = serverId <;>
      by_cases right : serverOf node2serverid link.2 = serverId <;>
      by_cases together : serverOf node2serverid link.1 = serverOf node2serverid link.2 <;>
      simp_all [linkIncrements, leaves, enters] <;> omega

end Counting

section Stats

variable {nodes : List NodeName} {adjacencyList : AdjacencyList} {node2serverid : Dict NodeName Nat}

theorem serverOf_found (assigns : Assigns node2serverid nodes) {node : NodeName}
    (member : node ∈ nodes) :
    node2serverid.get? node = some (serverOf node2serverid node) := by
  have ⟨serverId, found⟩ := assigns.found member
  rw [serverOf, Dict.getD, found]
  rfl

theorem serverOf_mem_values (assigns : Assigns node2serverid nodes) {node : NodeName}
    (member : node ∈ nodes) : serverOf node2serverid node ∈ node2serverid.values :=
  (node2serverid.mem_values _).mpr ⟨node, serverOf_found assigns member⟩

theorem initialStats_get? (serverIds : List Nat) (serverId : Nat) :
    (initialStats serverIds).get? serverId =
      if serverId ∈ serverIds then some ⟨0, 0, 0⟩ else none := by
  have keys : serverId ∈ (initialStats serverIds).keys ↔ serverId ∈ serverIds := by
    induction serverIds using List.reverseRecOn with
    | nil => simp [initialStats]
    | append_singleton serverIds last ih =>
      rw [initialStats, List.foldl_append]
      exact Dict.mem_keys_ensure.trans (by simp [← ih, initialStats])
  have zeros : (initialStats serverIds).getD serverId ⟨0, 0, 0⟩ = ⟨0, 0, 0⟩ := by
    clear keys
    induction serverIds using List.reverseRecOn with
    | nil => rfl
    | append_singleton serverIds last ih =>
      rw [initialStats, List.foldl_append]
      exact (Dict.getD_ensure _ last serverId _).trans ih
  split
  next member =>
    obtain ⟨stats, found⟩ := (initialStats serverIds).exists_get? (keys.mpr member)
    rw [Dict.getD, found, Option.getD_some] at zeros
    rw [found, zeros]
  next absent => exact (Dict.get?_eq_none _ _).mpr (mt keys.mp absent)

theorem countNodes_run (assigns : Assigns node2serverid nodes) (visited : List NodeName)
    (listed : ∀ node ∈ visited, node ∈ nodes) (partitionStats : Dict Nat PartitionStats)
    (known : ∀ serverId ∈ node2serverid.values, serverId ∈ partitionStats.keys) :
    visited.foldlM (countNode node2serverid) partitionStats =
      (visited.map fun node => (Counter.nodeCount, serverOf node2serverid node)).foldlM
        (fun partitionStats event =>
          partitionStats.modify? event.2 (PartitionStats.increment event.1)) partitionStats := by
  induction visited generalizing partitionStats with
  | nil => rfl
  | cons node rest ih =>
    have member := listed node (by simp)
    have present := known _ (serverOf_mem_values assigns member)
    have ⟨counted, run, keys, _⟩ :=
      Dict.modify?_found present (PartitionStats.increment .nodeCount)
    have later := ih (fun other member => listed other (List.mem_cons_of_mem node member)) counted
      (by rwa [keys])
    rw [List.map_cons, List.foldlM_cons, List.foldlM_cons, run]
    simp only [countNode, serverOf_found assigns member, Option.bind_eq_bind, Option.bind_some,
      if_pos present, run]
    exact later

theorem countLink_eq {u v : NodeName}
    (uServer : node2serverid.get? u = some (serverOf node2serverid u))
    (vServer : node2serverid.get? v = some (serverOf node2serverid v))
    (partitionStats : Dict Nat PartitionStats) :
    countLink node2serverid partitionStats u v =
      (linkIncrements node2serverid (u, v)).foldlM (fun partitionStats event =>
        partitionStats.modify? event.2 (PartitionStats.increment event.1)) partitionStats := by
  by_cases together : serverOf node2serverid u = serverOf node2serverid v
  next => simp [countLink, linkIncrements, uServer, vServer, together]
  next => simp [countLink, linkIncrements, uServer, vServer, together]

theorem countLinks_run (links : List (NodeName × NodeName))
    (servers : ∀ link ∈ links, node2serverid.get? link.1 = some (serverOf node2serverid link.1) ∧
      node2serverid.get? link.2 = some (serverOf node2serverid link.2))
    (partitionStats : Dict Nat PartitionStats) :
    links.foldlM (fun partitionStats link =>
        countLink node2serverid partitionStats link.1 link.2) partitionStats =
      (links.flatMap (linkIncrements node2serverid)).foldlM (fun partitionStats event =>
        partitionStats.modify? event.2 (PartitionStats.increment event.1)) partitionStats := by
  induction links generalizing partitionStats with
  | nil => rfl
  | cons link rest ih =>
    have ends := servers link (by simp)
    have later := ih fun other member => servers other (List.mem_cons_of_mem link member)
    rw [List.foldlM_cons, List.flatMap_cons, List.foldlM_append, countLink_eq ends.1 ends.2]
    congr 1
    funext partitionStats
    exact later partitionStats

theorem forwardLinks_servers (topology : IsTopology nodes adjacencyList)
    (assigns : Assigns node2serverid nodes) {link : NodeName × NodeName}
    (member : link ∈ forwardLinks nodes adjacencyList) :
    node2serverid.get? link.1 = some (serverOf node2serverid link.1) ∧
      node2serverid.get? link.2 = some (serverOf node2serverid link.2) := by
  have closed := forwardLinks_closed topology member
  exact ⟨serverOf_found assigns closed.1, serverOf_found assigns closed.2.1⟩

theorem getPartitionStats_spec (topology : IsTopology nodes adjacencyList)
    (assigns : Assigns node2serverid nodes) :
    ∃ partitionStats, getPartitionStats nodes adjacencyList node2serverid = some partitionStats ∧
      ∀ serverId, partitionStats.get? serverId =
        if serverId ∈ node2serverid.values then
          some ⟨nodes.countP fun node => decide (serverOf node2serverid node = serverId),
            (forwardLinks nodes adjacencyList).countP (inside node2serverid serverId) +
              2 * (forwardLinks nodes adjacencyList).countP (leaves node2serverid serverId),
            (forwardLinks nodes adjacencyList).countP (leaves node2serverid serverId) +
              (forwardLinks nodes adjacencyList).countP (enters node2serverid serverId)⟩
        else none := by
  let links := forwardLinks nodes adjacencyList
  have known (serverId : Nat) (owner : serverId ∈ node2serverid.values) :
      serverId ∈ (initialStats node2serverid.values).keys := by
    rw [← Dict.get?_isSome, initialStats_get?, if_pos owner]
    rfl
  have servers (link : NodeName × NodeName) (member : link ∈ links) :=
    forwardLinks_servers topology assigns member
  have ⟨partitionStats, run, _, values⟩ := Dict.foldlM_modify? PartitionStats.increment
    (increments node2serverid nodes links) (initialStats node2serverid.values) (by
      intro event member
      apply known
      cases List.mem_append.mp member with
      | inl isNode =>
        have ⟨node, inNodes, same⟩ := List.mem_map.mp isNode
        exact same ▸ serverOf_mem_values assigns inNodes
      | inr isLink =>
        have ⟨link, inLinks, isEvent⟩ := List.mem_flatMap.mp isLink
        have closed := forwardLinks_closed topology inLinks
        have left := serverOf_mem_values assigns closed.1
        have right := serverOf_mem_values assigns closed.2.1
        unfold linkIncrements at isEvent
        split at isEvent
        next =>
          cases List.mem_singleton.mp isEvent
          exact left
        next =>
          simp only [List.mem_cons, List.not_mem_nil, or_false] at isEvent
          rcases isEvent with same | same | same | same
          · exact same ▸ left
          · exact same ▸ left
          · exact same ▸ left
          · exact same ▸ right)
  refine ⟨partitionStats, ?_, fun serverId => ?_⟩
  · rw [increments, List.foldlM_append, ← countNodes_run assigns nodes (fun _ member => member)
      _ known] at run
    have ⟨counted, nodesRun, linksRun⟩ := Option.bind_eq_some_iff.mp run
    rw [← countLinks_run links servers] at linksRun
    rw [getPartitionStats]
    refine Option.bind_eq_some_iff.mpr ⟨counted, nodesRun, ?_⟩
    rw [forEachNeighbor_forward topology.listed]
    exact linksRun
  · rw [values, initialStats_get?]
    by_cases owner : serverId ∈ node2serverid.values
    next =>
      rw [if_pos owner, if_pos owner, Option.map_some, increments_value, count_nodeIncrements,
        count_edgeIncrements, count_danglingIncrements]
      simp [links]
    next => rw [if_neg owner, if_neg owner, Option.map_none]

end Stats

section LinkLines

variable (node2serverid : Dict NodeName Nat)

-- The link lines of a sub-topology's file: internal links and dangling records.
def SubTopology.linkLines (sub : SubTopology) : Nat := sub.edges.length + sub.dangling.length

def touches (serverId : Nat) (link : NodeName × NodeName) : Bool :=
  decide (serverOf node2serverid link.1 = serverId ∨ serverOf node2serverid link.2 = serverId)

def crosses (serverId : Nat) (link : NodeName × NodeName) : Bool :=
  decide (¬ (serverOf node2serverid link.1 = serverId ↔ serverOf node2serverid link.2 = serverId))

theorem countP_touches (links : List (NodeName × NodeName)) (serverId : Nat) :
    links.countP (touches node2serverid serverId) =
      links.countP (inside node2serverid serverId) +
        links.countP (leaves node2serverid serverId) +
        links.countP (enters node2serverid serverId) := by
  induction links with
  | nil => rfl
  | cons link rest ih =>
    simp only [List.countP_cons, ih]
    by_cases left : serverOf node2serverid link.1 = serverId <;>
      by_cases right : serverOf node2serverid link.2 = serverId <;>
      simp [touches, inside, leaves, enters, left, right] <;> omega

theorem countP_crosses (links : List (NodeName × NodeName)) (serverId : Nat) :
    links.countP (crosses node2serverid serverId) =
      links.countP (leaves node2serverid serverId) +
        links.countP (enters node2serverid serverId) := by
  induction links with
  | nil => rfl
  | cons link rest ih =>
    simp only [List.countP_cons, ih]
    by_cases left : serverOf node2serverid link.1 = serverId <;>
      by_cases right : serverOf node2serverid link.2 = serverId <;>
      simp [crosses, leaves, enters, left, right] <;> omega

variable {node2serverid}

theorem linkLines_subTopologyOf (ids : NodeName × NodeName → Nat)
    (links : List (NodeName × NodeName))
    (servers : ∀ link ∈ links, node2serverid.get? link.1 = some (serverOf node2serverid link.1) ∧
      node2serverid.get? link.2 = some (serverOf node2serverid link.2)) (serverId : Nat) :
    (subTopologyOf node2serverid ids links serverId).linkLines =
      links.countP (touches node2serverid serverId) := by
  induction links with
  | nil => rfl
  | cons link rest ih =>
    have ends := servers link (by simp)
    have later := ih fun other member => servers other (List.mem_cons_of_mem link member)
    simp only [SubTopology.linkLines, subTopologyOf, List.filter_cons, List.flatMap_cons,
      List.length_append] at later ⊢
    rw [List.countP_cons, ← later]
    by_cases left : serverOf node2serverid link.1 = serverId <;>
      by_cases right : serverOf node2serverid link.2 = serverId <;>
      simp [touches, internalOn, danglingOn, danglingAt, ends.1, ends.2, left, right] <;> omega

theorem max?_eq_of_zeros {xs ys : List Nat} (nonEmpty : xs ≠ [])
    (included : ∀ x ∈ xs, x ∈ ys) (rest : ∀ y ∈ ys, y ∈ xs ∨ y = 0) : xs.max? = ys.max? := by
  have ⟨largest, found⟩ : ∃ largest, xs.max? = some largest :=
    Option.isSome_iff_exists.mp (by
      rw [List.isSome_max?_iff]
      exact nonEmpty)
  have ⟨member, bound⟩ := List.max?_eq_some_iff.mp found
  rw [found, eq_comm, List.max?_eq_some_iff]
  refine ⟨included largest member, fun y isY => ?_⟩
  cases rest y isY with
  | inl shared => exact bound y shared
  | inr zero => omega

end LinkLines

section Prediction

variable {nodes : List NodeName} {adjacencyList : AdjacencyList} {node2serverid : Dict NodeName Nat}
  {n : Nat}

/-- The statistics predict what each server builds; `forwardLinks` has every link once. -/
structure Predicts (nodes : List NodeName) (adjacencyList : AdjacencyList)
    (node2serverid : Dict NodeName Nat) (partitionStats : Dict Nat PartitionStats)
    (subgraphs : Dict Nat SubTopology) : Prop where
  servers : ∀ serverId ∈ node2serverid.values, ∃ stats sub,
    partitionStats.get? serverId = some stats ∧ subgraphs.get? serverId = some sub ∧
    stats.nodeCount = nodes.countP (fun node => decide (serverOf node2serverid node = serverId)) ∧
    stats.danglingEdges =
      (forwardLinks nodes adjacencyList).countP (crosses node2serverid serverId) ∧
    stats.edgeCount =
      (forwardLinks nodes adjacencyList).countP (touches node2serverid serverId) ∧
    stats.edgeCount = sub.linkLines
  largest : maxEdgeCount partitionStats = (subgraphs.values.map SubTopology.linkLines).max?

def CountsPredicted (nodes : List NodeName) (adjacencyList : AdjacencyList)
    (node2serverid : Dict NodeName Nat) (n : Nat) : Prop :=
  ∃ partitionStats subgraphs,
    getPartitionStats nodes adjacencyList node2serverid = some partitionStats ∧
    collectSubtopos nodes adjacencyList node2serverid n = some subgraphs ∧
    Predicts nodes adjacencyList node2serverid partitionStats subgraphs

/-- As many cut links have their smaller end on the server as have their larger one there. -/
def EvenlyCut (nodes : List NodeName) (adjacencyList : AdjacencyList)
    (node2serverid : Dict NodeName Nat) : Prop :=
  ∀ serverId ∈ node2serverid.values,
    (forwardLinks nodes adjacencyList).countP (leaves node2serverid serverId) =
      (forwardLinks nodes adjacencyList).countP (enters node2serverid serverId)

theorem subgraph_linkLines (topology : IsTopology nodes adjacencyList)
    (assigns : Assigns node2serverid nodes)
    (inRange : ∀ node serverId, node2serverid.get? node = some serverId → serverId < n) :
    ∃ subgraphs, collectSubtopos nodes adjacencyList node2serverid n = some subgraphs ∧
      (∀ serverId, serverId ∈ subgraphs.keys ↔ serverId < n) ∧
      ∀ serverId sub, subgraphs.get? serverId = some sub → sub.linkLines =
        (forwardLinks nodes adjacencyList).countP (touches node2serverid serverId) := by
  have ⟨subgraphs, ids, run, values, _⟩ :=
    collectSubtopos_spec node2serverid topology assigns inRange
  refine ⟨subgraphs, run, ?_, ?_⟩
  · intro serverId
    rw [← Dict.get?_isSome, values]
    by_cases inside : serverId < n <;> simp [inside]
  · intro serverId sub found
    rw [values] at found
    split at found
    next =>
      cases found
      exact linkLines_subTopologyOf ids _
        (fun link member => forwardLinks_servers topology assigns member) serverId
    next => cases found

theorem touches_unowned (topology : IsTopology nodes adjacencyList)
    (assigns : Assigns node2serverid nodes) {serverId : Nat}
    (unowned : serverId ∉ node2serverid.values) :
    (forwardLinks nodes adjacencyList).countP (touches node2serverid serverId) = 0 := by
  rw [List.countP_eq_zero]
  intro link member touched
  have closed := forwardLinks_closed topology member
  cases of_decide_eq_true touched with
  | inl left => exact unowned (left ▸ serverOf_mem_values assigns closed.1)
  | inr right => exact unowned (right ▸ serverOf_mem_values assigns closed.2.1)

theorem Predicts.evenlyCut (topology : IsTopology nodes adjacencyList)
    (assigns : Assigns node2serverid nodes) {partitionStats : Dict Nat PartitionStats}
    {subgraphs : Dict Nat SubTopology}
    (run : getPartitionStats nodes adjacencyList node2serverid = some partitionStats)
    (predicts : Predicts nodes adjacencyList node2serverid partitionStats subgraphs) :
    EvenlyCut nodes adjacencyList node2serverid := by
  intro serverId owner
  have ⟨made, madeRun, values⟩ := getPartitionStats_spec topology assigns
  cases Option.some.inj (madeRun.symm.trans run)
  have ⟨stats, _, found, _, _, _, touched, _⟩ := predicts.servers serverId owner
  rw [values, if_pos owner] at found
  cases found
  simp only [countP_touches] at touched
  omega

theorem countsPredicted_of_evenlyCut (topology : IsTopology nodes adjacencyList)
    (assigns : Assigns node2serverid nodes)
    (inRange : ∀ node serverId, node2serverid.get? node = some serverId → serverId < n)
    (nonEmpty : nodes ≠ []) (even : EvenlyCut nodes adjacencyList node2serverid) :
    CountsPredicted nodes adjacencyList node2serverid n := by
  have ⟨partitionStats, run, values⟩ := getPartitionStats_spec topology assigns
  have ⟨subgraphs, subgraphsRun, keys, lines⟩ := subgraph_linkLines topology assigns inRange
  have edges {serverId : Nat} {stats : PartitionStats}
      (found : partitionStats.get? serverId = some stats) : stats.edgeCount =
        (forwardLinks nodes adjacencyList).countP (touches node2serverid serverId) := by
    rw [values] at found
    split at found
    next owner =>
      cases found
      have same := even serverId owner
      simp only [countP_touches]
      omega
    next => cases found
  have subgraphAt {serverId : Nat} (owner : serverId ∈ node2serverid.values) :
      ∃ sub, subgraphs.get? serverId = some sub := by
    have ⟨node, found⟩ := (node2serverid.mem_values serverId).mp owner
    exact subgraphs.exists_get? ((keys serverId).mpr (inRange node serverId found))
  refine ⟨partitionStats, subgraphs, run, subgraphsRun, ?_, ?_⟩
  · intro serverId owner
    have ⟨sub, found⟩ := subgraphAt owner
    have stored := values serverId
    rw [if_pos owner] at stored
    exact ⟨_, sub, stored, found, rfl, (countP_crosses node2serverid _ serverId).symm,
      edges stored, (edges stored).trans (lines serverId sub found).symm⟩
  · rw [maxEdgeCount]
    apply max?_eq_of_zeros
    · have ⟨node, member⟩ := List.exists_mem_of_ne_nil nodes nonEmpty
      have stored := values (serverOf node2serverid node)
      rw [if_pos (serverOf_mem_values assigns member)] at stored
      have listed := (partitionStats.mem_values _).mpr ⟨_, stored⟩
      exact List.ne_nil_of_mem (List.mem_map_of_mem listed)
    · intro count member
      have ⟨stats, listed, same⟩ := List.mem_map.mp member
      have ⟨serverId, stored⟩ := (partitionStats.mem_values stats).mp listed
      have owner : serverId ∈ node2serverid.values := by
        by_contra unowned
        rw [values, if_neg unowned] at stored
        cases stored
      have ⟨sub, found⟩ := subgraphAt owner
      rw [← same, edges stored, ← lines serverId sub found]
      exact List.mem_map_of_mem ((subgraphs.mem_values sub).mpr ⟨serverId, found⟩)
    · intro count member
      have ⟨sub, listed, same⟩ := List.mem_map.mp member
      have ⟨serverId, found⟩ := (subgraphs.mem_values sub).mp listed
      rw [← same, lines serverId sub found]
      by_cases owner : serverId ∈ node2serverid.values
      next =>
        have stored := values serverId
        rw [if_pos owner] at stored
        left
        rw [← edges stored]
        exact List.mem_map_of_mem ((partitionStats.mem_values _).mpr ⟨serverId, stored⟩)
      next => exact Or.inr (touches_unowned topology assigns owner)

theorem Predicts.nonEmpty (assigns : Assigns node2serverid nodes) (positive : 0 < n)
    {partitionStats : Dict Nat PartitionStats} {subgraphs : Dict Nat SubTopology}
    (topology : IsTopology nodes adjacencyList)
    (inRange : ∀ node serverId, node2serverid.get? node = some serverId → serverId < n)
    (run : getPartitionStats nodes adjacencyList node2serverid = some partitionStats)
    (subgraphsRun : collectSubtopos nodes adjacencyList node2serverid n = some subgraphs)
    (predicts : Predicts nodes adjacencyList node2serverid partitionStats subgraphs) :
    nodes ≠ [] := by
  intro empty
  have ⟨made, madeRun, values⟩ := getPartitionStats_spec topology assigns
  cases Option.some.inj (madeRun.symm.trans run)
  have ⟨split, splitRun, keys, _⟩ := subgraph_linkLines topology assigns inRange
  cases Option.some.inj (splitRun.symm.trans subgraphsRun)
  have none : maxEdgeCount partitionStats = none := by
    rw [maxEdgeCount, List.max?_eq_none_iff, List.map_eq_nil_iff, List.eq_nil_iff_forall_not_mem]
    intro stats listed
    have ⟨serverId, stored⟩ := (partitionStats.mem_values stats).mp listed
    rw [values] at stored
    split at stored
    next owner =>
      have ⟨node, found⟩ := (node2serverid.mem_values serverId).mp owner
      have member := assigns.member found
      simp [empty] at member
    next => cases stored
  have ⟨sub, found⟩ := subgraphs.exists_get? ((keys 0).mpr positive)
  have largest := predicts.largest
  rw [none, eq_comm, List.max?_eq_none_iff, List.map_eq_nil_iff] at largest
  have listed := (subgraphs.mem_values sub).mpr ⟨0, found⟩
  simp [largest] at listed

theorem maxEdgeCount_found (topology : IsTopology nodes adjacencyList)
    (assigns : Assigns node2serverid nodes) (nonEmpty : nodes ≠ [])
    {partitionStats : Dict Nat PartitionStats}
    (run : getPartitionStats nodes adjacencyList node2serverid = some partitionStats) :
    ∃ max, maxEdgeCount partitionStats = some max := by
  have ⟨made, madeRun, values⟩ := getPartitionStats_spec topology assigns
  cases Option.some.inj (madeRun.symm.trans run)
  have ⟨node, member⟩ := List.exists_mem_of_ne_nil nodes nonEmpty
  have stored := values (serverOf node2serverid node)
  rw [if_pos (serverOf_mem_values assigns member)] at stored
  have listed := (partitionStats.mem_values _).mpr ⟨_, stored⟩
  rw [← Option.isSome_iff_exists, maxEdgeCount, List.isSome_max?_iff]
  exact List.ne_nil_of_mem (List.mem_map_of_mem listed)

-- The maximum for `n` servers is taken over the partition that METIS makes for them.
def LargestPredicted (partGraph : PartGraph) (nodes : List NodeName)
    (adjacencyList : AdjacencyList) (n : Nat) (eMax : Option Nat) : Prop :=
  ∃ node2serverid partitionStats subgraphs,
    partitionGraphAcrossVm partGraph nodes adjacencyList n 0 = some node2serverid ∧
    getPartitionStats nodes adjacencyList node2serverid = some partitionStats ∧
    collectSubtopos nodes adjacencyList node2serverid n = some subgraphs ∧
    eMax = maxEdgeCount partitionStats ∧
    (EvenlyCut nodes adjacencyList node2serverid →
      eMax = (subgraphs.values.map SubTopology.linkLines).max?)

theorem largestPredicted {partGraph : PartGraph} (metis : partGraph.Valid)
    (topology : IsTopology nodes adjacencyList) (nonEmpty : nodes ≠ []) (positive : 1 ≤ n) :
    ∃ node2serverid partitionStats max,
      partitionGraphAcrossVm partGraph nodes adjacencyList n 0 = some node2serverid ∧
      getPartitionStats nodes adjacencyList node2serverid = some partitionStats ∧
      maxEdgeCount partitionStats = some max ∧
      LargestPredicted partGraph nodes adjacencyList n (some max) := by
  have ⟨node2serverid, partitioned, assigns, shifted⟩ :=
    partitionGraphAcrossVm_spec metis topology.isGraph positive 0
  have inRange (node : NodeName) (serverId : Nat)
      (stored : node2serverid.get? node = some serverId) : serverId < n := by
    simpa using (shifted node serverId stored).2
  have ⟨partitionStats, run, _⟩ := getPartitionStats_spec topology assigns
  have ⟨max, found⟩ := maxEdgeCount_found topology assigns nonEmpty run
  have ⟨subgraphs, subgraphsRun, _⟩ := subgraph_linkLines topology assigns inRange
  refine ⟨node2serverid, partitionStats, max, partitioned, run, found, node2serverid,
    partitionStats, subgraphs, partitioned, run, subgraphsRun, found.symm, fun even => ?_⟩
  have ⟨made, split, madeRun, splitRun, predicts⟩ :=
    countsPredicted_of_evenlyCut topology assigns inRange nonEmpty even
  cases Option.some.inj (madeRun.symm.trans run)
  cases Option.some.inj (splitRun.symm.trans subgraphsRun)
  exact found.symm.trans predicts.largest

theorem getEMaxDataForPmTopo_spec {partGraph : PartGraph} (metis : partGraph.Valid)
    (topology : IsTopology nodes adjacencyList) (nonEmpty : nodes ≠ []) (pmCoreNum : Nat) :
    ∃ eMaxData, getEMaxDataForPmTopo partGraph nodes adjacencyList pmCoreNum = some eMaxData ∧
      ∀ n, 1 ≤ n → n ≤ pmCoreNum →
        LargestPredicted partGraph nodes adjacencyList n (eMaxData.get? n) := by
  let eMax (n : Nat) : Option Nat := do
    let node2serverid ← partitionGraphAcrossVm partGraph nodes adjacencyList n 0
    let partitionStats ← getPartitionStats nodes adjacencyList node2serverid
    maxEdgeCount partitionStats
  have entry (n : Nat) (positive : 1 ≤ n) : eMax n = some ((eMax n).getD 0) ∧
      LargestPredicted partGraph nodes adjacencyList n (eMax n) := by
    have ⟨node2serverid, partitionStats, max, partitioned, run, found, predicted⟩ :=
      largestPredicted metis topology nonEmpty positive
    have value : eMax n = some max := by
      simp [eMax, partitioned, run, found]
    exact value ▸ ⟨rfl, predicted⟩
  have run := Dict.foldlM_set (List.range' 1 pmCoreNum) (fun n member =>
    (entry n (List.mem_range'_1.mp member).1).1) Dict.empty
  refine ⟨Dict.ofKeys (List.range' 1 pmCoreNum) fun n => (eMax n).getD 0, ?_, ?_⟩
  · rw [getEMaxDataForPmTopo, Dict.ofKeys, ← run]
    simp only [eMax, bind_assoc]
  · intro n low high
    rw [Dict.get?_ofKeys, if_pos (List.mem_range'_1.mpr (by omega)), ← (entry n low).1]
    exact (entry n low).2

end Prediction

/-- The optimizer's counts are right exactly for the partitions that cut evenly. -/
theorem getPartitionStats_predicts_iff {nodes : List NodeName} {adjacencyList : AdjacencyList}
    (topology : IsTopology nodes adjacencyList) :
    (∀ node2serverid n, Assigns node2serverid nodes → 0 < n →
      (∀ node serverId, node2serverid.get? node = some serverId → serverId < n) →
      (CountsPredicted nodes adjacencyList node2serverid n ↔
        nodes ≠ [] ∧ EvenlyCut nodes adjacencyList node2serverid)) ∧
    ∀ partGraph : PartGraph, partGraph.Valid → nodes ≠ [] → ∀ pmCoreNum, ∃ eMaxData,
      getEMaxDataForPmTopo partGraph nodes adjacencyList pmCoreNum = some eMaxData ∧
      ∀ n, 1 ≤ n → n ≤ pmCoreNum →
        LargestPredicted partGraph nodes adjacencyList n (eMaxData.get? n) := by
  constructor
  · intro node2serverid n assigns positive inRange
    constructor
    · intro ⟨partitionStats, subgraphs, run, subgraphsRun, predicts⟩
      exact ⟨predicts.nonEmpty assigns positive topology inRange run subgraphsRun,
        predicts.evenlyCut topology assigns run⟩
    · intro ⟨nonEmpty, even⟩
      exact countsPredicted_of_evenlyCut topology assigns inRange nonEmpty even
  · intro partGraph metis nonEmpty pmCoreNum
    exact getEMaxDataForPmTopo_spec metis topology nonEmpty pmCoreNum

theorem getPartitionStats_predicts_iff_sample :
    (∀ node2serverid n, Assigns node2serverid sampleNodes → 0 < n →
      (∀ node serverId, node2serverid.get? node = some serverId → serverId < n) →
      (CountsPredicted sampleNodes sampleAdjacency node2serverid n ↔
        sampleNodes ≠ [] ∧ EvenlyCut sampleNodes sampleAdjacency node2serverid)) ∧
    ∀ partGraph : PartGraph, partGraph.Valid → sampleNodes ≠ [] → ∀ pmCoreNum, ∃ eMaxData,
      getEMaxDataForPmTopo partGraph sampleNodes sampleAdjacency pmCoreNum = some eMaxData ∧
      ∀ n, 1 ≤ n → n ≤ pmCoreNum →
        LargestPredicted partGraph sampleNodes sampleAdjacency n (eMaxData.get? n) :=
  getPartitionStats_predicts_iff sample_isTopology

-- The link from "2" to "3" is counted twice on the first server and never on the second.
theorem sample_counts_not_predicted :
    ¬ CountsPredicted sampleNodes sampleAdjacency sampleServers 2 := by
  intro ⟨partitionStats, subgraphs, run, _, predicts⟩
  have even := predicts.evenlyCut sample_isTopology sample_assigns run 0 (by decide)
  exact absurd even (by decide +kernel)

end SplitNN.Coordinator
