import Mathlib
import SplitNN.Shared.Dict
import SplitNN.Shared.Multigraph

set_option autoImplicit false

namespace SplitNN.Coordinator

abbrev NodeName := String

abbrev AdjacencyList := Dict NodeName (List NodeName)

def neighbours (adjacencyList : AdjacencyList) (node : NodeName) : List NodeName :=
  adjacencyList.getD node []

def multiplicity (adjacencyList : AdjacencyList) (u v : NodeName) : Nat :=
  (neighbours adjacencyList u).count v

/-- A repetition-free node list with a neighbour list for each node, all within the list. -/
structure IsGraph (nodes : List NodeName) (adjacencyList : AdjacencyList) : Prop where
  distinct : nodes.Nodup
  listed : ∀ node ∈ nodes, node ∈ adjacencyList.keys
  closed : ∀ u ∈ nodes, ∀ v ∈ neighbours adjacencyList u, v ∈ nodes

theorem IsGraph.of_rows {nodes : List NodeName} {adjacencyList : AdjacencyList}
    (distinct : nodes.Nodup) (row : ∀ node ∈ nodes, ∃ listed,
      adjacencyList.get? node = some listed ∧ ∀ v ∈ listed, v ∈ nodes) :
    IsGraph nodes adjacencyList where
  distinct := distinct
  listed node member := by
    obtain ⟨_, found, _⟩ := row node member
    exact Dict.mem_keys_of_get? found
  closed u member v inNeighbours := by
    obtain ⟨listed, found, inside⟩ := row u member
    rw [neighbours, Dict.getD, found] at inNeighbours
    exact inside v inNeighbours

/-- A graph whose links are listed at both ends, with their multiplicity. -/
structure IsTopology (nodes : List NodeName) (adjacencyList : AdjacencyList) : Prop where
  listed : ∀ node ∈ nodes, node ∈ adjacencyList.keys
  undirected : Multigraph.Undirected (neighbours adjacencyList) nodes

theorem IsTopology.isGraph {nodes : List NodeName} {adjacencyList : AdjacencyList}
    (topology : IsTopology nodes adjacencyList) : IsGraph nodes adjacencyList :=
  ⟨topology.undirected.distinct, topology.listed, topology.undirected.closed⟩

def Assigns (node2serverid : Dict NodeName Nat) (nodes : List NodeName) : Prop :=
  ∀ node, node ∈ node2serverid.keys ↔ node ∈ nodes

theorem Assigns.found {node2serverid : Dict NodeName Nat} {nodes : List NodeName}
    (assigns : Assigns node2serverid nodes) {node : NodeName} (member : node ∈ nodes) :
    ∃ serverId, node2serverid.get? node = some serverId :=
  node2serverid.exists_get? ((assigns node).mpr member)

theorem Assigns.member {node2serverid : Dict NodeName Nat} {nodes : List NodeName}
    (assigns : Assigns node2serverid nodes) {node : NodeName} {serverId : Nat}
    (found : node2serverid.get? node = some serverId) : node ∈ nodes :=
  (assigns node).mp (Dict.mem_keys_of_get? found)

theorem neighbours_found {adjacencyList : AdjacencyList} {node : NodeName}
    (listed : node ∈ adjacencyList.keys) :
    adjacencyList.get? node = some (neighbours adjacencyList node) := by
  obtain ⟨found, stored⟩ := adjacencyList.exists_get? listed
  simp [neighbours, Dict.getD, stored]

-- The loop `for u in nodes: for v in adjacency_list[u]`; a missing key raises.
def forEachNeighbor {σ : Type} (adjacencyList : AdjacencyList)
    (visit : σ → NodeName → NodeName → Option σ) (nodes : List NodeName) (state : σ) : Option σ :=
  nodes.foldlM (fun state u => do
    let listed ← adjacencyList.get? u
    listed.foldlM (fun state v => visit state u v) state) state

-- The pairs that `if u >= v: continue` lets through, in the order of the two loops.
def forwardLinks (nodes : List NodeName) (adjacencyList : AdjacencyList) :
    List (NodeName × NodeName) :=
  Multigraph.oriented (fun u v => decide (u < v)) (neighbours adjacencyList) nodes

theorem forEachNeighbor_forward {σ : Type} {adjacencyList : AdjacencyList}
    {nodes : List NodeName} (listed : ∀ node ∈ nodes, node ∈ adjacencyList.keys)
    (visit : σ → NodeName → NodeName → Option σ) (state : σ) :
    forEachNeighbor adjacencyList
        (fun state u v => if u ≥ v then some state else visit state u v) nodes state =
      (forwardLinks nodes adjacencyList).foldlM
        (fun state link => visit state link.1 link.2) state := by
  induction nodes generalizing state with
  | nil => simp [forEachNeighbor, forwardLinks, Multigraph.oriented]
  | cons u rest ih =>
    have step (targets : List NodeName) (state : σ) :
        targets.foldlM (fun state v => if u ≥ v then some state else visit state u v) state =
          ((targets.filter fun v => decide (u < v)).map fun v => (u, v)).foldlM
            (fun state link => visit state link.1 link.2) state := by
      rw [List.foldlM_map, List.foldlM_filter]
      congr 1
      funext state v
      by_cases forward : u < v
      · simp [forward, not_le.mpr forward]
      · simp [forward, not_lt.mp forward]
    have later := ih fun node member => listed node (List.mem_cons_of_mem u member)
    simp only [forEachNeighbor, forwardLinks, Multigraph.oriented] at later ⊢
    simp only [List.foldlM_cons, List.flatMap_cons, List.foldlM_append,
      neighbours_found (listed u (by simp)), Option.bind_eq_bind, Option.bind_some, step]
    congr 1
    funext state
    exact later state

theorem forwardLinks_orients (nodes : List NodeName) :
    Multigraph.Orients (fun u v : NodeName => decide (u < v)) nodes := by
  intro u _ v _ different
  change decide (v < u) = !decide (u < v)
  rcases lt_or_gt_of_ne different with less | greater
  · rw [decide_eq_true less, decide_eq_false (lt_asymm less)]
    rfl
  · rw [decide_eq_true greater, decide_eq_false (lt_asymm greater)]
    rfl

theorem mem_forwardLinks {nodes : List NodeName} {adjacencyList : AdjacencyList}
    {u v : NodeName} : (u, v) ∈ forwardLinks nodes adjacencyList ↔
      u ∈ nodes ∧ v ∈ neighbours adjacencyList u ∧ u < v := by
  simp [forwardLinks, Multigraph.mem_oriented]

theorem forwardLinks_closed {nodes : List NodeName} {adjacencyList : AdjacencyList}
    (topology : IsTopology nodes adjacencyList) {link : NodeName × NodeName}
    (member : link ∈ forwardLinks nodes adjacencyList) :
    link.1 ∈ nodes ∧ link.2 ∈ nodes ∧ link.1 < link.2 := by
  obtain ⟨left, listed, less⟩ := mem_forwardLinks.mp member
  exact ⟨left, topology.undirected.closed _ left _ listed, less⟩

theorem IsTopology.neighbours_symm {nodes : List NodeName} {adjacencyList : AdjacencyList}
    (topology : IsTopology nodes adjacencyList) {u v : NodeName} (left : u ∈ nodes)
    (listed : v ∈ neighbours adjacencyList u) : u ∈ neighbours adjacencyList v := by
  have right := topology.undirected.closed u left v listed
  rw [← List.count_pos_iff, ← topology.undirected.symmetric u left v right, List.count_pos_iff]
  exact listed

theorem count_forwardLinks {nodes : List NodeName} {adjacencyList : AdjacencyList}
    (topology : IsTopology nodes adjacencyList) {u v : NodeName} (left : u ∈ nodes)
    (different : u ≠ v) :
    (forwardLinks nodes adjacencyList).count (u, v) +
      (forwardLinks nodes adjacencyList).count (v, u) = multiplicity adjacencyList u v := by
  rw [← Multigraph.count_unordered _ different, forwardLinks,
    Multigraph.count_unordered_oriented topology.undirected (forwardLinks_orients nodes) different]
  simp [left, multiplicity]

-- Three nodes in a row, the first two joined by a doubled link; the samples below use it.
def sampleNodes : List NodeName := ["1", "2", "3"]

def sampleAdjacency : AdjacencyList :=
  ⟨[("1", ["2", "2"]), ("2", ["1", "1", "3"]), ("3", ["2"])], by decide⟩

def sampleServers : Dict NodeName Nat := ⟨[("1", 0), ("2", 0), ("3", 1)], by decide⟩

theorem sample_isTopology : IsTopology sampleNodes sampleAdjacency :=
  ⟨by decide, by decide, by decide, by decide⟩

theorem sample_loopFree : Multigraph.LoopFree (neighbours sampleAdjacency) sampleNodes := by
  unfold Multigraph.LoopFree
  decide

theorem sample_assigns : Assigns sampleServers sampleNodes := by
  intro node
  simp [sampleServers, sampleNodes, Dict.keys]

theorem sample_inRange (node : NodeName) (serverId : Nat)
    (found : sampleServers.get? node = some serverId) : serverId < 2 := by
  have member := (sampleServers.get?_eq_some node serverId).mp found
  simp only [sampleServers, List.mem_cons, Prod.mk.injEq, List.not_mem_nil, or_false] at member
  omega

end SplitNN.Coordinator
