import Mathlib
import SplitNN.Coordinator.Topology

set_option autoImplicit false

namespace SplitNN.Coordinator

structure PmPartition where
  node2pmid : Dict NodeName Nat
  pmid2nodes : Dict Nat (List NodeName)
  pmid2adjacencylist : Dict Nat AdjacencyList

def ensureNode (adjacencyList : AdjacencyList) (node : NodeName) : AdjacencyList :=
  if node ∈ adjacencyList.keys then adjacencyList else adjacencyList.set node []

def addIntraPmLink (link : NodeName × NodeName) (adjacencyList : AdjacencyList) : AdjacencyList :=
  ((ensureNode (ensureNode adjacencyList link.2) link.1).adjust link.1 (· ++ [link.2])).adjust
    link.2 (· ++ [link.1])

def visitIntraPm (node2pmid : Dict NodeName Nat) (node : NodeName) (pmId : Nat)
    (pmid2adjacencylist : Dict Nat AdjacencyList) (neighbor : NodeName) :
    Option (Dict Nat AdjacencyList) := do
  let neighborPm ← node2pmid.get? neighbor
  if neighborPm = pmId then pmid2adjacencylist.modify? pmId (addIntraPmLink (node, neighbor))
  else some pmid2adjacencylist

-- `node2pmid` is what the chosen partitioner returned; with one machine nothing calls it.
def partitionGraphAcrossPm (node2pmid : Dict NodeName Nat) (nodes : List NodeName)
    (adjacencyList : AdjacencyList) (pmNum : Nat) : Option PmPartition :=
  if pmNum = 1 then
    some ⟨Dict.ofKeys nodes fun _ => 0, Dict.ofKeys [0] fun _ => nodes,
      Dict.ofKeys [0] fun _ => adjacencyList⟩
  else do
    let pmid2nodes ← node2pmid.entries.foldlM
      (fun pmid2nodes entry => pmid2nodes.modify? entry.2 (· ++ [entry.1]))
      (Dict.ofKeys (List.range pmNum) fun _ => [])
    let pmid2adjacencylist ← node2pmid.entries.foldlM
      (fun pmid2adjacencylist entry => do
        let listed ← adjacencyList.get? entry.1
        listed.foldlM (visitIntraPm node2pmid entry.1 entry.2) pmid2adjacencylist)
      (Dict.ofKeys pmid2nodes.keys fun pmId =>
        Dict.ofKeys (pmid2nodes.getD pmId []) fun _ => [])
    return ⟨node2pmid, pmid2nodes, pmid2adjacencylist⟩

section Links

theorem addIntraPmLink_keys {link : NodeName × NodeName} {adjacencyList : AdjacencyList}
    (left : link.1 ∈ adjacencyList.keys) (right : link.2 ∈ adjacencyList.keys) :
    (addIntraPmLink link adjacencyList).keys = adjacencyList.keys := by
  simp [addIntraPmLink, ensureNode, left, right, Dict.keys_adjust]

theorem getD_adjust (adjacencyList : AdjacencyList) {node : NodeName} (other : NodeName)
    (known : node ∈ adjacencyList.keys) (added : NodeName) :
    neighbours (adjacencyList.adjust node (· ++ [added])) other =
      if other = node then neighbours adjacencyList node ++ [added]
      else neighbours adjacencyList other :=
  Dict.getD_adjust adjacencyList known other (· ++ [added]) []

theorem addIntraPmLink_multiplicity {link : NodeName × NodeName} {adjacencyList : AdjacencyList}
    (left : link.1 ∈ adjacencyList.keys) (right : link.2 ∈ adjacencyList.keys) (u v : NodeName) :
    multiplicity (addIntraPmLink link adjacencyList) u v =
      multiplicity adjacencyList u v + [link].count (u, v) + [link].count (v, u) := by
  have kept : link.2 ∈ (adjacencyList.adjust link.1 (· ++ [link.2])).keys := by
    rwa [Dict.keys_adjust]
  obtain ⟨x, y⟩ := link
  simp only [multiplicity, addIntraPmLink, ensureNode, left, right, if_true, getD_adjust _ _ kept,
    getD_adjust _ _ left, List.count_singleton, beq_iff_eq, Prod.mk.injEq]
  by_cases first : u = x <;> by_cases second : u = y <;> by_cases third : v = x <;>
    by_cases fourth : v = y <;> simp_all [eq_comm]

theorem addIntraPmLinks_spec (links : List (NodeName × NodeName)) (adjacencyList : AdjacencyList)
    (known : ∀ link ∈ links, link.1 ∈ adjacencyList.keys ∧ link.2 ∈ adjacencyList.keys) :
    (links.foldl (fun adjacencyList link => addIntraPmLink link adjacencyList)
      adjacencyList).keys = adjacencyList.keys ∧
    ∀ u v, multiplicity (links.foldl (fun adjacencyList link =>
      addIntraPmLink link adjacencyList) adjacencyList) u v =
      multiplicity adjacencyList u v + links.count (u, v) + links.count (v, u) := by
  induction links generalizing adjacencyList with
  | nil => simp
  | cons link rest ih =>
    have ends := known link (by simp)
    have keys := addIntraPmLink_keys ends.1 ends.2
    have later := ih (addIntraPmLink link adjacencyList) fun other member => by
      rw [keys]
      exact known other (List.mem_cons_of_mem link member)
    refine ⟨later.1.trans keys, fun u v => ?_⟩
    rw [List.foldl_cons, later.2, addIntraPmLink_multiplicity ends.1 ends.2]
    simp only [List.count_cons, List.count_nil]
    omega

end Links

section Visits

variable {node2pmid : Dict NodeName Nat} {nodes : List NodeName} {adjacencyList : AdjacencyList}

-- The links that the loop finds inside one machine, each with its machine.
def intraPmVisits (node2pmid : Dict NodeName Nat) (adjacencyList : AdjacencyList)
    (entries : List (NodeName × Nat)) : List ((NodeName × NodeName) × Nat) :=
  entries.flatMap fun entry =>
    ((neighbours adjacencyList entry.1).filter fun neighbor =>
      decide (node2pmid.get? neighbor = some entry.2)).map fun neighbor =>
        ((entry.1, neighbor), entry.2)

theorem visitIntraPm_run (graph : IsGraph nodes adjacencyList)
    (assigns : Assigns node2pmid nodes) (entries : List (NodeName × Nat))
    (listed : ∀ entry ∈ entries, entry.1 ∈ nodes) (state : Dict Nat AdjacencyList) :
    entries.foldlM (fun pmid2adjacencylist entry => do
        let listed ← adjacencyList.get? entry.1
        listed.foldlM (visitIntraPm node2pmid entry.1 entry.2) pmid2adjacencylist) state =
      (intraPmVisits node2pmid adjacencyList entries).foldlM
        (fun state visit => state.modify? visit.2 (addIntraPmLink visit.1)) state := by
  induction entries generalizing state with
  | nil => simp [intraPmVisits]
  | cons entry rest ih =>
    have member := listed entry (by simp)
    have step (targets : List NodeName) (inside : ∀ target ∈ targets, target ∈ nodes)
        (state : Dict Nat AdjacencyList) :
        targets.foldlM (visitIntraPm node2pmid entry.1 entry.2) state =
          ((targets.filter fun neighbor =>
            decide (node2pmid.get? neighbor = some entry.2)).map fun neighbor =>
              ((entry.1, neighbor), entry.2)).foldlM
                (fun state visit => state.modify? visit.2 (addIntraPmLink visit.1)) state := by
      induction targets generalizing state with
      | nil => rfl
      | cons target targets ih =>
        obtain ⟨pmId, found⟩ := assigns.found (inside target (by simp))
        have next := ih fun other member => inside other (List.mem_cons_of_mem _ member)
        by_cases same : pmId = entry.2
        next =>
          have kept : node2pmid.get? target = some entry.2 := by rw [found, same]
          simp only [List.foldlM_cons, visitIntraPm, kept, Option.bind_eq_bind, Option.bind_some,
            if_true, decide_true, List.filter_cons, List.map_cons]
          congr 1
          funext state
          exact next state
        next =>
          have dropped : node2pmid.get? target ≠ some entry.2 := by
            simpa [found] using same
          simp only [List.foldlM_cons, visitIntraPm, found, Option.bind_eq_bind, Option.bind_some,
            same, if_false]
          rw [List.filter_cons_of_neg (by simpa using dropped)]
          exact next state
    have later := ih fun entry member => listed entry (List.mem_cons_of_mem _ member)
    simp only [intraPmVisits, List.flatMap_cons, List.foldlM_append] at later ⊢
    rw [List.foldlM_cons, neighbours_found (graph.listed _ member)]
    simp only [Option.bind_eq_bind, Option.bind_some]
    rw [step _ (graph.closed _ member)]
    congr 1
    funext state
    exact later state

theorem intraPmVisits_pm (pmId : Nat) :
    ((intraPmVisits node2pmid adjacencyList node2pmid.entries).filter fun visit =>
        decide (visit.2 = pmId)).map Prod.fst =
      Multigraph.oriented (fun _ neighbor => decide (node2pmid.get? neighbor = some pmId))
        (neighbours adjacencyList) (node2pmid.keysWith pmId) := by
  unfold intraPmVisits Multigraph.oriented Dict.keysWith
  induction node2pmid.entries with
  | nil => rfl
  | cons entry rest ih =>
    rw [List.flatMap_cons, List.filter_append, List.map_append, ih]
    by_cases same : entry.2 = pmId
    next =>
      subst same
      simp [List.filter_map, Function.comp_def]
    next => simp [same, List.filter_map, Function.comp_def]

theorem pmid2nodes_spec {pmNum : Nat}
    (inRange : ∀ node pmId, node2pmid.get? node = some pmId → pmId < pmNum) :
    ∃ pmid2nodes, node2pmid.entries.foldlM
        (fun pmid2nodes entry => pmid2nodes.modify? entry.2 (· ++ [entry.1]))
        (Dict.ofKeys (List.range pmNum) fun _ => []) = some pmid2nodes ∧
      pmid2nodes.keys = List.range pmNum ∧
      ∀ pmId < pmNum, pmid2nodes.get? pmId = some (node2pmid.keysWith pmId) := by
  let initial : Dict Nat (List NodeName) := Dict.ofKeys (List.range pmNum) fun _ => []
  have keys : initial.keys = List.range pmNum := Dict.keys_ofKeys List.nodup_range _
  obtain ⟨pmid2nodes, run, sameKeys, values⟩ := Dict.foldlM_modify?
    (fun (node : NodeName) pmNodes => pmNodes ++ [node]) node2pmid.entries initial (by
      intro entry member
      rcases entry with ⟨node, pmId⟩
      have found := (node2pmid.get?_eq_some node pmId).mpr member
      simpa [keys] using inRange node pmId found)
  have appended (entries : List (NodeName × Nat)) (pmNodes : List NodeName) :
      entries.foldl (fun pmNodes entry => pmNodes ++ [entry.1]) pmNodes =
        pmNodes ++ entries.map Prod.fst := by
    induction entries generalizing pmNodes with
    | nil => simp
    | cons entry rest ih =>
      rw [List.foldl_cons, ih]
      simp
  refine ⟨pmid2nodes, run, sameKeys.trans keys, fun pmId bound => ?_⟩
  rw [values, Dict.get?_ofKeys, if_pos (List.mem_range.mpr bound), Option.map_some, appended]
  rfl

theorem partitionGraphAcrossPm_spec (graph : IsGraph nodes adjacencyList)
    (assigns : Assigns node2pmid nodes) {pmNum : Nat}
    (inRange : ∀ node pmId, node2pmid.get? node = some pmId → pmId < pmNum) (several : pmNum ≠ 1) :
    ∃ result, partitionGraphAcrossPm node2pmid nodes adjacencyList pmNum = some result ∧
      result.node2pmid = node2pmid ∧
      ∀ pmId < pmNum, result.pmid2nodes.get? pmId = some (node2pmid.keysWith pmId) ∧
        ∃ pmAdjacency, result.pmid2adjacencylist.get? pmId = some pmAdjacency ∧
          (∀ node, node ∈ pmAdjacency.keys ↔ node2pmid.get? node = some pmId) ∧
          ∀ u v, multiplicity pmAdjacency u v =
            if node2pmid.get? u = some pmId ∧ node2pmid.get? v = some pmId then
              multiplicity adjacencyList u v + multiplicity adjacencyList v u else 0 := by
  obtain ⟨pmid2nodes, nodesRun, nodesKeys, pmNodes⟩ := pmid2nodes_spec inRange
  let start : Dict Nat AdjacencyList := Dict.ofKeys pmid2nodes.keys fun pmId =>
    Dict.ofKeys (pmid2nodes.getD pmId []) fun _ => []
  have startKeys : start.keys = List.range pmNum := by
    rw [Dict.keys_ofKeys pmid2nodes.keys_nodup, nodesKeys]
  have startAt (pmId : Nat) (bound : pmId < pmNum) : start.get? pmId =
      some (Dict.ofKeys (node2pmid.keysWith pmId) fun _ => []) := by
    rw [Dict.get?_ofKeys, nodesKeys, if_pos (List.mem_range.mpr bound), Dict.getD, pmNodes _ bound]
    rfl
  have members (node : NodeName) (pmId : Nat) (member : (node, pmId) ∈ node2pmid.entries) :
      node2pmid.get? node = some pmId := (node2pmid.get?_eq_some node pmId).mpr member
  have run := visitIntraPm_run graph assigns node2pmid.entries
    (fun entry member => assigns.member (members entry.1 entry.2 member)) start
  obtain ⟨final, finalRun, -, values⟩ := Dict.foldlM_modify? addIntraPmLink
    (intraPmVisits node2pmid adjacencyList node2pmid.entries) start (by
      intro visit member
      obtain ⟨entry, listed, found⟩ := List.mem_flatMap.mp member
      obtain ⟨neighbor, -, rfl⟩ := List.mem_map.mp found
      simpa [startKeys] using inRange entry.1 entry.2 (members entry.1 entry.2 listed))
  refine ⟨⟨node2pmid, pmid2nodes, final⟩, ?_, rfl, fun pmId bound => ⟨pmNodes pmId bound, ?_⟩⟩
  · rw [partitionGraphAcrossPm, if_neg several]
    exact Option.bind_eq_some_iff.mpr ⟨pmid2nodes, nodesRun,
      Option.bind_eq_some_iff.mpr ⟨final, run.trans finalRun, rfl⟩⟩
  · let empty : AdjacencyList := Dict.ofKeys (node2pmid.keysWith pmId) fun _ => []
    let links := Multigraph.oriented
      (fun _ neighbor => decide (node2pmid.get? neighbor = some pmId))
      (neighbours adjacencyList) (node2pmid.keysWith pmId)
    have emptyKeys : empty.keys = node2pmid.keysWith pmId :=
      Dict.keys_ofKeys (node2pmid.keysWith_nodup pmId) _
    have value : final.get? pmId =
        some (links.foldl (fun adjacency link => addIntraPmLink link adjacency) empty) := by
      rw [values, startAt pmId bound, Option.map_some]
      simp only [links]
      rw [← intraPmVisits_pm, List.foldl_map]
    obtain ⟨keys, multiplicities⟩ := addIntraPmLinks_spec links empty (by
      intro link member
      obtain ⟨left, -, right⟩ := Multigraph.mem_oriented.mp member
      rw [emptyKeys]
      exact ⟨left, (node2pmid.mem_keysWith pmId _).mpr (by simpa using right)⟩)
    refine ⟨_, value, ?_, ?_⟩
    · intro node
      rw [keys, emptyKeys, Dict.mem_keysWith]
    · intro u v
      have none : multiplicity empty u v = 0 := by
        rw [multiplicity, neighbours, Dict.getD, Dict.get?_ofKeys]
        split <;> rfl
      have counted (x y : NodeName) : links.count (x, y) =
          if node2pmid.get? x = some pmId ∧ node2pmid.get? y = some pmId then
            multiplicity adjacencyList x y else 0 := by
        rw [Multigraph.count_oriented _ _ (node2pmid.keysWith_nodup pmId)]
        simp only [Dict.mem_keysWith, decide_eq_true_eq, multiplicity]
      rw [multiplicities, none, counted, counted]
      by_cases inside : node2pmid.get? u = some pmId ∧ node2pmid.get? v = some pmId
      next =>
        rw [if_pos inside, if_pos inside.symm, if_pos inside]
        omega
      next => rw [if_neg inside, if_neg fun both => inside both.symm, if_neg inside]

end Visits

structure PmPartition.Splits (result : PmPartition) (nodes : List NodeName) (pmNum : Nat) :
    Prop where
  assigns : Assigns result.node2pmid nodes
  inRange : ∀ node pmId, result.node2pmid.get? node = some pmId → pmId < pmNum
  parts : ∀ pmId < pmNum, ∃ pmNodes pmAdjacency, result.pmid2nodes.get? pmId = some pmNodes ∧
    result.pmid2adjacencylist.get? pmId = some pmAdjacency ∧ IsGraph pmNodes pmAdjacency ∧
    ∀ node, node ∈ pmNodes ↔ result.node2pmid.get? node = some pmId

theorem partitionGraphAcrossPm_splits {nodes : List NodeName} {adjacencyList : AdjacencyList}
    {node2pmid : Dict NodeName Nat} {pmNum : Nat} (graph : IsGraph nodes adjacencyList)
    (assigns : Assigns node2pmid nodes)
    (inRange : ∀ node pmId, node2pmid.get? node = some pmId → pmId < pmNum) :
    ∃ result, partitionGraphAcrossPm node2pmid nodes adjacencyList pmNum = some result ∧
      result.Splits nodes pmNum := by
  by_cases single : pmNum = 1
  next =>
    subst single
    refine ⟨_, by rw [partitionGraphAcrossPm, if_pos rfl], ?_, ?_, ?_⟩
    · intro node
      rw [Dict.keys_ofKeys graph.distinct]
    · intro node pmId found
      rw [Dict.get?_ofKeys] at found
      split at found
      next => cases found; omega
      next => cases found
    · intro pmId bound
      have zero : pmId = 0 := by omega
      subst zero
      refine ⟨nodes, adjacencyList, rfl, rfl, graph, fun node => ?_⟩
      rw [Dict.get?_ofKeys]
      by_cases member : node ∈ nodes <;> simp [member]
  next =>
    have ⟨result, run, same, parts⟩ := partitionGraphAcrossPm_spec graph assigns inRange single
    refine ⟨result, run, same ▸ assigns, same ▸ inRange, fun pmId bound => ?_⟩
    have ⟨pmNodes, pmAdjacency, found, keys, multiplicities⟩ := parts pmId bound
    refine ⟨_, pmAdjacency, pmNodes, found, ⟨node2pmid.keysWith_nodup pmId, ?_, ?_⟩, ?_⟩
    · intro node member
      rw [keys, ← Dict.mem_keysWith]
      exact member
    · intro u _ v listed
      have positive : 0 < multiplicity pmAdjacency u v := List.count_pos_iff.mpr listed
      rw [multiplicities] at positive
      by_cases inside : node2pmid.get? u = some pmId ∧ node2pmid.get? v = some pmId
      next => exact (node2pmid.mem_keysWith pmId v).mpr inside.2
      next => simp [inside] at positive
    · intro node
      rw [same, Dict.mem_keysWith]

/-- Every machine gets its nodes, and their links exactly as the whole graph lists them. -/
structure InducedSubgraphs (adjacencyList : AdjacencyList) (node2pmid : Dict NodeName Nat)
    (pmNum : Nat) (result : PmPartition) : Prop where
  nodes : ∀ pmId < pmNum, ∃ pmNodes, result.pmid2nodes.get? pmId = some pmNodes ∧
    ∀ node, pmNodes.count node = if node2pmid.get? node = some pmId then 1 else 0
  adjacency : ∀ pmId < pmNum, ∃ pmAdjacency,
    result.pmid2adjacencylist.get? pmId = some pmAdjacency ∧
    (∀ node, node ∈ pmAdjacency.keys ↔ node2pmid.get? node = some pmId) ∧
    ∀ u v, node2pmid.get? u = some pmId → node2pmid.get? v = some pmId →
      multiplicity pmAdjacency u v = multiplicity adjacencyList u v

section Induced

variable {nodes : List NodeName} {adjacencyList : AdjacencyList} {node2pmid : Dict NodeName Nat}
  {pmNum : Nat}

theorem InducedSubgraphs.cut (topology : IsTopology nodes adjacencyList)
    (assigns : Assigns node2pmid nodes)
    (inRange : ∀ node pmId, node2pmid.get? node = some pmId → pmId < pmNum) (several : 2 ≤ pmNum)
    {result : PmPartition}
    (run : partitionGraphAcrossPm node2pmid nodes adjacencyList pmNum = some result)
    (induced : InducedSubgraphs adjacencyList node2pmid pmNum result) {u v : NodeName}
    (left : u ∈ nodes) (listed : v ∈ neighbours adjacencyList u) :
    node2pmid.get? u ≠ node2pmid.get? v := by
  intro same
  have ⟨made, madeRun, _, parts⟩ :=
    partitionGraphAcrossPm_spec topology.isGraph assigns inRange (by omega)
  cases Option.some.inj (madeRun.symm.trans run)
  have ⟨pmId, uPm⟩ := assigns.found left
  have vPm := same ▸ uPm
  have ⟨_, pmAdjacency, found, _, doubled⟩ := parts pmId (inRange u pmId uPm)
  have ⟨pmAdjacency', found', _, exact⟩ := induced.adjacency pmId (inRange u pmId uPm)
  cases Option.some.inj (found.symm.trans found')
  have count := doubled u v
  rw [if_pos ⟨uPm, vPm⟩, exact u v uPm vPm] at count
  have positive : 0 < multiplicity adjacencyList v u :=
    List.count_pos_iff.mpr (topology.neighbours_symm left listed)
  omega

theorem inducedSubgraphs_of_cut (topology : IsTopology nodes adjacencyList)
    (assigns : Assigns node2pmid nodes)
    (inRange : ∀ node pmId, node2pmid.get? node = some pmId → pmId < pmNum) (several : 2 ≤ pmNum)
    (cut : ∀ u ∈ nodes, ∀ v ∈ neighbours adjacencyList u,
      node2pmid.get? u ≠ node2pmid.get? v) :
    ∃ result, partitionGraphAcrossPm node2pmid nodes adjacencyList pmNum = some result ∧
      InducedSubgraphs adjacencyList node2pmid pmNum result := by
  have ⟨result, run, _, parts⟩ :=
    partitionGraphAcrossPm_spec topology.isGraph assigns inRange (by omega)
  have none {u v : NodeName} {pmId : Nat} (uPm : node2pmid.get? u = some pmId)
      (vPm : node2pmid.get? v = some pmId) : multiplicity adjacencyList u v = 0 := by
    apply List.count_eq_zero.mpr
    intro listed
    exact cut u (assigns.member uPm) v listed (uPm.trans vPm.symm)
  refine ⟨result, run, ?_, ?_⟩
  · intro pmId bound
    exact ⟨_, (parts pmId bound).1, node2pmid.count_keysWith pmId⟩
  · intro pmId bound
    have ⟨_, pmAdjacency, found, keys, doubled⟩ := parts pmId bound
    exact ⟨pmAdjacency, found, keys, fun u v uPm vPm => by
      rw [doubled, if_pos ⟨uPm, vPm⟩, none uPm vPm, none vPm uPm]⟩

/-- The sub-graphs are the induced ones exactly when no link stays inside a machine. -/
theorem partitionGraphAcrossPm_induced_iff (topology : IsTopology nodes adjacencyList)
    (assigns : Assigns node2pmid nodes)
    (inRange : ∀ node pmId, node2pmid.get? node = some pmId → pmId < pmNum)
    (several : 2 ≤ pmNum) :
    (∃ result, partitionGraphAcrossPm node2pmid nodes adjacencyList pmNum = some result ∧
      InducedSubgraphs adjacencyList node2pmid pmNum result) ↔
    ∀ u ∈ nodes, ∀ v ∈ neighbours adjacencyList u, node2pmid.get? u ≠ node2pmid.get? v := by
  constructor
  · intro ⟨result, run, induced⟩ u left v listed
    exact induced.cut topology assigns inRange several run left listed
  · exact inducedSubgraphs_of_cut topology assigns inRange several

theorem partitionGraphAcrossPm_induced_iff_sample :
    (∃ result, partitionGraphAcrossPm sampleServers sampleNodes sampleAdjacency 2 = some result ∧
      InducedSubgraphs sampleAdjacency sampleServers 2 result) ↔
    ∀ u ∈ sampleNodes, ∀ v ∈ neighbours sampleAdjacency u,
      sampleServers.get? u ≠ sampleServers.get? v :=
  partitionGraphAcrossPm_induced_iff sample_isTopology sample_assigns sample_inRange (by decide)

-- The doubled link between the first two nodes comes out fourfold.
theorem sample_not_induced :
    ¬ ∃ result, partitionGraphAcrossPm sampleServers sampleNodes sampleAdjacency 2 = some result ∧
      InducedSubgraphs sampleAdjacency sampleServers 2 result := by
  intro ⟨result, run, induced⟩
  have different : sampleServers.get? "1" ≠ sampleServers.get? "2" :=
    induced.cut sample_isTopology sample_assigns sample_inRange (by decide) run
      (by decide) (by decide)
  exact different (by decide)

end Induced

end SplitNN.Coordinator
