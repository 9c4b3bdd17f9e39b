import Mathlib
import SplitNN.Coordinator.PartitionTbs
import SplitNN.Coordinator.PartitionVm
import SplitNN.Coordinator.TbsRetries

set_option autoImplicit false

-- The three methods of placing nodes on machines, and the choice among them.
namespace SplitNN.Coordinator

open Text (strip)

section Model

-- The external program: whether a run on a written graph succeeds, after the attempts before it
-- and with a capacity, and the lines of the partition that it leaves.
structure Tbs where
  run : List String → Nat → List ℚ → Int → Bool
  partition : List String → Nat → List ℚ → List (List Char)

-- What the methods call: the draw that a node gets, the library, the program and `int`.
structure Partitioners where
  randint : NodeName → Int → Option Nat
  partGraph : PartGraph
  tbs : Tbs
  int : List Char → Option Int

def partitionNaive (randint : NodeName → Int → Option Nat) (nodes : List NodeName)
    (numPartitions : Nat) : Option (Dict NodeName Nat) :=
  nodes.foldlM (fun node2pmid node => do
    let pmId ← randint node ((numPartitions : Int) - 1)
    return node2pmid.set node pmId) Dict.empty

-- The machines that `readPartition` lets through are not negative.
def partitionTbs (tbs : Tbs) (int : List Char → Option Int) (fuel : Nat) (nodes : List NodeName)
    (adjacencyList : AdjacencyList) (pmNum : Nat) : Option (Dict NodeName Nat) := do
  let graph ← (convertAdjlistToMetisGraph nodes adjacencyList).toOption
  let (tried, runSuccess) :=
    tryFactors (tbs.run graph.file pmNum) graph.nodeIds.length pmNum fuel
  if runSuccess then
    let node2pmid ← (readPartition int pmNum graph.nodeid2name
      (tbs.partition graph.file pmNum tried)).toOption
    return Dict.ofEntries (node2pmid.entries.map fun entry => (entry.1, entry.2.toNat))
  else none

def crossPmPartition (outside : Partitioners) (fuel : Nat) (method : String)
    (nodes : List NodeName) (adjacencyList : AdjacencyList) (pmNum : Nat) :
    Option (Dict NodeName Nat) :=
  if method.toLower = "naive" then partitionNaive outside.randint nodes pmNum
  else if method.toLower = "metis" then
    partitionMetis outside.partGraph nodes adjacencyList pmNum
  else if method.toLower = "tbs" then
    partitionTbs outside.tbs outside.int fuel nodes adjacencyList pmNum
  else none

-- With one machine no method is asked, whatever its name.
def partitionAcrossPm (outside : Partitioners) (fuel : Nat) (method : String)
    (nodes : List NodeName) (adjacencyList : AdjacencyList) (pmNum : Nat) :
    Option PmPartition := do
  let node2pmid ←
    if pmNum = 1 then some Dict.empty
    else crossPmPartition outside fuel method nodes adjacencyList pmNum
  partitionGraphAcrossPm node2pmid nodes adjacencyList pmNum

end Model

section Methods

/-- A graph file of this many vertices, large enough a capacity for which `tbs` partitions it. -/
structure Tbs.Valid (tbs : Tbs) (int : List Char → Option Int) : Prop where
  ends : ∀ nodes graph pmNum, WellFormedMetis nodes graph → ∃ least : Int, ∀ tried capacity,
    least ≤ capacity → tbs.run graph.file pmNum tried capacity = true
  parts : ∀ nodes graph pmNum tried, 0 < pmNum → WellFormedMetis nodes graph → ∃ parts : List Int,
    (tbs.partition graph.file pmNum tried).map (fun line => int (strip line)) = parts.map some ∧
      parts.length = nodes.length ∧ ∀ part ∈ parts, 0 ≤ part ∧ part < pmNum

structure Partitioners.Valid (outside : Partitioners) : Prop where
  randint : ∀ node (last : Int), 0 ≤ last →
    ∃ pmId : Nat, outside.randint node last = some pmId ∧ pmId ≤ last
  metis : outside.partGraph.Valid
  tbs : outside.tbs.Valid outside.int

variable {outside : Partitioners} {nodes : List NodeName} {adjacencyList : AdjacencyList}
  {pmNum : Nat}

theorem partitionNaive_assigns (valid : outside.Valid) (distinct : nodes.Nodup)
    (some_pms : 0 < pmNum) :
    ∃ node2pmid, partitionNaive outside.randint nodes pmNum = some node2pmid ∧
      Assigns node2pmid nodes ∧
      ∀ node pmId, node2pmid.get? node = some pmId → pmId < pmNum := by
  choose draw drawn small using fun node =>
    valid.randint node ((pmNum : Int) - 1) (by omega)
  refine ⟨Dict.ofKeys nodes draw, ?_, ?_, ?_⟩
  · exact Dict.foldlM_set nodes (fun node _ => drawn node) Dict.empty
  · intro node
    rw [Dict.keys_ofKeys distinct]
  · intro node pmId found
    rw [Dict.get?_ofKeys] at found
    split at found
    next =>
      cases found
      have := small node
      omega
    next => cases found

theorem partitionTbs_assigns (valid : outside.Valid) (graph : IsGraph nodes adjacencyList)
    (some_nodes : nodes ≠ []) (linked : ∀ node ∈ nodes, neighbours adjacencyList node ≠ [])
    (some_pms : 0 < pmNum) :
    ∃ enough node2pmid,
      (∀ more, partitionTbs outside.tbs outside.int (enough + more) nodes adjacencyList pmNum =
        some node2pmid) ∧
      Assigns node2pmid nodes ∧
      ∀ node pmId, node2pmid.get? node = some pmId → pmId < pmNum := by
  obtain ⟨metis, converted, wellFormed, ids⟩ : ∃ metis,
      convertAdjlistToMetisGraph nodes adjacencyList = .ok metis ∧ WellFormedMetis nodes metis ∧
        metis.nodeid2name = (allocateIds nodes).nodeid2name :=
    ⟨_, convertAdjlist_eq graph linked, metisGraph_wellFormed (listedLinks_covers graph linked),
      rfl⟩
  obtain ⟨least, ends⟩ := valid.tbs.ends nodes metis pmNum wellFormed
  have some_ids : 1 ≤ metis.nodeIds.length := by
    rw [wellFormed.ids, List.length_range']
    exact List.length_pos_iff.mpr some_nodes
  obtain ⟨enough, success⟩ := tryFactors_succeeds some_ids some_pms ends
  let tried := (tryFactors (outside.tbs.run metis.file pmNum) metis.nodeIds.length pmNum enough).1
  have stops (more : Nat) : tryFactors (outside.tbs.run metis.file pmNum) metis.nodeIds.length
      pmNum (enough + more) = (tried, true) :=
    (Retry.loop_stops success more).trans (Prod.ext rfl success)
  obtain ⟨parts, parsed, whole, inRange⟩ :=
    valid.tbs.parts nodes metis pmNum tried some_pms wellFormed
  have read : readPartition outside.int pmNum metis.nodeid2name
      (outside.tbs.partition metis.file pmNum tried) = .ok (Dict.ofEntries (nodes.zip parts)) :=
    ids ▸ readPartition_ok parsed inRange whole
  have names : (nodes.zip parts).map Prod.fst = nodes := List.map_fst_zip whole.ge
  have distinct : ((nodes.zip parts).map Prod.fst).Nodup := names.symm ▸ graph.distinct
  let placed := (nodes.zip parts).map fun entry => (entry.1, entry.2.toNat)
  have placed_names : placed.map Prod.fst = nodes := by
    rw [List.map_map]
    exact names
  have placed_distinct : (placed.map Prod.fst).Nodup := placed_names.symm ▸ graph.distinct
  refine ⟨enough, Dict.ofEntries placed, fun more => ?_, ?_, ?_⟩
  · simp only [partitionTbs, converted, Monadic.toOption_ok, Option.bind_eq_bind, Option.bind_some,
      stops, if_true, read]
    rw [Dict.entries_ofEntries distinct]
    rfl
  · intro node
    rw [Dict.keys, Dict.entries_ofEntries placed_distinct, placed_names]
  · intro node pmId found
    rw [Dict.get?_ofEntries placed_distinct] at found
    obtain ⟨entry, listed, same⟩ := List.mem_map.mp found
    have bound := inRange entry.2 (List.of_mem_zip listed).2
    cases same
    omega

def methods : List String := ["naive", "metis", "tbs"]

/-- Whichever method is chosen, each node is placed on one of the machines. The program of the last
one is tried until it ends, on a topology where every node has a link. -/
theorem crossPmPartition_assigns (valid : outside.Valid) {method : String}
    (known : method.toLower ∈ methods) (graph : IsGraph nodes adjacencyList)
    (linked : method.toLower = "tbs" →
      nodes ≠ [] ∧ ∀ node ∈ nodes, neighbours adjacencyList node ≠ [])
    (some_pms : 0 < pmNum) :
    ∃ enough node2pmid,
      (∀ more, crossPmPartition outside (enough + more) method nodes adjacencyList pmNum =
        some node2pmid) ∧
      Assigns node2pmid nodes ∧
      ∀ node pmId, node2pmid.get? node = some pmId → pmId < pmNum := by
  simp only [methods, List.mem_cons, List.not_mem_nil, or_false] at known
  rcases known with naive | metis | tbs
  · obtain ⟨node2pmid, run, assigns⟩ := partitionNaive_assigns valid graph.distinct some_pms
    refine ⟨0, node2pmid, fun more => ?_, assigns⟩
    rw [crossPmPartition, if_pos naive, run]
  · obtain ⟨node2pmid, run, assigns⟩ := partitionMetis_spec valid.metis graph some_pms
    refine ⟨0, node2pmid, fun more => ?_, assigns⟩
    rw [crossPmPartition, metis, if_neg (by decide), if_pos rfl, run]
  · obtain ⟨some_nodes, each⟩ := linked tbs
    obtain ⟨enough, node2pmid, run, assigns⟩ :=
      partitionTbs_assigns valid graph some_nodes each some_pms
    refine ⟨enough, node2pmid, fun more => ?_, assigns⟩
    rw [crossPmPartition, tbs, if_neg (by decide), if_neg (by decide), if_pos rfl, run]

theorem partitionAcrossPm_splits (valid : outside.Valid) {method : String}
    (known : method.toLower ∈ methods) (graph : IsGraph nodes adjacencyList)
    (linked : method.toLower = "tbs" →
      nodes ≠ [] ∧ ∀ node ∈ nodes, neighbours adjacencyList node ≠ [])
    (some_pms : 0 < pmNum) :
    ∃ enough parts,
      (∀ more, partitionAcrossPm outside (enough + more) method nodes adjacencyList pmNum =
        some parts) ∧ parts.Splits nodes pmNum := by
  obtain ⟨enough, node2pmid, run, assigns, inRange⟩ :=
    crossPmPartition_assigns valid known graph linked some_pms
  obtain ⟨parts, split, splits⟩ := partitionGraphAcrossPm_splits graph assigns inRange
  refine ⟨enough, parts, fun more => ?_, splits⟩
  by_cases single : pmNum = 1
  next =>
    rw [partitionGraphAcrossPm, if_pos single] at split
    simp only [partitionAcrossPm, single, if_true, Option.bind_eq_bind, Option.bind_some,
      partitionGraphAcrossPm, split]
  next =>
    simp only [partitionAcrossPm, single, if_false, run, Option.bind_eq_bind, Option.bind_some,
      split]

-- Each node on the first machine, but for the library, which deals them out.
def samplePartitioners : Partitioners where
  randint := fun _ last => if 0 ≤ last then some 0 else none
  partGraph := roundRobin
  tbs := {
    run := fun _ _ _ _ => true
    partition := fun file _ _ => List.replicate (file.length / 2) ['0'] }
  int := sampleInt

theorem samplePartitioners_valid : samplePartitioners.Valid where
  randint := fun _ last some_last => ⟨0, if_pos some_last, some_last⟩
  metis := roundRobin_valid
  tbs := {
    ends := fun _ _ _ _ => ⟨0, fun _ _ _ => rfl⟩
    parts := by
      intro nodes graph pmNum tried some_pms wellFormed
      have lines : graph.file.length / 2 = nodes.length := by
        rw [wellFormed.written, wellFormed.ids]
        simp
        omega
      refine ⟨List.replicate nodes.length 0, ?_, List.length_replicate, ?_⟩
      · have zero : sampleInt (strip ['0']) = some 0 := by decide
        simp only [samplePartitioners, lines, List.map_replicate, zero]
      · intro part member
        rw [List.eq_of_mem_replicate member]
        exact ⟨le_rfl, by exact_mod_cast some_pms⟩ }

end Methods

end SplitNN.Coordinator
