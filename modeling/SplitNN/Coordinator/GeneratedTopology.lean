import Mathlib
import SplitNN.Coordinator.ClosTopology
import SplitNN.Coordinator.GridTopology
import SplitNN.Coordinator.TopoFileRoundTrip
import SplitNN.Coordinator.TrieTopology

set_option autoImplicit false

-- What the coordinator reads of the files that the generator scripts write.
namespace SplitNN.Coordinator

open Text (PyWord)

section Model

-- The script exits before it writes a file where `n < 2`.
def generateIsolated (n : Nat) : Option TopoFile :=
  if n < 2 then none else some { nodes := (List.range n).map fun i => i + 1, edges := [] }

-- Two big nodes with `l` links and `n` nodes without any.
def generateSudoisolated (l n : Nat) : TopoFile where
  nodes := (List.range (n + 2)).map fun i => i + 1
  edges := (List.range l).map fun _ => (1, 2)

inductive GeneratedTopo where
  | topo (topo : Topo)
  | isolated (n : Nat)
  | sudoisolated (l n : Nat)

def generateTopo (fuel : Nat) : GeneratedTopo → Option TopoFile
  | .topo topo => generateTopology fuel topo
  | .isolated n => generateIsolated n
  | .sudoisolated l n => some (generateSudoisolated l n)

end Model

/-- Distinct nodes, and links between different ones. -/
structure Wired (file : TopoFile) : Prop where
  distinct : file.nodes.Nodup
  ends : ∀ edge ∈ file.edges, edge.1 ∈ file.nodes ∧ edge.2 ∈ file.nodes
  apart : ∀ edge ∈ file.edges, edge.1 ≠ edge.2

section Generators

theorem mem_numbered {n v : Nat} : v ∈ ((List.range n).map fun i => i + 1) ↔ 1 ≤ v ∧ v ≤ n := by
  rw [List.mem_map]
  constructor
  · rintro ⟨i, member, rfl⟩
    have bound := List.mem_range.mp member
    omega
  · rintro ⟨low, high⟩
    exact ⟨v - 1, List.mem_range.mpr (by omega), by omega⟩

theorem wired_numbered {n : Nat} {edges : List (Nat × Nat)}
    (inside : ∀ edge ∈ edges, (1 ≤ edge.1 ∧ edge.1 ≤ n) ∧ (1 ≤ edge.2 ∧ edge.2 ≤ n) ∧
      edge.1 ≠ edge.2) : Wired ⟨(List.range n).map fun i => i + 1, edges⟩ where
  distinct := numbered_nodup n
  ends := fun edge member =>
    ⟨mem_numbered.mpr (inside edge member).1, mem_numbered.mpr (inside edge member).2.1⟩
  apart := fun edge member => (inside edge member).2.2

theorem wired_growTopology {edgesOf : Nat → List (Nat × Nat)} {n : Nat}
    (inside : ∀ i, ∀ edge ∈ edgesOf i, 1 ≤ edge.1 ∧ edge.1 < edge.2 ∧ edge.2 ≤ i + 1) :
    Wired (growTopology edgesOf n) := by
  apply wired_numbered
  intro edge member
  obtain ⟨i, round, listed⟩ := List.mem_flatMap.mp member
  have bounds := inside i edge listed
  have last := List.mem_range.mp round
  omega

theorem wired_chain (n : Nat) : Wired (generateChainTopology n) := by
  apply wired_growTopology
  intro i edge member
  split at member
  next => obtain rfl := List.mem_singleton.mp member; simp; omega
  next => cases member

theorem wired_star (n : Nat) : Wired (generateStarTopology n) := by
  apply wired_growTopology
  intro i edge member
  split at member
  next => obtain rfl := List.mem_singleton.mp member; simp; omega
  next => cases member

theorem wired_fullmesh (n : Nat) : Wired (generateFullmeshTopology n) := by
  apply wired_growTopology
  intro i edge member
  obtain ⟨j, earlier, rfl⟩ := List.mem_map.mp member
  have bound := List.mem_range.mp earlier
  simp
  omega

theorem wired_pairs {n : Nat} {file : TopoFile} (run : generatePairs n = some file) :
    Wired file := by
  unfold generatePairs at run
  split at run
  next => cases run
  next =>
    obtain rfl := Option.some.inj run
    apply wired_numbered
    intro edge member
    obtain ⟨i, inside, rfl⟩ := List.mem_map.mp member
    have bound := List.mem_range.mp inside
    simp
    omega

theorem wired_grid (x y : Nat) : Wired (generateGridTopology x y) where
  distinct := by
    rw [gridNodes_cells]
    exact gridNodes_distinct
  ends := by
    intro edge member
    obtain ⟨p, q, rfl, -, -⟩ := gridLinks_between member
    rw [gridNodes_cells]
    exact ⟨List.mem_map_of_mem (mem_gridCells p), List.mem_map_of_mem (mem_gridCells q)⟩
  apart := by
    intro edge member
    obtain ⟨p, q, rfl, different, -⟩ := gridLinks_between member
    exact mt Cell.node_inj.mp different

theorem wired_clos (k : Nat) : Wired (closFile k) where
  distinct := List.nodup_range'
  ends := by
    intro edge member
    obtain ⟨wire, joined, rfl⟩ := List.mem_map.mp member
    obtain ⟨here, there⟩ := (mem_closWires.mp joined).mem_closNodes
    exact ⟨mem_closIds.mpr ⟨_, here, rfl⟩, mem_closIds.mpr ⟨_, there, rfl⟩⟩
  apart := by
    intro edge member same
    obtain ⟨wire, joined, rfl⟩ := List.mem_map.mp member
    have between := mem_closWires.mp joined
    have ends := closId_inj between.mem_closNodes.1 same
    have upwards := between.tier_lt
    rw [ends] at upwards
    exact Nat.lt_irrefl _ upwards

theorem addTrieLayers_more {n k fuel : Nat} {st final : TrieState} (more : Nat)
    (run : addTrieLayers n k fuel st = some final) :
    addTrieLayers n k (fuel + more) st = some final := by
  induction fuel generalizing st with
  | zero => cases run
  | succ fuel ih =>
    rw [Nat.add_right_comm]
    simp only [addTrieLayers] at run ⊢
    split
    next done => simpa [done] using run
    next open' =>
      apply ih
      simpa [open'] using run

theorem wired_trie {n k fuel : Nat} {file : TopoFile} (several : 2 ≤ n) (children : 1 ≤ k)
    (run : generateTrieTopology n k fuel = some file) : Wired file := by
  have arity : 2 ≤ k := by
    by_contra unary
    obtain rfl : k = 1 := by omega
    simp [generateTrieTopology, addTrieLayers_unary] at run
  obtain ⟨enough, ends⟩ := generateTrieTopology_edges arity several
  have same : generateTrieTopology n k (fuel + enough) = some file := by
    simp only [generateTrieTopology, Option.bind_eq_bind, Option.bind_eq_some_iff] at run ⊢
    obtain ⟨st, layers, written⟩ := run
    exact ⟨st, addTrieLayers_more enough layers, written⟩
  obtain rfl := Option.some.inj ((Nat.add_comm enough fuel ▸ ends fuel).symm.trans same)
  apply wired_numbered
  intro edge member
  obtain ⟨low, high, parent⟩ := mem_trieEdges.mp member
  have less := trieParent_lt (k := k) low
  have positive : 1 ≤ trieParent k edge.1 := Nat.le_add_left 1 _
  omega

-- The trie with one node has a link to a second one that it does not declare.
def GeneratedTopo.DeclaresEnds : GeneratedTopo → Prop
  | .topo (.trie n k) => 2 ≤ n ∧ 1 ≤ k
  | _ => True

theorem generateTopo_wired {topo : GeneratedTopo} {fuel : Nat} {file : TopoFile}
    (declares : topo.DeclaresEnds) (run : generateTopo fuel topo = some file) : Wired file := by
  cases topo with
  | isolated n =>
    simp only [generateTopo, generateIsolated] at run
    split at run
    next => cases run
    next =>
      obtain rfl := Option.some.inj run
      exact wired_numbered (by simp)
  | sudoisolated l n =>
    obtain rfl := Option.some.inj run
    apply wired_numbered
    intro edge member
    obtain ⟨-, -, rfl⟩ := List.mem_map.mp member
    simp
  | topo topo =>
    cases topo with
    | chain n => exact Option.some.inj run ▸ wired_chain n
    | star n => exact Option.some.inj run ▸ wired_star n
    | fullmesh n => exact Option.some.inj run ▸ wired_fullmesh n
    | pairs n => exact wired_pairs run
    | trie n k => exact wired_trie declares.1 declares.2 run
    | grid x y => exact Option.some.inj run ▸ wired_grid x y
    | clos k =>
      obtain rfl := Option.some.inj ((generateClosTopology_file k).symm.trans run)
      exact wired_clos k

end Generators

section Reading

theorem toString_inj {m n : Nat} : toString m = toString n ↔ m = n := Nat.repr_inj

theorem named_injective :
    Function.Injective fun edge : Nat × Nat => (toString edge.1, toString edge.2) := by
  rintro ⟨u, v⟩ ⟨u', v'⟩ same
  rw [Prod.mk.injEq, toString_inj, toString_inj] at same
  exact Prod.ext same.1 same.2

theorem toString_pyWord (n : Nat) : PyWord (toString n).toList := by
  have digits : (toString n).toList = Nat.toDigits 10 n := Nat.toList_repr
  rw [digits]
  refine ⟨Nat.toDigits_ne_nil, fun c member => ?_⟩
  have word := (Text.toDigits_word n).2 c member
  have range := Text.digit_toNat (Text.digit_of_mem_toDigits member)
  rw [Text.isPySpace, word, Bool.false_or, Bool.and_eq_false_iff, decide_eq_false_iff_not,
    decide_eq_false_iff_not]
  omega

theorem Wired.writable {file : TopoFile} (wired : Wired file) :
    Writable (file.nodes.map toString)
      (file.edges.map fun edge => (toString edge.1, toString edge.2)) where
  distinct := wired.distinct.map fun _ _ same => toString_inj.mp same
  words := by
    intro node member
    obtain ⟨n, -, rfl⟩ := List.mem_map.mp member
    exact toString_pyWord n
  ends := by
    intro edge member
    obtain ⟨link, listed, rfl⟩ := List.mem_map.mp member
    exact ⟨List.mem_map_of_mem (wired.ends link listed).1,
      List.mem_map_of_mem (wired.ends link listed).2⟩

/-- The topology of the links of a file, on the nodes of the file that have any. -/
structure SameLinks (file : TopoFile) (nodes : List NodeName) (adjacencyList : AdjacencyList) :
    Prop where
  topology : IsTopology nodes adjacencyList
  loopFree : Multigraph.LoopFree (neighbours adjacencyList) nodes
  order : nodes.Sublist (file.nodes.map toString)
  members : ∀ n, toString n ∈ nodes ↔ ∃ edge ∈ file.edges, n = edge.1 ∨ n = edge.2
  counted : ∀ u v, multiplicity adjacencyList (toString u) (toString v) =
    file.edges.count (u, v) + file.edges.count (v, u)

theorem SameLinks.name {file : TopoFile} {nodes : List NodeName} {adjacencyList : AdjacencyList}
    (same : SameLinks file nodes adjacencyList) {node : NodeName} (member : node ∈ nodes) :
    ∃ n ∈ file.nodes, toString n = node :=
  List.mem_map.mp (same.order.subset member)

theorem SameLinks.linked {file : TopoFile} {nodes : List NodeName} {adjacencyList : AdjacencyList}
    (same : SameLinks file nodes adjacencyList) {node : NodeName} (member : node ∈ nodes) :
    neighbours adjacencyList node ≠ [] := by
  obtain ⟨n, -, rfl⟩ := same.name member
  obtain ⟨⟨u, v⟩, listed, ends⟩ := (same.members n).mp member
  have some_link : 0 < file.edges.count (u, v) := List.count_pos_iff.mpr listed
  have linked {a : Nat} (counted : 0 < multiplicity adjacencyList (toString n) (toString a)) :
      neighbours adjacencyList (toString n) ≠ [] :=
    List.ne_nil_of_mem (List.count_pos_iff.mp counted)
  rcases ends with rfl | rfl
  · exact linked (by rw [same.counted n v]; omega)
  · exact linked (by rw [same.counted n u]; omega)

theorem Wired.read {file : TopoFile} (wired : Wired file) :
    ∃ nodes adjacencyList, readGraphFromTopoFile file.text = some (nodes, adjacencyList) ∧
      SameLinks file nodes adjacencyList := by
  obtain ⟨nodes, adjacencyList, run, back⟩ := readGraphFromTopoFile_topoText wired.writable
  refine ⟨nodes, adjacencyList, run, back.topology, back.loopFree ?_, back.order, ?_, ?_⟩
  · intro edge member
    obtain ⟨link, listed, rfl⟩ := List.mem_map.mp member
    exact mt toString_inj.mp (wired.apart link listed)
  · intro n
    rw [back.members, Touched]
    simp only [List.mem_map, exists_exists_and_eq_and, toString_inj]
  · intro u v
    rw [back.counted]
    have forward := List.count_map_of_injective file.edges _ named_injective (u, v)
    have backward := List.count_map_of_injective file.edges _ named_injective (v, u)
    rw [← forward, ← backward]

/-- Every script's file is read as the topology of its links; nodes without links are lost. -/
theorem generateTopo_read {topo : GeneratedTopo} {fuel : Nat} {file : TopoFile}
    (declares : topo.DeclaresEnds) (run : generateTopo fuel topo = some file) :
    ∃ nodes adjacencyList, readGraphFromTopoFile file.text = some (nodes, adjacencyList) ∧
      SameLinks file nodes adjacencyList :=
  (generateTopo_wired declares run).read

theorem generateTopo_read_trie :
    ∃ nodes adjacencyList,
      readGraphFromTopoFile (TopoFile.text ⟨[1, 2, 3], [(2, 1), (3, 1)]⟩) =
        some (nodes, adjacencyList) ∧
      SameLinks ⟨[1, 2, 3], [(2, 1), (3, 1)]⟩ nodes adjacencyList :=
  @generateTopo_read (.topo (.trie 3 2)) 3 _ ⟨by decide, by decide⟩ (by decide)

end Reading

end SplitNN.Coordinator
