import Mathlib
import SplitNN.Coordinator.SubTopologyText
import SplitNN.Coordinator.TopoFileGraph

set_option autoImplicit false

-- What the coordinator reads of a topology file that one of its programs wrote.
namespace SplitNN.Coordinator

open Text (PyWord pySplit pySplit_strip pySplit_append pySplit_nil pySplit_word pySplit_intercalate)

/-- Distinct names without spaces, with the ends of all links among them. -/
structure Writable (nodes : List String) (edges : List (String × String)) : Prop where
  distinct : nodes.Nodup
  words : ∀ node ∈ nodes, PyWord node.toList
  ends : ∀ edge ∈ edges, edge.1 ∈ nodes ∧ edge.2 ∈ nodes

def topoText (nodes : List String) (edges : List (String × String)) : String :=
  writeSubtopoToFile ⟨nodes, edges, []⟩

/-- The graph of the written links on the nodes that have any, in their order in the file. -/
structure ReadsBack (nodes : List String) (edges : List (String × String)) (read : List NodeName)
    (adjacencyList : AdjacencyList) : Prop where
  topology : IsTopology read adjacencyList
  order : read.Sublist nodes
  members : ∀ node, node ∈ read ↔ Touched edges node
  counted : ∀ u v, multiplicity adjacencyList u v = edges.count (u, v) + edges.count (v, u)

section Lines

variable {nodes : List String} {edges : List (String × String)}

theorem space_not_word {c : Char} (space : Text.isPySpace c = true) {word : List Char}
    (proper : PyWord word) : c ∉ word := by
  intro member
  rw [proper.2 c member] at space
  cases space

theorem Writable.edge_words (writable : Writable nodes edges) {edge : String × String}
    (member : edge ∈ edges) : PyWord edge.1.toList ∧ PyWord edge.2.toList :=
  ⟨writable.words edge.1 (writable.ends edge member).1,
    writable.words edge.2 (writable.ends edge member).2⟩

theorem Writable.fileLines (writable : Writable nodes edges) :
    Text.fileLines (topoText nodes edges).toList =
      (fileLinesOf ⟨nodes, edges, []⟩).map fun line => line ++ ['\n'] := by
  have clean {c : Char} (space : Text.isPySpace c = true) (different : c ≠ ' ') :
      ∀ line ∈ fileLinesOf ⟨nodes, edges, []⟩, c ∉ line := by
    intro line member
    simp only [fileLinesOf, List.append_nil, List.mem_cons] at member
    rcases member with rfl | record
    · apply Text.not_mem_intercalate different
      intro word listed
      obtain ⟨node, inside, rfl⟩ := List.mem_map.mp listed
      exact space_not_word space (writable.words node inside)
    · obtain ⟨edge, inside, rfl⟩ := List.mem_map.mp record
      have words := writable.edge_words inside
      simp [space_not_word space words.1, space_not_word space words.2, different]
  rw [topoText, writeSubtopoToFile_toList,
    Text.fileLines_ofLines (clean (by decide) (by decide)) (clean (by decide) (by decide))]

theorem Writable.declaredNodes (writable : Writable nodes edges) :
    declaredNodes (topoText nodes edges) = nodes := by
  have words : ∀ word ∈ nodes.map String.toList, PyWord word := by
    intro word member
    obtain ⟨node, inside, rfl⟩ := List.mem_map.mp member
    exact writable.words node inside
  rw [Coordinator.declaredNodes, writable.fileLines, fileLinesOf, List.map_cons, List.headD_cons,
    pySplit_strip, pySplit_append (by decide), pySplit_nil, List.append_nil,
    pySplit_intercalate words, List.map_map]
  simp

theorem linkOf_record {edge : String × String} (first : PyWord edge.1.toList)
    (second : PyWord edge.2.toList) :
    linkOf (edge.1.toList ++ ' ' :: edge.2.toList ++ ['\n']) = some edge := by
  rw [linkOf, pySplit_strip, pySplit_append (by decide), pySplit_append (by decide),
    pySplit_word first, pySplit_word second, pySplit_nil]
  simp

theorem Writable.linkLines (writable : Writable nodes edges) :
    (Text.fileLines (topoText nodes edges).toList).tail.map linkOf = edges.map some := by
  rw [writable.fileLines, fileLinesOf, List.map_cons, List.tail_cons, List.append_nil,
    List.map_map, List.map_map, List.map_inj_left]
  intro edge member
  have words := writable.edge_words member
  exact linkOf_record words.1 words.2

theorem Writable.fileLinks (writable : Writable nodes edges) :
    fileLinks (topoText nodes edges) = edges := by
  have lines := congrArg (fun links => links.filterMap id) writable.linkLines
  simpa [Coordinator.fileLinks, List.filterMap_map, Function.comp_def] using lines

end Lines

section Reading

theorem removeIfDangling_sublist {tmpAdjacencyList : AdjacencyList} {nodes next : List NodeName}
    {name : NodeName} (removed : removeIfDangling tmpAdjacencyList nodes name = some next) :
    next.Sublist nodes := by
  unfold removeIfDangling at removed
  split at removed
  next =>
    split at removed
    next =>
      obtain rfl := Option.some.inj removed
      exact List.erase_sublist
    next => cases removed
  next =>
    obtain rfl := Option.some.inj removed
    exact List.Sublist.refl _

theorem removeDangling_runs {tmpAdjacencyList : AdjacencyList} {names nodes : List NodeName}
    (distinct : names.Nodup)
    (listed : ∀ name ∈ names, (neighbours tmpAdjacencyList name).length = 0 → name ∈ nodes) :
    ∃ rest, names.foldlM (removeIfDangling tmpAdjacencyList) nodes = some rest ∧
      rest.Sublist nodes := by
  induction names generalizing nodes with
  | nil => exact ⟨nodes, rfl, List.Sublist.refl nodes⟩
  | cons name later ih =>
    obtain ⟨absent, distinct⟩ := List.nodup_cons.mp distinct
    have found : ∃ next, removeIfDangling tmpAdjacencyList nodes name = some next := by
      unfold removeIfDangling
      split
      next dangling => exact ⟨_, if_pos (listed name (by simp) dangling)⟩
      next => exact ⟨nodes, rfl⟩
    obtain ⟨next, removed⟩ := found
    have kept : ∀ other ∈ later, (neighbours tmpAdjacencyList other).length = 0 →
        other ∈ next := by
      intro other member dangling
      have different : other ≠ name := fun same => absent (same ▸ member)
      have counted := removeIfDangling_count removed other
      rw [if_neg fun given => different given.1, Nat.add_zero] at counted
      rw [← List.count_pos_iff, counted, List.count_pos_iff]
      exact listed other (List.mem_cons_of_mem _ member) dangling
    obtain ⟨rest, run, sublist⟩ := ih distinct kept
    exact ⟨rest, by rw [List.foldlM_cons, removed]; exact run,
      sublist.trans (removeIfDangling_sublist removed)⟩

variable {nodes : List String} {edges : List (String × String)}

theorem Writable.runs (writable : Writable nodes edges) :
    ∃ read adjacencyList,
      readGraphFromTopoFile (topoText nodes edges) = some (read, adjacencyList) ∧
        read.Sublist nodes := by
  have lines := writable.linkLines
  have declared := writable.declaredNodes
  have good : ∀ line ∈ (Text.fileLines (topoText nodes edges).toList).tail,
      (linkOf line).isSome := by
    intro line member
    have image := List.mem_map_of_mem (f := linkOf) member
    rw [lines] at image
    obtain ⟨edge, -, same⟩ := List.mem_map.mp image
    rw [← same]
    rfl
  have empty : ∀ node, neighbours (Dict.ofKeys nodes fun _ => []) node = [] := by
    intro node
    rw [neighbours, Dict.getD, Dict.get?_ofKeys]
    split <;> rfl
  have links := writable.fileLinks
  rw [Coordinator.fileLinks] at links
  have scan (start : AdjacencyList) :
      (Text.fileLines (topoText nodes edges).toList).tail.foldlM scanLink start =
        some (edges.foldl recordLink start) :=
    scanLinks_iff.mpr ⟨good, by rw [links]⟩
  let tmpAdjacencyList := edges.foldl recordLink (Dict.ofKeys nodes fun _ => [])
  have listed : ∀ name ∈ tmpAdjacencyList.keys,
      (neighbours tmpAdjacencyList name).length = 0 → name ∈ nodes := by
    intro name member dangling
    rw [recordLinks_dangling empty] at dangling
    rw [mem_keys_recordLinks, ← Dict.get?_isSome, Dict.get?_ofKeys] at member
    by_contra absent
    simp [absent, dangling] at member
  obtain ⟨read, run, sublist⟩ := removeDangling_runs tmpAdjacencyList.keys_nodup listed
  refine ⟨read, edges.foldl recordLink Dict.empty, ?_, sublist⟩
  rw [Coordinator.declaredNodes] at declared
  simp only [tmpAdjacencyList] at run
  simp only [readGraphFromTopoFile, declared, scan, Option.bind_eq_bind, Option.bind_some, run]
  rfl

/-- Writing and reading give the graph of the links, without the nodes that have none. -/
theorem readGraphFromTopoFile_topoText (writable : Writable nodes edges) :
    ∃ read adjacencyList,
      readGraphFromTopoFile (topoText nodes edges) = some (read, adjacencyList) ∧
        ReadsBack nodes edges read adjacencyList := by
  obtain ⟨read, adjacencyList, run, order⟩ := writable.runs
  have declared : WellDeclared (topoText nodes edges) := by
    constructor
    · rw [writable.declaredNodes]
      exact writable.distinct
    · rw [writable.declaredNodes, writable.fileLinks]
      exact writable.ends
  refine ⟨read, adjacencyList, run, (declared.read_topology run).1, order, ?_, ?_⟩
  · rw [← writable.fileLinks]
    exact (declared.read_nodes run).2
  · intro u v
    rw [multiplicity_read run, writable.fileLinks]

theorem ReadsBack.loopFree {read : List NodeName} {adjacencyList : AdjacencyList}
    (back : ReadsBack nodes edges read adjacencyList) (apart : ∀ edge ∈ edges, edge.1 ≠ edge.2) :
    Multigraph.LoopFree (neighbours adjacencyList) read := by
  intro u _ neighbor
  have positive : 0 < multiplicity adjacencyList u u := List.count_pos_iff.mpr neighbor
  have loop : (u, u) ∈ edges := by
    rw [back.counted] at positive
    rw [← List.count_pos_iff]
    omega
  exact apart (u, u) loop rfl

end Reading

end SplitNN.Coordinator
