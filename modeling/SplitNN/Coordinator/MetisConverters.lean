import Mathlib
import SplitNN.Coordinator.TopoFileGraph

set_option autoImplicit false

namespace SplitNN.Coordinator

open Text

variable {text : String} {nodes : List NodeName} {adjacencyList : AdjacencyList}

section Topo

theorem getKey_some {κ ν : Type} [DecidableEq κ] {d : Dict κ ν} {key : κ} {value : ν}
    (found : d.get? key = some value) : getKey d key = .ok value := by
  rw [getKey, found]

theorem convertLine_link {line : List Char} {link : NodeName × NodeName}
    (found : linkOf line = some link) (nodeName2id : Dict NodeName Nat) (st : AdjMatrix × Nat) :
    convertLine nodeName2id st line = (do
      let nodeIdI ← getKey nodeName2id link.1
      let nodeIdJ ← getKey nodeName2id link.2
      return (addMetisEdge st.1 (nodeIdI, nodeIdJ), st.2 + 1)) := by
  unfold linkOf at found
  unfold convertLine
  generalize pySplit (strip line) = words at found
  rcases words with _ | ⟨first, _ | ⟨second, _ | ⟨third, rest⟩⟩⟩
  · cases found
  · cases found
  · obtain rfl := Option.some.inj found
    rfl
  · cases found

theorem convertLines_ok (distinct : nodes.Nodup) {lines : List (List Char)}
    (links : ∀ line ∈ lines, (linkOf line).isSome)
    (within : ∀ link ∈ lines.filterMap linkOf, link.1 ∈ nodes ∧ link.2 ∈ nodes)
    (st : AdjMatrix × Nat) :
    lines.foldlM (convertLine (allocateIds nodes).nodeName2id) st =
      .ok ((idEdges nodes (lines.filterMap linkOf)).foldl addMetisEdge st.1,
        st.2 + (lines.filterMap linkOf).length) := by
  induction lines generalizing st with
  | nil => rfl
  | cons line rest ih =>
    have ⟨link, found⟩ := Option.isSome_iff_exists.mp (links line (by simp))
    rw [List.filterMap_cons_some found] at within ⊢
    have ⟨left, right⟩ := within link (by simp)
    have first : convertLine (allocateIds nodes).nodeName2id st line =
        .ok (addMetisEdge st.1 (idOf nodes link.1, idOf nodes link.2), st.2 + 1) := by
      rw [convertLine_link found, getKey_some (nodeName2id_get? distinct left),
        getKey_some (nodeName2id_get? distinct right)]
      rfl
    rw [List.foldlM_cons, first]
    refine (ih (fun other member => links other (List.mem_cons_of_mem line member))
      (fun other member => within other (List.mem_cons_of_mem link member)) _).trans ?_
    simp [idEdges, Nat.add_assoc, Nat.add_comm 1]

theorem fileLinks_covers (declared : WellDeclared text)
    (read : readGraphFromTopoFile text = some (nodes, adjacencyList)) :
    Covers nodes (fileLinks text) where
  distinct := (declared.read_nodes read).1
  within := fun link listed =>
    ⟨((declared.read_nodes read).2 _).mpr ⟨link, listed, .inl rfl⟩,
      ((declared.read_nodes read).2 _).mpr ⟨link, listed, .inr rfl⟩⟩
  reached := fun node member => ((declared.read_nodes read).2 node).mp member

theorem convertTopo_eq (declared : WellDeclared text)
    (read : readGraphFromTopoFile text = some (nodes, adjacencyList)) :
    convertTopoToMetisGraph text = .ok (metisGraph nodes (fileLinks text)) := by
  have covers := fileLinks_covers declared read
  simp only [readGraphFromTopoFile, Option.bind_eq_bind, Option.bind_eq_some_iff,
    Option.pure_def, Option.some.injEq, Prod.mk.injEq] at read
  obtain ⟨tmpAdjacencyList, firstScan, _, removed, _, secondScan, sameNodes, _⟩ := read
  rw [sameNodes] at removed
  have scanned : (fileLines text.toList).tail.foldlM
      (convertLine (allocateIds nodes).nodeName2id) (Dict.empty, 0) =
        .ok (metisEdges (idEdges nodes (fileLinks text)), (fileLinks text).length) := by
    have run := convertLines_ok covers.distinct (scanLinks_iff.mp secondScan).1 covers.within
      (Dict.empty, 0)
    rwa [Nat.zero_add] at run
  simp only [convertTopoToMetisGraph, firstScan, removed, orValueError, scanned, covers.write,
    bind, Except.bind]
  rfl

end Topo

section Doubling

theorem listedLinks_perm (declared : WellDeclared text)
    (read : readGraphFromTopoFile text = some (nodes, adjacencyList)) :
    (listedLinks nodes adjacencyList).Perm (fileLinks text ++ (fileLinks text).map Prod.swap) := by
  have ⟨distinct, members⟩ := declared.read_nodes read
  rw [List.perm_iff_count]
  rintro ⟨u, v⟩
  have swapped : ((fileLinks text).map Prod.swap).count (u, v) = (fileLinks text).count (v, u) :=
    List.count_map_of_injective (fileLinks text) Prod.swap Prod.swap_injective (v, u)
  have listed : (listedLinks nodes adjacencyList).count (u, v) =
      if u ∈ nodes then multiplicity adjacencyList u v else 0 := by
    have counted := Multigraph.count_oriented (fun _ _ => true) (neighbours adjacencyList) distinct
      u v
    simpa [Multigraph.oriented, listedLinks, multiplicity] using counted
  rw [listed, List.count_append, swapped, multiplicity_read read]
  split
  next => rfl
  next outside =>
    have first : (u, v) ∉ fileLinks text := fun member =>
      outside ((members u).mpr ⟨_, member, .inl rfl⟩)
    have second : (v, u) ∉ fileLinks text := fun member =>
      outside ((members u).mpr ⟨_, member, .inr rfl⟩)
    rw [List.count_eq_zero.mpr first, List.count_eq_zero.mpr second]

theorem count_endsAt_idOf {a b u v : NodeName} (first : a ∈ nodes) (second : b ∈ nodes) :
    (endsAt (idOf nodes u) (idOf nodes a, idOf nodes b)).count (idOf nodes v) =
      [(a, b)].count (u, v) + [(a, b)].count (v, u) := by
  simp only [endsAt, idOf_inj first, idOf_inj second, List.count_append, List.count_singleton,
    beq_iff_eq, Prod.mk.injEq]
  congr 1
  · by_cases same : a = u <;> simp [same, List.count_singleton, idOf_inj second]
  · by_cases same : b = u <;> simp [same, List.count_singleton, idOf_inj first]

theorem count_neighborsOf {links : List (NodeName × NodeName)} {u v : NodeName} (different : u ≠ v)
    (within : ∀ link ∈ links, link.1 ∈ nodes ∧ link.2 ∈ nodes) :
    (((metisGraph nodes links).neighborsOf (idOf nodes u)).map Prod.fst).count (idOf nodes v) =
      joined links u v := by
  rw [neighborsOf_metisGraph, List.map_map, joined, Multigraph.count_unordered _ different]
  simp only [Function.comp_def, List.map_id']
  induction links with
  | nil => rfl
  | cons link rest ih =>
    obtain ⟨first, second⟩ := within link (by simp)
    have later := ih fun other member => within other (List.mem_cons_of_mem link member)
    have split : link :: rest = [(link.1, link.2)] ++ rest := rfl
    rw [split, idEdges, List.map_append, List.flatMap_append, List.count_append, List.count_append,
      List.count_append]
    simp only [idEdges] at later
    rw [later, List.map_singleton, List.flatMap_singleton, count_endsAt_idOf first second]
    omega

theorem count_endsAt_swap (i j : Nat) (edge : Nat × Nat) :
    (endsAt i edge.swap).count j = (endsAt i edge).count j := by
  simp only [endsAt, List.count_append, Prod.fst_swap, Prod.snd_swap]
  omega

structure ConvertersAgree (graph other : MetisGraph) : Prop where
  nodeIds : graph.nodeIds = other.nodeIds
  names : graph.nodeid2name = other.nodeid2name
  edgeNum : graph.edgeNum = other.edgeNum
  vertices : ∀ i, i ∈ graph.adjMatrix.keys ↔ i ∈ other.adjMatrix.keys
  neighbors : ∀ i, (graph.neighborsOf i).Perm (other.neighborsOf i)

-- Both ends of a link line have one entry for it.
def OncePerEnd (links : List (NodeName × NodeName)) (nodes : List NodeName) (graph : MetisGraph) :
    Prop :=
  ∀ u v, u ≠ v →
    ((graph.neighborsOf (idOf nodes u)).map Prod.fst).count (idOf nodes v) = joined links u v

def ConvertersDescribeSame (text : String) (nodes : List NodeName) (adjacencyList : AdjacencyList) :
    Prop :=
  ∃ graph other, convertTopoToMetisGraph text = .ok graph ∧
    convertAdjlistToMetisGraph nodes adjacencyList = .ok other ∧ ConvertersAgree graph other ∧
    OncePerEnd (fileLinks text) nodes graph ∧ OncePerEnd (fileLinks text) nodes other

theorem convertAdjlist_doubles (declared : WellDeclared text)
    (read : readGraphFromTopoFile text = some (nodes, adjacencyList)) : ∃ graph other,
    convertTopoToMetisGraph text = .ok graph ∧
      convertAdjlistToMetisGraph nodes adjacencyList = .ok other ∧
      OncePerEnd (fileLinks text) nodes graph ∧ other.edgeNum = 2 * graph.edgeNum ∧
      ∀ i j, ((other.neighborsOf i).map Prod.fst).count j =
        2 * ((graph.neighborsOf i).map Prod.fst).count j := by
  have ⟨topology, linked⟩ := declared.read_topology read
  have twice := listedLinks_perm declared read
  refine ⟨_, _, convertTopo_eq declared read, convertAdjlist_eq topology.isGraph linked,
    fun u v different => count_neighborsOf different (fileLinks_covers declared read).within,
    ?_, fun i j => ?_⟩
  · change (listedLinks nodes adjacencyList).length = 2 * (fileLinks text).length
    rw [twice.length_eq, List.length_append, List.length_map, Nat.two_mul]
  · have edges : (idEdges nodes (listedLinks nodes adjacencyList)).Perm
        (idEdges nodes (fileLinks text) ++ (idEdges nodes (fileLinks text)).map Prod.swap) := by
      have renamed := twice.map fun link => (idOf nodes link.1, idOf nodes link.2)
      rw [List.map_append, List.map_map] at renamed
      rw [idEdges, idEdges, List.map_map]
      exact renamed
    have swapped : (((idEdges nodes (fileLinks text)).map Prod.swap).flatMap (endsAt i)).count j =
        ((idEdges nodes (fileLinks text)).flatMap (endsAt i)).count j := by
      rw [List.flatMap_map, List.count_flatMap, List.count_flatMap]
      simp only [Function.comp_def, count_endsAt_swap]
    simp only [neighborsOf_metisGraph, List.map_map, Function.comp_def, List.map_id']
    rw [(edges.flatMap_right (endsAt i)).count_eq, List.flatMap_append, List.count_append, swapped,
      Nat.two_mul]

/-- A doubled edge number is the right one only where there are no links. -/
theorem converters_describe_same_iff (declared : WellDeclared text)
    (read : readGraphFromTopoFile text = some (nodes, adjacencyList)) :
    ConvertersDescribeSame text nodes adjacencyList ↔ fileLinks text = [] := by
  have ⟨topology, linked⟩ := declared.read_topology read
  have fromTopo := convertTopo_eq declared read
  have fromAdjlist := convertAdjlist_eq topology.isGraph linked
  have twice := listedLinks_perm declared read
  constructor
  next =>
    rintro ⟨graph, other, first, second, agree, _⟩
    rw [fromTopo] at first
    rw [fromAdjlist] at second
    obtain rfl := Except.ok.inj first
    obtain rfl := Except.ok.inj second
    have numbers : (fileLinks text).length = (listedLinks nodes adjacencyList).length :=
      agree.edgeNum
    rw [twice.length_eq, List.length_append, List.length_map] at numbers
    exact List.eq_nil_of_length_eq_zero (by omega)
  next =>
    intro none
    rw [none, List.map_nil, List.append_nil] at twice
    have same : listedLinks nodes adjacencyList = fileLinks text := by
      rw [none]
      exact twice.eq_nil
    rw [same] at fromAdjlist
    have once : OncePerEnd (fileLinks text) nodes (metisGraph nodes (fileLinks text)) :=
      fun u v different => count_neighborsOf different (fileLinks_covers declared read).within
    exact ⟨_, _, fromTopo, fromAdjlist, ⟨rfl, rfl, rfl, fun _ => .rfl, fun _ => .rfl⟩, once, once⟩

theorem pairList_distinct : ["1", "2"].Nodup := by decide

def pairList : AdjacencyList := ⟨[("1", ["2"]), ("2", ["1"])], pairList_distinct⟩

theorem converters_describe_same_iff_pair :
    ConvertersDescribeSame "1 2\n1 2\n" ["1", "2"] pairList ↔ fileLinks "1 2\n1 2\n" = [] :=
  converters_describe_same_iff ⟨by decide +kernel, by decide +kernel⟩ (by decide +kernel)

-- One link: one edge for the one converter, two for the other.
theorem single_link_doubled :
    WellDeclared "1 2\n1 2\n" ∧ (∀ link ∈ fileLinks "1 2\n1 2\n", link.1 ≠ link.2) ∧
      readGraphFromTopoFile "1 2\n1 2\n" = some (["1", "2"], pairList) ∧
      (convertTopoToMetisGraph "1 2\n1 2\n").toOption.map MetisGraph.file =
        some ["2 1 1\n", "% node_name: 1\n", " 2 1\n", "% node_name: 2\n", " 1 1\n"] ∧
      (convertAdjlistToMetisGraph ["1", "2"] pairList).toOption.map MetisGraph.file =
        some ["2 2 1\n", "% node_name: 1\n", " 2 1 2 1\n", "% node_name: 2\n", " 1 1 1 1\n"] ∧
      ¬ ConvertersDescribeSame "1 2\n1 2\n" ["1", "2"] pairList := by
  refine ⟨⟨by decide +kernel, by decide +kernel⟩, by decide +kernel, by decide +kernel,
    by decide +kernel, by decide +kernel, ?_⟩
  rintro ⟨graph, other, first, second, agree, _⟩
  have one : (convertTopoToMetisGraph "1 2\n1 2\n").toOption.map MetisGraph.edgeNum = some 1 := by
    decide +kernel
  have two : (convertAdjlistToMetisGraph ["1", "2"] pairList).toOption.map MetisGraph.edgeNum =
      some 2 := by
    decide +kernel
  rw [first] at one
  rw [second] at two
  have same := agree.edgeNum
  rw [Option.some.inj one, Option.some.inj two] at same
  cases same

end Doubling

end SplitNN.Coordinator
