import Mathlib
import SplitNN.Coordinator.ReadTopoFile

set_option autoImplicit false

namespace SplitNN.Coordinator

open Text

inductive ConvertError where
  | valueError
  | keyError
  | assertionError
deriving DecidableEq

abbrev AdjMatrix := Dict Nat (List (Nat × Nat))

structure NodeIds where
  nodeName2id : Dict NodeName Nat
  nodeid2name : Dict Nat NodeName

-- The result of a converter, together with what it has written, one string for each `write`.
structure MetisGraph where
  nodeid2name : Dict Nat NodeName
  adjMatrix : AdjMatrix
  edgeNum : Nat
  file : List String
deriving DecidableEq

def MetisGraph.nodeIds (graph : MetisGraph) : List Nat := graph.nodeid2name.keys

def MetisGraph.neighborsOf (graph : MetisGraph) (nodeId : Nat) : List (Nat × Nat) :=
  graph.adjMatrix.getD nodeId []

def getKey {κ ν : Type} [DecidableEq κ] (d : Dict κ ν) (key : κ) : Except ConvertError ν :=
  match d.get? key with
  | none => .error .keyError
  | some value => .ok value

def orValueError {α : Type} : Option α → Except ConvertError α
  | none => .error .valueError
  | some value => .ok value

def allocateIds (nodeNames : List NodeName) : NodeIds :=
  nodeNames.zipIdx.foldl (fun ids entry => {
    nodeName2id := ids.nodeName2id.set entry.1 (entry.2 + 1)
    nodeid2name := ids.nodeid2name.set (entry.2 + 1) entry.1 }) ⟨Dict.empty, Dict.empty⟩

def edgeWeight : Nat := 1

def ensureId (adjMatrix : AdjMatrix) (nodeId : Nat) : AdjMatrix :=
  if nodeId ∈ adjMatrix.keys then adjMatrix else adjMatrix.set nodeId []

-- Both converters store an edge at both of its ends.
def addMetisEdge (adjMatrix : AdjMatrix) (edge : Nat × Nat) : AdjMatrix :=
  ((ensureId (ensureId adjMatrix edge.1) edge.2).adjust edge.1 (· ++ [(edge.2, edgeWeight)])).adjust
    edge.2 (· ++ [(edge.1, edgeWeight)])

def headerLine (nodeNum edgeNum : Nat) : String := s!"{nodeNum} {edgeNum} 1\n"

def commentLine (nodeName : NodeName) : String := s!"% node_name: {nodeName}\n"

def vertexLine (adj : List (Nat × Nat)) : String :=
  String.join (adj.map fun entry => s!" {entry.1} {entry.2}") ++ "\n"

def writeVertex (nodeid2name : Dict Nat NodeName) (adjMatrix : AdjMatrix) (written : List String)
    (entry : Nat × Nat) : Except ConvertError (List String) :=
  let (nodeId, i) := entry
  -- `assert i == node_id - 1`
  if i + 1 = nodeId then do
    let nodeName ← getKey nodeid2name nodeId
    let adj ← getKey adjMatrix nodeId
    return written ++ [commentLine nodeName, vertexLine adj]
  else .error .assertionError

def writeMetisGraph (nodeid2name : Dict Nat NodeName) (adjMatrix : AdjMatrix) (edgeNum : Nat) :
    Except ConvertError (List String) :=
  (adjMatrix.keys.insertionSort (· ≤ ·)).zipIdx.foldlM (writeVertex nodeid2name adjMatrix)
    [headerLine nodeid2name.keys.length edgeNum]

def convertLine (nodeName2id : Dict NodeName Nat) (st : AdjMatrix × Nat) (line : List Char) :
    Except ConvertError (AdjMatrix × Nat) :=
  match pySplit (strip line) with
  | [nodeNameI, nodeNameJ] => do
    let nodeIdI ← getKey nodeName2id (String.ofList nodeNameI)
    let nodeIdJ ← getKey nodeName2id (String.ofList nodeNameJ)
    return (addMetisEdge st.1 (nodeIdI, nodeIdJ), st.2 + 1)
  | _ => .error .valueError

def convertTopoToMetisGraph (text : String) : Except ConvertError MetisGraph := do
  let lines := fileLines text.toList
  let nodeNames := (pySplit (strip (lines.headD []))).map String.ofList
  let tmpAdjMatrix ← orValueError (lines.tail.foldlM scanLink (Dict.ofKeys nodeNames fun _ => []))
  let nodeNames ← orValueError
    (tmpAdjMatrix.keys.foldlM (removeIfDangling tmpAdjMatrix) nodeNames)
  let ids := allocateIds nodeNames
  let (adjMatrix, edgeNum) ← lines.tail.foldlM (convertLine ids.nodeName2id) (Dict.empty, 0)
  let file ← writeMetisGraph ids.nodeid2name adjMatrix edgeNum
  return ⟨ids.nodeid2name, adjMatrix, edgeNum, file⟩

def visitNeighbor (nodeName2id : Dict NodeName Nat) (nodeId : Nat) (st : AdjMatrix × Nat)
    (neighbor : NodeName) : Except ConvertError (AdjMatrix × Nat) := do
  let neighborId ← getKey nodeName2id neighbor
  return (addMetisEdge st.1 (nodeId, neighborId), st.2 + 1)

def visitNode (nodeName2id : Dict NodeName Nat) (adjacencyList : AdjacencyList)
    (st : AdjMatrix × Nat) (nodeName : NodeName) : Except ConvertError (AdjMatrix × Nat) := do
  let nodeId ← getKey nodeName2id nodeName
  let listed ← getKey adjacencyList nodeName
  listed.foldlM (visitNeighbor nodeName2id nodeId) st

def convertAdjlistToMetisGraph (nodes : List NodeName) (adjacencyList : AdjacencyList) :
    Except ConvertError MetisGraph := do
  let ids := allocateIds nodes
  let (adjMatrix, edgeNum) ← nodes.foldlM (visitNode ids.nodeName2id adjacencyList) (Dict.empty, 0)
  let file ← writeMetisGraph ids.nodeid2name adjMatrix edgeNum
  return ⟨ids.nodeid2name, adjMatrix, edgeNum, file⟩

section Ids

variable {nodes : List NodeName}

def idOf (nodes : List NodeName) (node : NodeName) : Nat := nodes.idxOf node + 1

theorem allocateIds_entries (nodes : List NodeName) :
    (allocateIds nodes).nodeName2id =
        Dict.ofEntries (nodes.zipIdx.map fun entry => (entry.1, entry.2 + 1)) ∧
      (allocateIds nodes).nodeid2name =
        Dict.ofEntries (nodes.zipIdx.map fun entry => (entry.2 + 1, entry.1)) := by
  have run (entries : List (NodeName × Nat)) (ids : NodeIds) :
      entries.foldl (fun ids entry => ({
        nodeName2id := ids.nodeName2id.set entry.1 (entry.2 + 1)
        nodeid2name := ids.nodeid2name.set (entry.2 + 1) entry.1 } : NodeIds)) ids =
      ⟨entries.foldl (fun d entry => d.set entry.1 (entry.2 + 1)) ids.nodeName2id,
        entries.foldl (fun d entry => d.set (entry.2 + 1) entry.1) ids.nodeid2name⟩ := by
    induction entries generalizing ids with
    | nil => rfl
    | cons entry rest ih => rw [List.foldl_cons, ih]; rfl
  simp only [allocateIds, run, Dict.ofEntries, List.foldl_map, and_self]

theorem nodeid2name_entries (nodes : List NodeName) :
    (allocateIds nodes).nodeid2name.entries =
      nodes.zipIdx.map fun entry => (entry.2 + 1, entry.1) := by
  rw [(allocateIds_entries nodes).2, Dict.entries_ofEntries]
  simp only [List.map_map, Function.comp_def]
  have numbers : nodes.zipIdx.map (fun entry => entry.2 + 1) =
      (nodes.zipIdx.map Prod.snd).map (· + 1) := by rw [List.map_map]; rfl
  rw [numbers, List.zipIdx_map_snd]
  exact List.Nodup.map (fun _ _ same => Nat.succ.inj same) List.nodup_range'

theorem nodeid2name_keys (nodes : List NodeName) :
    (allocateIds nodes).nodeid2name.keys = List.range' 1 nodes.length := by
  rw [Dict.keys, nodeid2name_entries, List.map_map]
  apply List.ext_getElem
  · simp
  · intro i left right
    simp [Nat.add_comm]

theorem nodeid2name_get? {i : Nat} (inside : i < nodes.length) :
    (allocateIds nodes).nodeid2name.get? (i + 1) = some nodes[i] := by
  rw [Dict.get?_eq_some, nodeid2name_entries, List.mem_map]
  refine ⟨(nodes[i], i), ?_, rfl⟩
  rw [List.mem_zipIdx_iff_getElem?]
  simp

theorem nodeName2id_get? (distinct : nodes.Nodup) {node : NodeName} (member : node ∈ nodes) :
    (allocateIds nodes).nodeName2id.get? node = some (idOf nodes node) := by
  have names : ((nodes.zipIdx.map fun entry => (entry.1, entry.2 + 1)).map Prod.fst) = nodes := by
    rw [List.map_map]
    exact List.zipIdx_map_fst 0 nodes
  rw [(allocateIds_entries nodes).1, Dict.get?_ofEntries (by rw [names]; exact distinct),
    List.mem_map]
  refine ⟨(node, nodes.idxOf node), ?_, rfl⟩
  rw [List.mem_zipIdx_iff_getElem?]
  simp [List.getElem?_idxOf, member]

end Ids

section Edges

-- The neighbours that an edge gives to a vertex; a loop gives the vertex to itself twice.
def endsAt (i : Nat) (edge : Nat × Nat) : List Nat :=
  (if edge.1 = i then [edge.2] else []) ++ if edge.2 = i then [edge.1] else []

def metisEdges (edges : List (Nat × Nat)) : AdjMatrix := edges.foldl addMetisEdge Dict.empty

theorem ensureId_spec (adjMatrix : AdjMatrix) (nodeId i : Nat) :
    (ensureId adjMatrix nodeId).getD i [] = adjMatrix.getD i [] ∧
      (i ∈ (ensureId adjMatrix nodeId).keys ↔ i ∈ adjMatrix.keys ∨ i = nodeId) :=
  ⟨Dict.getD_ensure adjMatrix nodeId i [], Dict.mem_keys_ensure⟩

theorem mem_keys_addMetisEdge {adjMatrix : AdjMatrix} {edge : Nat × Nat} {i : Nat} :
    i ∈ (addMetisEdge adjMatrix edge).keys ↔
      i ∈ adjMatrix.keys ∨ i = edge.1 ∨ i = edge.2 := by
  rw [addMetisEdge, Dict.keys_adjust, Dict.keys_adjust, (ensureId_spec _ _ _).2,
    (ensureId_spec _ _ _).2, or_assoc]

theorem getD_addMetisEdge (adjMatrix : AdjMatrix) (edge : Nat × Nat) (i : Nat) :
    (addMetisEdge adjMatrix edge).getD i [] =
      adjMatrix.getD i [] ++ (endsAt i edge).map fun j => (j, edgeWeight) := by
  obtain ⟨a, b⟩ := edge
  have values (j : Nat) : (ensureId (ensureId adjMatrix a) b).getD j [] = adjMatrix.getD j [] := by
    rw [(ensureId_spec _ _ _).1, (ensureId_spec _ _ _).1]
  have left : a ∈ (ensureId (ensureId adjMatrix a) b).keys :=
    (ensureId_spec _ _ _).2.mpr (.inl ((ensureId_spec _ _ _).2.mpr (.inr rfl)))
  have right :
      b ∈ ((ensureId (ensureId adjMatrix a) b).adjust a (· ++ [(b, edgeWeight)])).keys := by
    rw [Dict.keys_adjust]
    exact (ensureId_spec _ _ _).2.mpr (.inr rfl)
  simp only [addMetisEdge, Dict.getD_adjust _ right, Dict.getD_adjust _ left, values, endsAt]
  by_cases first : i = a <;> by_cases second : i = b
  · subst first second
    simp
  · subst first
    simp [second, Ne.symm second]
  · subst second
    simp [first, Ne.symm first]
  · simp [first, second, Ne.symm first, Ne.symm second]

theorem metisEdges_spec (edges : List (Nat × Nat)) (i : Nat) :
    (metisEdges edges).getD i [] = (edges.flatMap (endsAt i)).map (fun j => (j, edgeWeight)) ∧
      (i ∈ (metisEdges edges).keys ↔ ∃ edge ∈ edges, i = edge.1 ∨ i = edge.2) := by
  have run (edges : List (Nat × Nat)) (adjMatrix : AdjMatrix) :
      (edges.foldl addMetisEdge adjMatrix).getD i [] = adjMatrix.getD i [] ++
          (edges.flatMap (endsAt i)).map (fun j => (j, edgeWeight)) ∧
        (i ∈ (edges.foldl addMetisEdge adjMatrix).keys ↔
          i ∈ adjMatrix.keys ∨ ∃ edge ∈ edges, i = edge.1 ∨ i = edge.2) := by
    induction edges generalizing adjMatrix with
    | nil => simp
    | cons edge rest ih =>
      obtain ⟨values, keys⟩ := ih (addMetisEdge adjMatrix edge)
      constructor
      · rw [List.foldl_cons, values, getD_addMetisEdge, List.flatMap_cons, List.map_append,
          List.append_assoc]
      · rw [List.foldl_cons, keys, mem_keys_addMetisEdge]
        simp [or_assoc]
  obtain ⟨values, keys⟩ := run edges Dict.empty
  exact ⟨by simpa [metisEdges, Dict.getD] using values, by simpa [metisEdges] using keys⟩

end Edges

section Write

variable {nodeid2name : Dict Nat NodeName} {adjMatrix : AdjMatrix}

theorem sorted_ids {n : Nat} (ids : ∀ i, i ∈ adjMatrix.keys ↔ i ∈ List.range' 1 n) :
    adjMatrix.keys.insertionSort (· ≤ ·) = List.range' 1 n := by
  have same : adjMatrix.keys.Perm (List.range' 1 n) :=
    (List.perm_ext_iff_of_nodup adjMatrix.keys_nodup List.nodup_range').mpr ids
  exact ((List.perm_insertionSort _ _).trans same).eq_of_pairwise'
    (List.pairwise_insertionSort _ _) (List.pairwise_le_range' 1)

theorem getKey_found {κ ν : Type} [DecidableEq κ] {d : Dict κ ν} {key : κ} (default : ν)
    (member : key ∈ d.keys) : getKey d key = .ok (d.getD key default) := by
  have ⟨value, found⟩ := d.exists_get? member
  simp [getKey, Dict.getD, found]

theorem writeVertices_ok {entries : List (Nat × Nat)}
    (each : ∀ entry ∈ entries, entry.2 + 1 = entry.1 ∧ entry.1 ∈ nodeid2name.keys ∧
      entry.1 ∈ adjMatrix.keys) (written : List String) :
    entries.foldlM (writeVertex nodeid2name adjMatrix) written =
      .ok (written ++ (entries.map Prod.fst).flatMap fun nodeId =>
        [commentLine (nodeid2name.getD nodeId ""), vertexLine (adjMatrix.getD nodeId [])]) := by
  induction entries generalizing written with
  | nil => simp [pure, Except.pure]
  | cons entry rest ih =>
    obtain ⟨numbered, named, stored⟩ := each entry (by simp)
    have first : writeVertex nodeid2name adjMatrix written entry = .ok (written ++
        [commentLine (nodeid2name.getD entry.1 ""), vertexLine (adjMatrix.getD entry.1 [])]) := by
      rw [writeVertex, if_pos numbered, getKey_found "" named, getKey_found [] stored]
      rfl
    rw [List.foldlM_cons, first]
    exact (ih (fun other member => each other (List.mem_cons_of_mem entry member)) _).trans
      (by simp)

theorem writeMetisGraph_ok {n : Nat} (names : nodeid2name.keys = List.range' 1 n)
    (ids : ∀ i, i ∈ adjMatrix.keys ↔ i ∈ List.range' 1 n) (edgeNum : Nat) :
    writeMetisGraph nodeid2name adjMatrix edgeNum =
      .ok (headerLine n edgeNum :: (List.range' 1 n).flatMap fun nodeId =>
        [commentLine (nodeid2name.getD nodeId ""), vertexLine (adjMatrix.getD nodeId [])]) := by
  rw [writeMetisGraph, sorted_ids ids, writeVertices_ok, List.zipIdx_map_fst, names,
    List.length_range']
  · rfl
  · intro entry member
    have place := List.mem_zipIdx_iff_getElem?.mp member
    have ⟨inside, here⟩ := List.getElem?_eq_some_iff.mp place
    have known : entry.1 ∈ List.range' 1 n := here ▸ List.getElem_mem _
    rw [List.getElem_range'] at here
    exact ⟨by omega, names ▸ known, (ids _).mpr known⟩

end Write

section Graph

variable {nodes : List NodeName} {links : List (NodeName × NodeName)}

def idEdges (nodes : List NodeName) (links : List (NodeName × NodeName)) : List (Nat × Nat) :=
  links.map fun link => (idOf nodes link.1, idOf nodes link.2)

def metisGraph (nodes : List NodeName) (links : List (NodeName × NodeName)) : MetisGraph where
  nodeid2name := (allocateIds nodes).nodeid2name
  adjMatrix := metisEdges (idEdges nodes links)
  edgeNum := links.length
  file := headerLine nodes.length links.length ::
    (List.range' 1 nodes.length).flatMap fun nodeId =>
      [commentLine ((allocateIds nodes).nodeid2name.getD nodeId ""),
        vertexLine ((metisEdges (idEdges nodes links)).getD nodeId [])]

theorem neighborsOf_metisGraph (i : Nat) : (metisGraph nodes links).neighborsOf i =
    ((idEdges nodes links).flatMap (endsAt i)).map fun j => (j, edgeWeight) :=
  (metisEdges_spec _ i).1

structure Covers (nodes : List NodeName) (links : List (NodeName × NodeName)) : Prop where
  distinct : nodes.Nodup
  within : ∀ link ∈ links, link.1 ∈ nodes ∧ link.2 ∈ nodes
  reached : ∀ node ∈ nodes, ∃ link ∈ links, node = link.1 ∨ node = link.2

theorem mem_ids {i : Nat} :
    i ∈ List.range' 1 nodes.length ↔ ∃ index, ∃ _ : index < nodes.length, i = index + 1 := by
  rw [List.mem_range'_1]
  constructor
  next => exact fun ⟨low, high⟩ => ⟨i - 1, by omega, by omega⟩
  next =>
    rintro ⟨index, inside, rfl⟩
    omega

theorem idOf_mem {node : NodeName} (member : node ∈ nodes) :
    idOf nodes node ∈ List.range' 1 nodes.length :=
  mem_ids.mpr ⟨_, List.idxOf_lt_length_of_mem member, rfl⟩

theorem idOf_inj {node other : NodeName} (member : node ∈ nodes) :
    idOf nodes node = idOf nodes other ↔ node = other := by
  rw [idOf, idOf, Nat.add_right_cancel_iff, List.idxOf_inj member]

theorem Covers.keys (covers : Covers nodes links) (i : Nat) :
    i ∈ (metisEdges (idEdges nodes links)).keys ↔ i ∈ List.range' 1 nodes.length := by
  rw [(metisEdges_spec _ i).2]
  constructor
  next =>
    rintro ⟨edge, listed, same⟩
    have ⟨link, member, here⟩ := List.mem_map.mp listed
    have ⟨left, right⟩ := covers.within link member
    rcases same with rfl | rfl
    · exact here ▸ idOf_mem left
    · exact here ▸ idOf_mem right
  next =>
    intro known
    have ⟨index, inside, same⟩ := mem_ids.mp known
    have ⟨link, member, reaches⟩ := covers.reached nodes[index] (List.getElem_mem inside)
    have id : idOf nodes nodes[index] = i := by
      rw [idOf, covers.distinct.idxOf_getElem, same]
    refine ⟨_, List.mem_map_of_mem member, ?_⟩
    rcases reaches with left | right
    · exact .inl (by rw [← left, id])
    · exact .inr (by rw [← right, id])

theorem Covers.write (covers : Covers nodes links) :
    writeMetisGraph (allocateIds nodes).nodeid2name (metisEdges (idEdges nodes links))
      links.length = .ok (metisGraph nodes links).file :=
  writeMetisGraph_ok (nodeid2name_keys nodes) covers.keys links.length

-- The pairs in the order in which the loops over nodes and neighbours meet them.
def listedLinks (nodes : List NodeName) (adjacencyList : AdjacencyList) :
    List (NodeName × NodeName) :=
  nodes.flatMap fun u => (neighbours adjacencyList u).map fun v => (u, v)

theorem visitNeighbors_ok (distinct : nodes.Nodup) {u : NodeName} {listed : List NodeName}
    (closed : ∀ v ∈ listed, v ∈ nodes) (st : AdjMatrix × Nat) :
    listed.foldlM (visitNeighbor (allocateIds nodes).nodeName2id (idOf nodes u)) st =
      .ok ((idEdges nodes (listed.map fun v => (u, v))).foldl addMetisEdge st.1,
        st.2 + listed.length) := by
  induction listed generalizing st with
  | nil => rfl
  | cons v rest ih =>
    have first : visitNeighbor (allocateIds nodes).nodeName2id (idOf nodes u) st v =
        .ok (addMetisEdge st.1 (idOf nodes u, idOf nodes v), st.2 + 1) := by
      simp [visitNeighbor, getKey, nodeName2id_get? distinct (closed v (by simp)), bind,
        Except.bind, pure, Except.pure]
    rw [List.foldlM_cons, first]
    refine (ih (fun w member => closed w (List.mem_cons_of_mem v member)) _).trans ?_
    simp [idEdges, Nat.add_assoc, Nat.add_comm 1]

theorem visitNodes_ok {adjacencyList : AdjacencyList} (graph : IsGraph nodes adjacencyList)
    {visited : List NodeName} (within : ∀ u ∈ visited, u ∈ nodes) (st : AdjMatrix × Nat) :
    visited.foldlM (visitNode (allocateIds nodes).nodeName2id adjacencyList) st =
      .ok ((idEdges nodes (listedLinks visited adjacencyList)).foldl addMetisEdge st.1,
        st.2 + (listedLinks visited adjacencyList).length) := by
  induction visited generalizing st with
  | nil => rfl
  | cons u rest ih =>
    have member := within u (by simp)
    have first : visitNode (allocateIds nodes).nodeName2id adjacencyList st u =
        .ok ((idEdges nodes ((neighbours adjacencyList u).map fun v => (u, v))).foldl
          addMetisEdge st.1, st.2 + (neighbours adjacencyList u).length) := by
      rw [visitNode, getKey, nodeName2id_get? graph.distinct member, getKey,
        neighbours_found (graph.listed u member)]
      exact visitNeighbors_ok graph.distinct (graph.closed u member) st
    rw [List.foldlM_cons, first]
    refine (ih (fun v inRest => within v (List.mem_cons_of_mem u inRest)) _).trans ?_
    simp [idEdges, listedLinks, Nat.add_assoc]

theorem listedLinks_covers {adjacencyList : AdjacencyList} (graph : IsGraph nodes adjacencyList)
    (linked : ∀ node ∈ nodes, neighbours adjacencyList node ≠ []) :
    Covers nodes (listedLinks nodes adjacencyList) where
  distinct := graph.distinct
  within := by
    intro link listed
    have ⟨u, member, found⟩ := List.mem_flatMap.mp listed
    have ⟨v, neighbor, same⟩ := List.mem_map.mp found
    exact same ▸ ⟨member, graph.closed u member v neighbor⟩
  reached := by
    intro node member
    have ⟨v, neighbor⟩ := List.exists_mem_of_ne_nil _ (linked node member)
    exact ⟨(node, v), List.mem_flatMap.mpr ⟨node, member, List.mem_map_of_mem neighbor⟩, .inl rfl⟩

theorem convertAdjlist_eq {adjacencyList : AdjacencyList} (graph : IsGraph nodes adjacencyList)
    (linked : ∀ node ∈ nodes, neighbours adjacencyList node ≠ []) :
    convertAdjlistToMetisGraph nodes adjacencyList =
      .ok (metisGraph nodes (listedLinks nodes adjacencyList)) := by
  have visited := visitNodes_ok graph (fun u member => member) (Dict.empty, 0)
  have written := (listedLinks_covers graph linked).write
  rw [Nat.zero_add] at visited
  rw [metisEdges] at written
  simp only [convertAdjlistToMetisGraph, visited, bind, Except.bind, written]
  rfl

end Graph

end SplitNN.Coordinator
