import Mathlib
import SplitNN.Coordinator.BbnsNum
import SplitNN.Coordinator.FmtConvert

set_option autoImplicit false

namespace SplitNN.Coordinator

open Text

section ReadPartition

inductive PartitionError where
  | valueError
  | exit
  | keyError
deriving DecidableEq

-- One line of the partition file; `int` is Python's conversion of the stripped line.
def readPart (int : List Char → Option Int) (pmNum : Nat) (nodeid2pmid : Dict Nat Int)
    (entry : List Char × Nat) : Except PartitionError (Dict Nat Int) :=
  let (line, i) := entry
  match int (strip line) with
  | none => .error .valueError
  | some pmId =>
    if 0 ≤ pmId ∧ pmId < pmNum then .ok (nodeid2pmid.set (i + 1) pmId) else .error .exit

def namePart (nodeid2name : Dict Nat NodeName) (node2pmid : Dict NodeName Int)
    (entry : Nat × Int) : Except PartitionError (Dict NodeName Int) :=
  let (nodeId, pmId) := entry
  match nodeid2name.get? nodeId with
  | none => .error .keyError
  | some nodeName => .ok (node2pmid.set nodeName pmId)

-- The end of `partition_tbs`, from the lines of the partition file on.
def readPartition (int : List Char → Option Int) (pmNum : Nat) (nodeid2name : Dict Nat NodeName)
    (lines : List (List Char)) : Except PartitionError (Dict NodeName Int) := do
  let nodeid2pmid ← lines.zipIdx.foldlM (readPart int pmNum) Dict.empty
  nodeid2pmid.entries.foldlM (namePart nodeid2name) Dict.empty

theorem foldlM_sets {α κ ν ε : Type} [DecidableEq κ] {step : Dict κ ν → α → Except ε (Dict κ ν)}
    {entries : List α} {pairs : List (κ × ν)}
    (each : List.Forall₂ (fun entry pair => ∀ d, step d entry = .ok (d.set pair.1 pair.2))
      entries pairs) (d : Dict κ ν) :
    entries.foldlM step d = .ok (pairs.foldl (fun d pair => d.set pair.1 pair.2) d) := by
  induction each generalizing d with
  | nil => rfl
  | cons first _ ih => rw [List.foldlM_cons, first d]; exact ih _

variable {nodes : List NodeName} {int : List Char → Option Int} {pmNum : Nat}
  {lines : List (List Char)} {parts : List Int}

theorem readParts_ok (parsed : lines.map (fun line => int (strip line)) = parts.map some)
    (inRange : ∀ part ∈ parts, 0 ≤ part ∧ part < pmNum) :
    lines.zipIdx.foldlM (readPart int pmNum) Dict.empty =
      .ok (Dict.ofEntries (parts.zipIdx.map fun entry => (entry.2 + 1, entry.1))) := by
  have lengths : lines.length = parts.length := by simpa using congrArg List.length parsed
  refine foldlM_sets (List.forall₂_iff_get.mpr ⟨by simp [lengths], fun i left right => ?_⟩) _
  intro d
  have inLines : i < lines.length := by simpa using left
  have inParts : i < parts.length := lengths ▸ inLines
  have read : int (strip lines[i]) = some parts[i] := by
    have same := congrArg (fun answers => answers[i]?) parsed
    simpa [inLines, inParts] using same
  have bound := inRange parts[i] (List.getElem_mem inParts)
  simp [readPart, read, bound]

theorem readPartition_ok (parsed : lines.map (fun line => int (strip line)) = parts.map some)
    (inRange : ∀ part ∈ parts, 0 ≤ part ∧ part < pmNum) (whole : parts.length = nodes.length) :
    readPartition int pmNum (allocateIds nodes).nodeid2name lines =
      .ok (Dict.ofEntries (nodes.zip parts)) := by
  have numbers : ((parts.zipIdx.map fun entry => (entry.2 + 1, entry.1)).map Prod.fst).Nodup := by
    have ids : (parts.zipIdx.map fun entry => (entry.2 + 1, entry.1)).map Prod.fst =
        (parts.zipIdx.map Prod.snd).map (· + 1) := by
      rw [List.map_map, List.map_map]
      rfl
    rw [ids, List.zipIdx_map_snd]
    exact List.Nodup.map (fun _ _ same => Nat.succ.inj same) List.nodup_range'
  rw [readPartition, readParts_ok parsed inRange]
  change (Dict.ofEntries _).entries.foldlM _ _ = _
  rw [Dict.entries_ofEntries numbers]
  refine foldlM_sets (List.forall₂_iff_get.mpr ⟨by simp [whole], fun i left right => ?_⟩) _
  intro d
  have inParts : i < parts.length := by simpa using left
  have name := @nodeid2name_get? nodes i (whole ▸ inParts)
  simp [namePart, name]

end ReadPartition

section Entries

theorem count_endsAt_comm (i j : Nat) (edge : Nat × Nat) :
    (endsAt i edge).count j = (endsAt j edge).count i := by
  simp only [endsAt, List.count_append]
  split_ifs <;> simp_all

theorem count_entries_comm (edges : List (Nat × Nat)) (i j : Nat) :
    (edges.flatMap (endsAt i)).count j = (edges.flatMap (endsAt j)).count i := by
  simp only [List.count_flatMap, Function.comp_def, count_endsAt_comm i j]

theorem sum_length_endsAt (ids : List Nat) (edge : Nat × Nat) :
    (ids.map fun i => (endsAt i edge).length).sum = ids.count edge.1 + ids.count edge.2 := by
  induction ids with
  | nil => rfl
  | cons i rest ih =>
    rw [List.map_cons, List.sum_cons, ih, List.count_cons, List.count_cons]
    simp only [endsAt, beq_iff_eq, eq_comm (a := i)]
    split_ifs <;> simp <;> omega

theorem sum_length_entries {ids : List Nat} (distinct : ids.Nodup) {edges : List (Nat × Nat)}
    (within : ∀ edge ∈ edges, edge.1 ∈ ids ∧ edge.2 ∈ ids) :
    (ids.map fun i => (edges.flatMap (endsAt i)).length).sum = 2 * edges.length := by
  induction edges with
  | nil => simp
  | cons edge rest ih =>
    have ⟨left, right⟩ := within edge (by simp)
    have later := ih fun other member => within other (List.mem_cons_of_mem edge member)
    simp only [List.flatMap_cons, List.length_append, List.sum_map_add, sum_length_endsAt, later,
      List.count_eq_one_of_mem distinct left, List.count_eq_one_of_mem distinct right,
      List.length_cons]
    omega

end Entries

section Lines

-- A string that one `write` adds as one line.
def OneLine (line : String) : Prop :=
  ∃ body, line.toList = body ++ ['\n'] ∧ '\n' ∉ body ∧ '\r' ∉ body

theorem fileLines_written {file : List String} (each : ∀ line ∈ file, OneLine line) :
    fileLines (String.join file).toList = file.map String.toList := by
  have bodies : ∃ lines : List (List Char), file.map String.toList =
      lines.map (fun body => body ++ ['\n']) ∧ ∀ body ∈ lines, '\n' ∉ body ∧ '\r' ∉ body := by
    induction file with
    | nil => exact ⟨[], rfl, by simp⟩
    | cons line rest ih =>
      have ⟨body, whole, clean⟩ := each line (by simp)
      have ⟨lines, same, later⟩ := ih fun other member =>
        each other (List.mem_cons_of_mem line member)
      refine ⟨body :: lines, by rw [List.map_cons, List.map_cons, whole, same], ?_⟩
      exact List.forall_mem_cons.mpr ⟨clean, later⟩
  have ⟨lines, same, clean⟩ := bodies
  have text : (String.join file).toList = ofLines lines := by
    rw [String.toList_join, ofLines, List.flatMap_def, List.flatMap_def, same]
  rw [text, fileLines_ofLines (fun body member => (clean body member).1)
    (fun body member => (clean body member).2), same]

theorem headerLine_oneLine (nodeNum edgeNum : Nat) : OneLine (headerLine nodeNum edgeNum) := by
  have plain (s : String) : toString s = s := rfl
  refine ⟨Nat.toDigits 10 nodeNum ++ ' ' :: Nat.toDigits 10 edgeNum ++ [' ', '1'], ?_, ?_, ?_⟩
  · simp [headerLine, plain]
  · simp [not_mem_toDigits]
  · simp [not_mem_toDigits]

theorem vertexLine_oneLine (adj : List (Nat × Nat)) : OneLine (vertexLine adj) := by
  have plain (s : String) : toString s = s := rfl
  refine ⟨adj.flatMap fun entry => ' ' :: Nat.toDigits 10 entry.1 ++ ' ' :: Nat.toDigits 10 entry.2,
    ?_, ?_, ?_⟩
  · simp [vertexLine, plain, List.flatMap_map]
  · simp [not_mem_toDigits]
  · simp [not_mem_toDigits]

theorem commentLine_oneLine {nodeName : NodeName} (newline : '\n' ∉ nodeName.toList)
    (carriage : '\r' ∉ nodeName.toList) : OneLine (commentLine nodeName) := by
  have plain (s : String) : toString s = s := rfl
  refine ⟨"% node_name: ".toList ++ nodeName.toList, ?_, ?_, ?_⟩
  · simp [commentLine, plain]
  · simpa using newline
  · simpa using carriage

end Lines

section WellFormed

-- The lines of the file that are not comments.
def MetisGraph.dataLines (graph : MetisGraph) : List (List Char) :=
  (fileLines (String.join graph.file).toList).filter fun line => line.head? ≠ some '%'

/-- A METIS file of a multigraph over numbered nodes: header, and one line for each vertex. -/
structure WellFormedMetis (nodes : List NodeName) (graph : MetisGraph) : Prop where
  ids : graph.nodeIds = List.range' 1 nodes.length
  names : ∀ i, ∀ _ : i < nodes.length, graph.nodeid2name.get? (i + 1) = some nodes[i]
  apart : ∀ i j name, graph.nodeid2name.get? i = some name →
    graph.nodeid2name.get? j = some name → i = j
  written : graph.file = headerLine nodes.length graph.edgeNum ::
    graph.nodeIds.flatMap fun nodeId => [commentLine (graph.nodeid2name.getD nodeId ""),
      vertexLine (graph.neighborsOf nodeId)]
  vertexLines : OneLineNames nodes → graph.dataLines =
    (headerLine nodes.length graph.edgeNum).toList ::
      graph.nodeIds.map fun nodeId => (vertexLine (graph.neighborsOf nodeId)).toList
  within : ∀ i ∈ graph.nodeIds, ∀ entry ∈ graph.neighborsOf i,
    1 ≤ entry.1 ∧ entry.1 ≤ nodes.length ∧ entry.2 = 1
  symmetric : ∀ i j, ((graph.neighborsOf i).map Prod.fst).count j =
    ((graph.neighborsOf j).map Prod.fst).count i
  total : (graph.nodeIds.map fun nodeId => (graph.neighborsOf nodeId).length).sum =
    2 * graph.edgeNum

variable {nodes : List NodeName} {links : List (NodeName × NodeName)}

theorem headerLine_data (nodeNum edgeNum : Nat) :
    (headerLine nodeNum edgeNum).toList.head? ≠ some '%' := by
  have plain (s : String) : toString s = s := rfl
  have ⟨first, rest, digits⟩ : ∃ first rest, Nat.toDigits 10 nodeNum = first :: rest :=
    List.exists_cons_of_ne_nil Nat.toDigits_ne_nil
  have listed : first ∈ Nat.toDigits 10 nodeNum := digits ▸ List.mem_cons_self
  have different : first ≠ '%' := fun same => not_mem_toDigits (by decide) nodeNum (same ▸ listed)
  simp [headerLine, plain, digits, different]

theorem vertexLine_data (adj : List (Nat × Nat)) :
    (vertexLine adj).toList.head? ≠ some '%' := by
  have plain (s : String) : toString s = s := rfl
  cases adj <;> simp [vertexLine, plain]

theorem commentLine_data (nodeName : NodeName) :
    (commentLine nodeName).toList.head? = some '%' := by
  have plain (s : String) : toString s = s := rfl
  simp [commentLine, plain]

theorem metisGraph_oneLine (oneLine : OneLineNames nodes) :
    ∀ line ∈ (metisGraph nodes links).file, OneLine line := by
  intro line member
  rcases List.mem_cons.mp member with rfl | written
  · exact headerLine_oneLine _ _
  · obtain ⟨nodeId, known, here⟩ := List.mem_flatMap.mp written
    obtain ⟨index, inside, same⟩ := mem_ids.mp known
    have named : (allocateIds nodes).nodeid2name.getD nodeId "" = nodes[index] := by
      rw [Dict.getD, same, nodeid2name_get? inside]
      rfl
    obtain ⟨newline, carriage⟩ := oneLine nodes[index] (List.getElem_mem inside)
    rw [named, List.mem_pair] at here
    rcases here with rfl | rfl
    · exact commentLine_oneLine newline carriage
    · exact vertexLine_oneLine _

theorem metisGraph_dataLines (oneLine : OneLineNames nodes) : (metisGraph nodes links).dataLines =
    (headerLine nodes.length links.length).toList ::
      (List.range' 1 nodes.length).map fun nodeId =>
        (vertexLine ((metisGraph nodes links).neighborsOf nodeId)).toList := by
  have vertex (nodeId : Nat) :
      [(commentLine ((allocateIds nodes).nodeid2name.getD nodeId "")).toList,
        (vertexLine ((metisGraph nodes links).neighborsOf nodeId)).toList].filter
        (fun line => line.head? ≠ some '%') =
      [(vertexLine ((metisGraph nodes links).neighborsOf nodeId)).toList] := by
    simp [commentLine_data, vertexLine_data]
  rw [MetisGraph.dataLines, fileLines_written (metisGraph_oneLine oneLine)]
  simp only [metisGraph, List.map_cons, List.map_flatMap, List.map_nil]
  rw [List.filter_cons_of_pos (by simpa using headerLine_data _ _), List.filter_flatMap]
  simp only [metisGraph, MetisGraph.neighborsOf] at vertex ⊢
  simp only [vertex, List.map_eq_flatMap]

theorem metisGraph_wellFormed (covers : Covers nodes links) :
    WellFormedMetis nodes (metisGraph nodes links) := by
  have keys : (metisGraph nodes links).nodeIds = List.range' 1 nodes.length :=
    nodeid2name_keys nodes
  have inIds : ∀ edge ∈ idEdges nodes links, edge.1 ∈ List.range' 1 nodes.length ∧
      edge.2 ∈ List.range' 1 nodes.length := by
    intro edge listed
    have ⟨link, member, same⟩ := List.mem_map.mp listed
    have ⟨left, right⟩ := covers.within link member
    exact same ▸ ⟨idOf_mem left, idOf_mem right⟩
  constructor
  case ids => exact keys
  case names => exact fun i inside => nodeid2name_get? inside
  case apart =>
    intro i j name first second
    have place (i : Nat) (found : (allocateIds nodes).nodeid2name.get? i = some name) :
        ∃ index, i = index + 1 ∧ nodes[index]? = some name := by
      rw [Dict.get?_eq_some, nodeid2name_entries, List.mem_map] at found
      have ⟨entry, listed, same⟩ := found
      have ⟨id, here⟩ := Prod.mk.inj same
      exact ⟨entry.2, id.symm, here ▸ List.mem_zipIdx_iff_getElem?.mp listed⟩
    have ⟨index, same, here⟩ := place i first
    have ⟨index', same', there⟩ := place j second
    have ⟨inside, _⟩ := List.getElem?_eq_some_iff.mp here
    rw [same, same', (List.getElem?_inj inside covers.distinct).mp (here.trans there.symm)]
  case written => rw [keys]; rfl
  case vertexLines => exact fun oneLine => keys ▸ metisGraph_dataLines oneLine
  case within =>
    intro i _ entry listed
    rw [neighborsOf_metisGraph, List.mem_map] at listed
    have ⟨j, found, same⟩ := listed
    have ⟨edge, member, here⟩ := List.mem_flatMap.mp found
    have ⟨left, right⟩ := inIds edge member
    rw [List.mem_range'_1] at left right
    have isEnd : j = edge.1 ∨ j = edge.2 := by
      simp only [endsAt, List.mem_append] at here
      grind
    rw [← same]
    exact ⟨by omega, by omega, rfl⟩
  case symmetric =>
    intro i j
    simp only [neighborsOf_metisGraph, List.map_map, Function.comp_def, List.map_id']
    exact count_entries_comm _ i j
  case total =>
    rw [keys]
    simp only [neighborsOf_metisGraph, List.length_map]
    rw [sum_length_entries List.nodup_range' inIds, idEdges, List.length_map]
    rfl

/-- The graph file is well formed, and line `i` of a partition file is read for node `i`. -/
theorem convertAdjlistToMetisGraph_wellFormed {adjacencyList : AdjacencyList}
    (topology : IsTopology nodes adjacencyList)
    (linked : ∀ node ∈ nodes, neighbours adjacencyList node ≠ []) :
    ∃ graph, convertAdjlistToMetisGraph nodes adjacencyList = .ok graph ∧
      WellFormedMetis nodes graph ∧
      ∀ (int : List Char → Option Int) (pmNum : Nat) (lines : List (List Char)) (parts : List Int),
        lines.map (fun line => int (strip line)) = parts.map some →
        (∀ part ∈ parts, 0 ≤ part ∧ part < pmNum) → parts.length = nodes.length →
        ∃ node2pmid, readPartition int pmNum graph.nodeid2name lines = .ok node2pmid ∧
          ∀ i, ∀ _ : i < nodes.length, node2pmid.get? nodes[i] = parts[i]? := by
  have graph := topology.isGraph
  refine ⟨_, convertAdjlist_eq graph linked,
    metisGraph_wellFormed (listedLinks_covers graph linked),
    fun int pmNum lines parts parsed inRange whole =>
      ⟨_, readPartition_ok parsed inRange whole, fun i inside => ?_⟩⟩
  have inParts : i < parts.length := whole ▸ inside
  have names : (nodes.zip parts).map Prod.fst = nodes := List.map_fst_zip whole.ge
  rw [List.getElem?_eq_getElem inParts, Dict.get?_ofEntries (by rw [names]; exact graph.distinct)]
  exact List.mem_iff_getElem.mpr ⟨i, by simp [inside, inParts], by simp⟩

def sampleInt (text : List Char) : Option Int :=
  match (atoi text).2 with
  | none => some (atoi text).1
  | some _ => none

theorem convertAdjlistToMetisGraph_wellFormed_sample :
    ∃ graph, convertAdjlistToMetisGraph sampleNodes sampleAdjacency = .ok graph ∧
      WellFormedMetis sampleNodes graph ∧
      ∃ node2pmid, readPartition sampleInt 2 graph.nodeid2name
          [['0', '\n'], ['1', '\n'], ['1', '\n']] = .ok node2pmid ∧
        ∀ i, ∀ _ : i < sampleNodes.length,
          node2pmid.get? sampleNodes[i] = [(0 : Int), 1, 1][i]? := by
  have ⟨graph, run, wellFormed, reads⟩ :=
    convertAdjlistToMetisGraph_wellFormed sample_isTopology (by decide)
  exact ⟨graph, run, wellFormed, reads _ _ _ _ (by decide) (by decide) rfl⟩

end WellFormed

end SplitNN.Coordinator
