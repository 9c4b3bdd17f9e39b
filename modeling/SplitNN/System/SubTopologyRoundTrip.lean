import Mathlib
import SplitNN.Agent.TopoLoader
import SplitNN.Coordinator.SubTopologySplit
import SplitNN.Coordinator.SubTopologyText

set_option autoImplicit false

namespace SplitNN.System

open Agent Coordinator
open Multigraph (unordered)
open Text (intLimit ofLines Line Word byteLength)

structure DanglingRecord where
  node : Nat
  peer : Nat
  serverId : Nat
  vxlanId : Nat

-- A sub-topology whose node names are decimals, before it is written.
structure NumberedSubTopology where
  nodes : List Nat
  edges : List (Nat × Nat)
  dangling : List DanglingRecord

def DanglingRecord.written (record : DanglingRecord) : NodeName × String :=
  (toString record.node, danglingToken (toString record.peer) record.serverId record.vxlanId)

def NumberedSubTopology.written (sub : NumberedSubTopology) : SubTopology where
  nodes := sub.nodes.map toString
  edges := sub.edges.map fun edge => (toString edge.1, toString edge.2)
  dangling := sub.dangling.map DanglingRecord.written

def DanglingRecord.read (record : DanglingRecord) : Int × Int × Int × Int :=
  (record.node, record.peer, record.serverId, record.vxlanId)

def NumberedSubTopology.graph (sub : NumberedSubTopology) : Graph :=
  addDanglingEdges
    (addEdges
      { newGraph with
        adjacencyList := Dict.ofKeys (sub.nodes.map fun id : Nat => (id : Int)) fun _ => [] }
      (sub.edges.map fun edge => ((edge.1 : Int), (edge.2 : Int))))
    (sub.dangling.map DanglingRecord.read)

def DanglingRecord.Fits (record : DanglingRecord) : Prop :=
  record.node < intLimit ∧ record.peer < intLimit ∧ record.serverId < intLimit ∧
    record.vxlanId < intLimit

structure NumberedSubTopology.Fits (sub : NumberedSubTopology) : Prop where
  nodes : ∀ id ∈ sub.nodes, id < intLimit
  ends : ∀ edge ∈ sub.edges, edge.1 ∈ sub.nodes ∧ edge.2 ∈ sub.nodes ∧ edge.1 ≠ edge.2
  dangling : ∀ record ∈ sub.dangling, record.Fits

def edgeLine (edge : Nat × Nat) : List Char :=
  Nat.toDigits 10 edge.1 ++ ' ' :: Nat.toDigits 10 edge.2

def DanglingRecord.line (record : DanglingRecord) : List Char :=
  Nat.toDigits 10 record.node ++ ' ' :: externalToken record.peer record.serverId record.vxlanId

def nodeLine (nodes : List Nat) : List Char := [' '].intercalate (nodes.map (Nat.toDigits 10))

def NumberedSubTopology.records (sub : NumberedSubTopology) : List (List Char) :=
  sub.edges.map edgeLine ++ sub.dangling.map DanglingRecord.line

theorem danglingToken_toList (v serverId vxlanId : Nat) :
    (danglingToken (toString v) serverId vxlanId).toList = externalToken v serverId vxlanId := by
  simp [danglingToken, externalToken]

theorem fileLinesOf_written (sub : NumberedSubTopology) :
    fileLinesOf sub.written =
      nodeLine sub.nodes :: sub.records := by
  have digits : String.toList ∘ (toString : Nat → String) = Nat.toDigits 10 := by
    funext n
    simp
  have edge : (fun edge : String × String => edge.1.toList ++ ' ' :: edge.2.toList) ∘
      (fun edge : Nat × Nat => (toString edge.1, toString edge.2)) = edgeLine := by
    funext edge
    simp [edgeLine]
  have record : (fun edge : String × String => edge.1.toList ++ ' ' :: edge.2.toList) ∘
      DanglingRecord.written = DanglingRecord.line := by
    funext record
    simp only [Function.comp, DanglingRecord.written, DanglingRecord.line, danglingToken_toList]
    simp
  simp only [fileLinesOf, NumberedSubTopology.written, NumberedSubTopology.records, nodeLine,
    List.map_append, List.map_map, digits, edge, record]

theorem readLinks_edges (edges : List (Nat × Nat))
    (fits : ∀ edge ∈ edges, edge.1 < intLimit ∧ edge.2 < intLimit) (graph : Graph) :
    (edges.map edgeLine).foldlM readLink graph =
      .ok (addEdges graph (edges.map fun edge => ((edge.1 : Int), (edge.2 : Int)))) := by
  induction edges generalizing graph with
  | nil => rfl
  | cons edge rest ih =>
    have bounds := fits edge (by simp)
    have step : readLink graph (edgeLine edge) = .ok (addEdge graph edge.1 edge.2) :=
      readLink_edge graph bounds.1 bounds.2
    rw [List.map_cons, List.foldlM_cons, step]
    exact ih (fun other member => fits other (List.mem_cons_of_mem _ member)) _

theorem readLinks_dangling (records : List DanglingRecord) (fits : ∀ record ∈ records, record.Fits)
    (graph : Graph) :
    (records.map DanglingRecord.line).foldlM readLink graph =
      .ok (addDanglingEdges graph (records.map DanglingRecord.read)) := by
  induction records generalizing graph with
  | nil => rfl
  | cons record rest ih =>
    obtain ⟨node, peer, server, vxlan⟩ := fits record (by simp)
    have step : readLink graph record.line =
        .ok (addDanglingEdge graph record.node (record.peer, record.serverId, record.vxlanId)) :=
      readLink_dangling graph node peer server vxlan
    rw [List.map_cons, List.foldlM_cons, step]
    exact ih (fun other member => fits other (List.mem_cons_of_mem _ member)) _

theorem length_toDigits_le {n : Nat} (fits : n < intLimit) : (Nat.toDigits 10 n).length ≤ 19 := by
  rw [Nat.length_toDigits_le_iff (by decide) (by decide)]
  exact lt_trans fits (by decide)

theorem not_mem_word {word : List Char} (proper : Word word) {c : Char}
    (space : Text.isSpace c = true) : c ∉ word := by
  intro member
  simp [proper.2 c member] at space

theorem twoWords_line {first second : List Char} (left : Word first) (right : Word second)
    (short : first.length + second.length ≤ 1000) :
    Line scannerBufferSize (first ++ ' ' :: second) := by
  have newline : Text.isSpace '\n' = true := by decide
  have carriage : Text.isSpace '\r' = true := by decide
  have bound := Text.byteLength_le (first ++ ' ' :: second)
  simp only [List.length_append, List.length_cons] at bound
  refine ⟨by unfold scannerBufferSize; omega, ?_, ?_⟩
  · simp [not_mem_word left newline, not_mem_word right newline]
  · simp [not_mem_word left carriage, not_mem_word right carriage]

theorem edgeLine_line {edge : Nat × Nat} (first : edge.1 < intLimit) (second : edge.2 < intLimit) :
    Line scannerBufferSize (edgeLine edge) := by
  have left := length_toDigits_le first
  have right := length_toDigits_le second
  exact twoWords_line (Text.toDigits_word _) (Text.toDigits_word _) (by omega)

theorem DanglingRecord.line_line {record : DanglingRecord} (fits : record.Fits) :
    Line scannerBufferSize record.line := by
  have node := length_toDigits_le fits.1
  have peer := length_toDigits_le fits.2.1
  have server := length_toDigits_le fits.2.2.1
  have vxlan := length_toDigits_le fits.2.2.2
  apply twoWords_line (Text.toDigits_word _) (externalToken_word _ _ _)
  simp [externalToken]
  omega

theorem NumberedSubTopology.Fits.edges {sub : NumberedSubTopology} (fits : sub.Fits) :
    ∀ edge ∈ sub.edges, edge.1 < intLimit ∧ edge.2 < intLimit :=
  fun edge member => ⟨fits.nodes _ (fits.ends edge member).1,
    fits.nodes _ (fits.ends edge member).2.1⟩

theorem NumberedSubTopology.records_lines {sub : NumberedSubTopology} (fits : sub.Fits) :
    ∀ line ∈ sub.records, Line scannerBufferSize line := by
  intro line member
  cases List.mem_append.mp member with
  | inl written =>
    obtain ⟨edge, listed, rfl⟩ := List.mem_map.mp written
    exact edgeLine_line (fits.edges edge listed).1 (fits.edges edge listed).2
  | inr written =>
    obtain ⟨record, listed, rfl⟩ := List.mem_map.mp written
    exact record.line_line (fits.dangling record listed)

theorem nodeLine_clean (nodes : List Nat) {c : Char} (space : Text.isSpace c = true)
    (different : c ≠ ' ') : c ∉ nodeLine nodes := by
  apply Text.not_mem_intercalate different
  intro word member
  have ⟨node, _, written⟩ := List.mem_map.mp member
  exact written ▸ not_mem_word (Text.toDigits_word node) space

theorem readGraphFromFile_written {sub : NumberedSubTopology} (fits : sub.Fits)
    (short : byteLength (nodeLine sub.nodes) < scannerBufferSize) :
    readGraphFromFile (writeSubtopoToFile sub.written) = .ok sub.graph := by
  have text : (writeSubtopoToFile sub.written).toList =
      nodeLine sub.nodes ++ '\n' :: ofLines sub.records := by
    rw [writeSubtopoToFile_toList, fileLinesOf_written, Text.ofLines_cons]
  have header : Line scannerBufferSize (nodeLine sub.nodes) :=
    ⟨short, nodeLine_clean _ (by decide) (by decide), nodeLine_clean _ (by decide) (by decide)⟩
  have fuel : sub.records.length < (writeSubtopoToFile sub.written).toList.length + 1 := by
    have enough := Text.length_le_ofLines sub.records
    rw [text]
    simp only [List.length_append, List.length_cons]
    omega
  have words : Text.fields (nodeLine sub.nodes) = sub.nodes.map (Nat.toDigits 10) := by
    apply Text.fields_intercalate
    intro word member
    obtain ⟨node, -, rfl⟩ := List.mem_map.mp member
    exact Text.toDigits_word node
  have body : sub.records.foldlM readLink
      { newGraph with
        adjacencyList :=
          sub.nodes.foldl (fun map (id : Nat) => map.set (id : Int) []) newGraph.adjacencyList } =
      .ok sub.graph := by
    rw [NumberedSubTopology.records, List.foldlM_append, readLinks_edges sub.edges fits.edges,
      NumberedSubTopology.graph, Dict.ofKeys, List.foldl_map]
    exact readLinks_dangling sub.dangling fits.dangling _
  unfold readGraphFromFile
  rw [text, Text.scan_line header, ← text]
  simp only [Text.scanAll_lines (NumberedSubTopology.records_lines fits) fuel, words,
    declareNodes sub.nodes fits.nodes]
  change (sub.records.foldlM readLink _ >>= fun graph => _) = _
  rw [body]
  rfl

def nodeId (name : NodeName) : Int := (name.toNat?.getD 0 : Nat)

structure ReadBack (sub : SubTopology) (graph : Graph) : Prop where
  keys : ∀ id, id ∈ graph.adjacencyList.keys ↔ ∃ node ∈ sub.nodes, nodeId node = id
  links : ∀ u v, (graph.adjacencyList.getD u []).count v =
    (unordered (sub.edges.map fun edge => (nodeId edge.1, nodeId edge.2))).count s(u, v)
  dangling : ∃ records : List (NodeName × NodeName × Nat × Nat),
    sub.dangling = records.map (fun record =>
      (record.1, danglingToken record.2.1 record.2.2.1 record.2.2.2)) ∧
    ∀ u, graph.danglingEdgeList.getD u [] =
      (records.filter fun record => decide (nodeId record.1 = u)).map fun record =>
        (nodeId record.2.1, (record.2.2.1 : Int), (record.2.2.2 : Int))
  edgeNum : ∀ chunkSize, 0 < chunkSize →
    graph.getEdgeNum + 1 = countLinesIslice (writeSubtopoToFile sub) chunkSize

theorem graph_start_getD (nodes : List Nat) (u : Int) :
    (Dict.ofKeys (nodes.map fun id : Nat => (id : Int)) fun _ => ([] : List Int)).getD u [] =
      [] := by
  rw [Dict.getD, Dict.get?_ofKeys]
  split <;> rfl

theorem written_readBack {sub : NumberedSubTopology} (fits : sub.Fits) :
    ReadBack sub.written sub.graph := by
  have ends : ∀ edge ∈ sub.edges.map (fun edge => ((edge.1 : Int), (edge.2 : Int))),
      edge.1 ∈ sub.nodes.map (fun id : Nat => (id : Int)) ∧
        edge.2 ∈ sub.nodes.map (fun id : Nat => (id : Int)) ∧ edge.1 ≠ edge.2 := by
    intro edge member
    obtain ⟨⟨u, v⟩, listed, rfl⟩ := List.mem_map.mp member
    have proper := fits.ends _ listed
    refine ⟨List.mem_map_of_mem proper.1, List.mem_map_of_mem proper.2.1, ?_⟩
    exact fun same => proper.2.2 (Int.ofNat.inj same)
  have started (id : Int) :
      id ∈ (Dict.ofKeys (sub.nodes.map fun id : Nat => (id : Int)) fun _ => ([] : List Int)).keys ↔
        id ∈ sub.nodes.map fun id : Nat => (id : Int) := by
    rw [← Dict.get?_isSome, Dict.get?_ofKeys]
    split <;> simp_all
  constructor
  case keys =>
    intro id
    rw [NumberedSubTopology.graph, addDanglingEdges_adjacencyList, addEdges_keys, started]
    · simp [NumberedSubTopology.written, nodeId, eq_comm]
    · intro edge member
      exact ⟨(started _).mpr (ends edge member).1, (started _).mpr (ends edge member).2.1⟩
  case links =>
    intro u v
    rw [NumberedSubTopology.graph, addDanglingEdges_adjacencyList,
      addEdges_count _ _ fun edge member => (ends edge member).2.2, graph_start_getD]
    simp [NumberedSubTopology.written, nodeId, Function.comp_def]
  case dangling =>
    refine ⟨sub.dangling.map fun record =>
      (toString record.node, toString record.peer, record.serverId, record.vxlanId), ?_, ?_⟩
    · simp [NumberedSubTopology.written, DanglingRecord.written]
    · intro u
      rw [NumberedSubTopology.graph, addDanglingEdges_getD, addEdges_danglingEdgeList]
      simp [newGraph, Dict.getD, DanglingRecord.read, nodeId, List.filter_map, Function.comp_def]
      rfl
  case edgeNum =>
    intro chunkSize positive
    have clean (c : Char) (space : Text.isSpace c = true) (different : c ≠ ' ')
        (clean : ∀ line ∈ sub.records, c ∉ line) : ∀ line ∈ fileLinesOf sub.written, c ∉ line := by
      intro line member
      rw [fileLinesOf_written] at member
      cases List.mem_cons.mp member with
      | inl header => exact header ▸ nodeLine_clean sub.nodes space different
      | inr record => exact clean line record
    have lines := NumberedSubTopology.records_lines fits
    rw [countLinesIslice_writeSubtopoToFile _
      (clean '\n' (by decide) (by decide) fun line member => (lines line member).2.1)
      (clean '\r' (by decide) (by decide) fun line member => (lines line member).2.2) positive]
    simp only [Graph.getEdgeNum, NumberedSubTopology.graph, addDanglingEdges_adjacencyList,
      addEdges_totalLength, addDanglingEdges_totalLength, addEdges_danglingEdgeList,
      totalLength_ofKeys, NumberedSubTopology.written, List.length_map]
    have none : totalLength newGraph.danglingEdgeList = 0 := rfl
    omega

theorem exists_map_eq {α β : Type} (f : β → α) (P : β → Prop) (xs : List α)
    (each : ∀ x ∈ xs, ∃ y, f y = x ∧ P y) :
    ∃ ys : List β, ys.map f = xs ∧ ∀ y ∈ ys, P y := by
  induction xs with
  | nil => exact ⟨[], rfl, by simp⟩
  | cons x rest ih =>
    obtain ⟨y, same, holds⟩ := each x (by simp)
    obtain ⟨ys, images, all⟩ := ih fun x member => each x (List.mem_cons_of_mem _ member)
    refine ⟨y :: ys, by rw [List.map_cons, same, images], ?_⟩
    intro z member
    cases List.mem_cons.mp member with
    | inl here => exact here ▸ holds
    | inr later => exact all z later

def Canonical (nodes : List NodeName) : Prop :=
  ∀ node ∈ nodes, ∃ id, id < intLimit ∧ node = toString id

theorem subTopologyOf_numbered {nodes : List NodeName} {adjacencyList : AdjacencyList}
    {node2serverid : Dict NodeName Nat} (topology : IsTopology nodes adjacencyList)
    (assigns : Assigns node2serverid nodes) (canonical : Canonical nodes)
    {ids : NodeName × NodeName → Nat}
    (numbered : VxlanIds node2serverid ids (forwardLinks nodes adjacencyList))
    (fewServers : ∀ node serverId, node2serverid.get? node = some serverId → serverId < intLimit)
    (fewLinks : 4097 + (forwardLinks nodes adjacencyList).length ≤ intLimit) (serverId : Nat) :
    ∃ sub : NumberedSubTopology, sub.Fits ∧ sub.written =
      subTopologyOf node2serverid ids (forwardLinks nodes adjacencyList) serverId := by
  have placed {node : NodeName} : node ∈ node2serverid.keysWith serverId ↔
      node2serverid.get? node = some serverId := node2serverid.mem_keysWith serverId node
  obtain ⟨nodeIds, nodesEqual, nodesFit⟩ := exists_map_eq
    toString (fun id : Nat => id < intLimit) (node2serverid.keysWith serverId) fun node member => by
      obtain ⟨id, fits, same⟩ := canonical node (assigns.member (placed.mp member))
      exact ⟨id, same.symm, fits⟩
  have declared {node : NodeName} (found : node2serverid.get? node = some serverId) :
      ∃ id ∈ nodeIds, toString id = node :=
    List.mem_map.mp (nodesEqual ▸ placed.mpr found)
  obtain ⟨edgeIds, edgesEqual, endsFit⟩ := exists_map_eq
    (fun edge : Nat × Nat => (toString edge.1, toString edge.2))
    (fun edge => edge.1 ∈ nodeIds ∧ edge.2 ∈ nodeIds ∧ edge.1 ≠ edge.2)
    ((forwardLinks nodes adjacencyList).filter (internalOn node2serverid serverId))
    fun link member => by
      obtain ⟨visited, inside⟩ := List.mem_filter.mp member
      simp only [internalOn, Bool.and_eq_true, decide_eq_true_eq] at inside
      obtain ⟨u, uListed, uSame⟩ := declared inside.1
      obtain ⟨v, vListed, vSame⟩ := declared inside.2
      have less := (forwardLinks_closed topology visited).2.2
      refine ⟨(u, v), by rw [uSame, vSame], uListed, vListed, ?_⟩
      intro same
      have equal : link.1 = link.2 := uSame.symm.trans ((congrArg toString same).trans vSame)
      exact absurd equal (ne_of_lt less)
  obtain ⟨records, recordsEqual, recordsFit⟩ := exists_map_eq
    DanglingRecord.written DanglingRecord.Fits
    (subTopologyOf node2serverid ids (forwardLinks nodes adjacencyList) serverId).dangling
    fun entry member => by
      obtain ⟨v, peerServerId, found, far, apart, listed, token⟩ := mem_dangling topology member
      have inside := assigns.member found
      obtain ⟨node, nodeFits, nodeSame⟩ := canonical _ inside
      obtain ⟨peer, peerFits, rfl⟩ := canonical v (topology.undirected.closed _ inside v listed)
      have cut : node2serverid.get? entry.1 ≠ node2serverid.get? (toString peer) := by
        rw [found, far]
        simpa using apart
      have issued := vxlanIdOf_lt topology numbered inside listed cut
      refine ⟨⟨node, peer, peerServerId, vxlanIdOf ids entry.1 (toString peer)⟩, ?_, nodeFits,
        peerFits, fewServers _ _ far, issued.trans_le fewLinks⟩
      exact Prod.ext nodeSame.symm token.symm
  refine ⟨⟨nodeIds, edgeIds, records⟩, ⟨nodesFit, endsFit, recordsFit⟩, ?_⟩
  simp only [NumberedSubTopology.written, nodesEqual, edgesEqual, recordsEqual]
  rfl

/-- What the coordinator writes for a server is what that server's agent reads. -/
theorem readGraphFromFile_writeSubtopoToFile {nodes : List NodeName}
    {adjacencyList : AdjacencyList} {node2serverid : Dict NodeName Nat} {serverNum : Nat}
    (topology : IsTopology nodes adjacencyList) (assigns : Assigns node2serverid nodes)
    (inRange : ∀ node serverId, node2serverid.get? node = some serverId → serverId < serverNum)
    (canonical : Canonical nodes) (fewServers : serverNum ≤ intLimit)
    (fewLinks : 4097 + (forwardLinks nodes adjacencyList).length ≤ intLimit)
    {subgraphs : Dict Nat SubTopology}
    (built : collectSubtopos nodes adjacencyList node2serverid serverNum = some subgraphs)
    {serverId : Nat} {sub : SubTopology} (found : subgraphs.get? serverId = some sub)
    (short : byteLength (" ".intercalate sub.nodes).toList < scannerBufferSize) :
    ∃ graph, readGraphFromFile (writeSubtopoToFile sub) = .ok graph ∧ ReadBack sub graph := by
  obtain ⟨_, ids, run, values, numbered⟩ :=
    collectSubtopos_spec node2serverid topology assigns inRange
  obtain rfl := Option.some.inj (built.symm.trans run)
  have form :
      subTopologyOf node2serverid ids (forwardLinks nodes adjacencyList) serverId = sub := by
    rw [values] at found
    split at found
    · exact Option.some.inj found
    · simp at found
  obtain ⟨decimals, fits, same⟩ := subTopologyOf_numbered topology assigns canonical numbered
    (fun node serverId found => (inRange node serverId found).trans_le fewServers) fewLinks serverId
  rw [form] at same
  subst same
  have header : (" ".intercalate decimals.written.nodes).toList = nodeLine decimals.nodes := by
    simp [nodeLine, NumberedSubTopology.written, Function.comp_def]
  exact ⟨decimals.graph, readGraphFromFile_written fits (header ▸ short), written_readBack fits⟩

def sampleSubgraphs : Dict Nat SubTopology :=
  ⟨[(0, ⟨["1", "2"], [("1", "2"), ("1", "2")], [("2", danglingToken "3" 1 4097)]⟩),
    (1, ⟨["3"], [], [("3", danglingToken "2" 0 4097)]⟩)], by decide⟩

theorem sample_canonical : Canonical sampleNodes := by
  intro node member
  simp only [sampleNodes, List.mem_cons, List.not_mem_nil, or_false] at member
  rcases member with rfl | rfl | rfl
  · exact ⟨1, by decide, rfl⟩
  · exact ⟨2, by decide, rfl⟩
  · exact ⟨3, by decide, rfl⟩

theorem readGraphFromFile_writeSubtopoToFile_sample :
    ∃ graph,
      readGraphFromFile (writeSubtopoToFile
        ⟨["1", "2"], [("1", "2"), ("1", "2")], [("2", danglingToken "3" 1 4097)]⟩) = .ok graph ∧
      ReadBack ⟨["1", "2"], [("1", "2"), ("1", "2")], [("2", danglingToken "3" 1 4097)]⟩ graph := by
  have built : collectSubtopos sampleNodes sampleAdjacency sampleServers 2 =
      some sampleSubgraphs := by decide +kernel
  have found : sampleSubgraphs.get? 0 =
      some ⟨["1", "2"], [("1", "2"), ("1", "2")], [("2", danglingToken "3" 1 4097)]⟩ := by rfl
  exact readGraphFromFile_writeSubtopoToFile sample_isTopology sample_assigns sample_inRange
    sample_canonical (by decide) (by decide) built found (by decide)

end SplitNN.System
