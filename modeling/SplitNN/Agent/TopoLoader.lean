import Mathlib
import SplitNN.Agent.Graph
import SplitNN.Shared.Text

set_option autoImplicit false

namespace SplitNN.Agent

open Text

inductive LoadFailure where
  | error (message : String)
  -- The goroutine dies: a slice index is out of range.
  | panic
  deriving DecidableEq

def scannerBufferSize : Nat := 1024 * 1024

def declareNode (graph : Graph) (nodeStr : List Char) : Except LoadFailure Graph :=
  match atoi nodeStr with
  | (node, none) => .ok { graph with adjacencyList := graph.adjacencyList.set node [] }
  | (_, some _) => .error (.error ("invalid node index: " ++ String.ofList nodeStr))

def addDanglingEdge (graph : Graph) (nodeID : Int) (edge : Int × Int × Int) : Graph :=
  { graph with danglingEdgeList := appendAt graph.danglingEdgeList nodeID edge }

def addEdge (graph : Graph) (u v : Int) : Graph :=
  { graph with adjacencyList := appendAt (appendAt graph.adjacencyList u v) v u }

def readLink (graph : Graph) (text : List Char) : Except LoadFailure Graph :=
  match fields text with
  | [first, second] =>
    if "_external".toList <:+: second then
      let splitedLine1 := second.splitOn '_'
      -- The parts are indexed without a look at their number, and `Atoi`'s errors are dropped.
      match splitedLine1[0]?, splitedLine1[2]?, splitedLine1[3]? with
      | some externalNodeStr, some serverIDStr, some vxlanIDStr =>
        .ok (addDanglingEdge graph (atoi first).1
          ((atoi externalNodeStr).1, (atoi serverIDStr).1, (atoi vxlanIDStr).1))
      | _, _, _ => .error .panic
    else .ok (addEdge graph (atoi first).1 (atoi second).1)
  | _ => .ok graph

def readGraphFromFile (text : String) : Except LoadFailure Graph := do
  let (firstLine, scanner) := scan scannerBufferSize ⟨text.toList, false⟩
  let graph ← match firstLine with
    | some line => (fields line).foldlM declareNode newGraph
    | none => .ok newGraph
  let (lines, scanner) := scanAll scannerBufferSize (text.toList.length + 1) scanner
  let graph ← lines.foldlM readLink graph
  if scanner.tooLong then throw (.error "bufio.Scanner: token too long")
  return graph

-- What the scanner makes of a file: the first token, the tokens after it, and its error.
def firstLine (text : String) : List Char :=
  ((scan scannerBufferSize ⟨text.toList, false⟩).1).getD []

def linkLines (text : String) : List (List Char) :=
  (scanAll scannerBufferSize (text.toList.length + 1)
    (scan scannerBufferSize ⟨text.toList, false⟩).2).1

def tooLong (text : String) : Bool :=
  (scanAll scannerBufferSize (text.toList.length + 1)
    (scan scannerBufferSize ⟨text.toList, false⟩).2).2.tooLong

theorem readGraphFromFile_eq (text : String) : readGraphFromFile text =
    (fields (firstLine text)).foldlM declareNode newGraph >>= fun declared =>
      (linkLines text).foldlM readLink declared >>= fun g =>
        if tooLong text then .error (.error "bufio.Scanner: token too long") else .ok g := by
  unfold readGraphFromFile firstLine
  cases first : (scan scannerBufferSize ⟨text.toList, false⟩).1 with
  | none => simp only [first, Option.getD_none, fields_nil]; rfl
  | some line => simp only [first, Option.getD_some]; rfl

theorem declareNodes (ids : List Nat) (fits : ∀ id ∈ ids, id < intLimit) (graph : Graph) :
    (ids.map (Nat.toDigits 10)).foldlM declareNode graph =
      .ok { graph with
        adjacencyList :=
          ids.foldl (fun map (id : Nat) => map.set (id : Int) []) graph.adjacencyList } := by
  induction ids generalizing graph with
  | nil => rfl
  | cons id rest ih =>
    have step : declareNode graph (Nat.toDigits 10 id) =
        .ok { graph with adjacencyList := graph.adjacencyList.set (id : Int) [] } := by
      simp [declareNode, atoi_toDigits (fits id (by simp))]
    rw [List.map_cons, List.foldlM_cons, step]
    exact ih (fun id member => fits id (List.mem_cons_of_mem _ member)) _

theorem underscore_not_mem_toDigits (n : Nat) : '_' ∉ Nat.toDigits 10 n :=
  Nat.underscore_not_in_toDigits

theorem readLink_edge (graph : Graph) {u v : Nat} (uFits : u < intLimit) (vFits : v < intLimit) :
    readLink graph (Nat.toDigits 10 u ++ ' ' :: Nat.toDigits 10 v) = .ok (addEdge graph u v) := by
  have plain : ¬ "_external".toList <:+: Nat.toDigits 10 v := by
    intro inside
    exact underscore_not_mem_toDigits v (inside.subset (by simp))
  rw [readLink, fields_cons (toDigits_word u), fields_word (toDigits_word v)]
  simp only [plain, if_false, atoi_toDigits uFits, atoi_toDigits vFits]

-- The peer column of a dangling record in decimal digits.
def externalToken (v serverID vxlanID : Nat) : List Char :=
  Nat.toDigits 10 v ++ '_' :: ("external".toList ++ '_' ::
    (Nat.toDigits 10 serverID ++ '_' :: Nat.toDigits 10 vxlanID))

theorem externalToken_word (v serverID vxlanID : Nat) :
    Word (externalToken v serverID vxlanID) := by
  refine ⟨by simp [externalToken], ?_⟩
  have marker : ∀ c ∈ "external".toList, isSpace c = false := by simp [isSpace]
  have bar : isSpace '_' = false := by decide
  intro c member
  simp only [externalToken, List.mem_append, List.mem_cons] at member
  rcases member with digit | rfl | letter | rfl | digit | rfl | digit
  · exact (toDigits_word v).2 c digit
  · exact bar
  · exact marker c letter
  · exact bar
  · exact (toDigits_word serverID).2 c digit
  · exact bar
  · exact (toDigits_word vxlanID).2 c digit

theorem splitOn_externalToken (v serverID vxlanID : Nat) :
    (externalToken v serverID vxlanID).splitOn '_' =
      [Nat.toDigits 10 v, "external".toList, Nat.toDigits 10 serverID,
        Nat.toDigits 10 vxlanID] := by
  rw [externalToken, List.splitOn_append_cons_self_of_not_mem (underscore_not_mem_toDigits v),
    List.splitOn_append_cons_self_of_not_mem (by decide),
    List.splitOn_append_cons_self_of_not_mem (underscore_not_mem_toDigits serverID),
    List.splitOn_eq_singleton (underscore_not_mem_toDigits vxlanID)]

theorem readLink_dangling (graph : Graph) {u v serverID vxlanID : Nat} (uFits : u < intLimit)
    (vFits : v < intLimit) (serverFits : serverID < intLimit) (vxlanFits : vxlanID < intLimit) :
    readLink graph (Nat.toDigits 10 u ++ ' ' :: externalToken v serverID vxlanID) =
      .ok (addDanglingEdge graph u (v, serverID, vxlanID)) := by
  have marked : "_external".toList <:+: externalToken v serverID vxlanID := by
    refine ⟨Nat.toDigits 10 v,
      '_' :: (Nat.toDigits 10 serverID ++ '_' :: Nat.toDigits 10 vxlanID), ?_⟩
    simp [externalToken]
  rw [readLink, fields_cons (toDigits_word u), fields_word (externalToken_word v serverID vxlanID)]
  simp only [marked, if_true, splitOn_externalToken]
  simp [atoi_toDigits uFits, atoi_toDigits vFits, atoi_toDigits serverFits,
    atoi_toDigits vxlanFits]

def addEdges (graph : Graph) (edges : List (Int × Int)) : Graph :=
  edges.foldl (fun graph edge => addEdge graph edge.1 edge.2) graph

def addDanglingEdges (graph : Graph) (records : List (Int × Int × Int × Int)) : Graph :=
  records.foldl (fun graph record => addDanglingEdge graph record.1 record.2) graph

theorem addEdges_danglingEdgeList (graph : Graph) (edges : List (Int × Int)) :
    (addEdges graph edges).danglingEdgeList = graph.danglingEdgeList := by
  induction edges generalizing graph with
  | nil => rfl
  | cons edge rest ih => exact ih (addEdge graph edge.1 edge.2)

theorem addEdge_keys {graph : Graph} {u v : Int} (uKnown : u ∈ graph.adjacencyList.keys)
    (vKnown : v ∈ graph.adjacencyList.keys) :
    (addEdge graph u v).adjacencyList.keys = graph.adjacencyList.keys := by
  have first := keys_appendAt v uKnown
  rw [addEdge, keys_appendAt u (first ▸ vKnown), first]

theorem addEdges_keys (graph : Graph) (edges : List (Int × Int))
    (known : ∀ edge ∈ edges, edge.1 ∈ graph.adjacencyList.keys ∧
      edge.2 ∈ graph.adjacencyList.keys) :
    (addEdges graph edges).adjacencyList.keys = graph.adjacencyList.keys := by
  induction edges generalizing graph with
  | nil => rfl
  | cons edge rest ih =>
    have ends := known edge (by simp)
    have kept := addEdge_keys ends.1 ends.2
    have later := ih (addEdge graph edge.1 edge.2) fun other member => by
      rw [kept]
      exact known other (List.mem_cons_of_mem _ member)
    exact later.trans kept

theorem getD_addEdge (graph : Graph) (u v x : Int) :
    (addEdge graph u v).adjacencyList.getD x [] = graph.adjacencyList.getD x [] ++
      (if x = u then [v] else []) ++ (if x = v then [u] else []) := by
  simp only [addEdge, getD_appendAt]
  split_ifs <;> simp_all

theorem addEdge_counts (graph : Graph) (u v x y : Int) :
    ((addEdge graph u v).adjacencyList.getD x []).count y =
      (graph.adjacencyList.getD x []).count y + (if x = u ∧ y = v then 1 else 0) +
        (if x = v ∧ y = u then 1 else 0) := by
  have one (is : Prop) [Decidable is] (z : Int) :
      (if is then [z] else []).count y = if is ∧ y = z then 1 else 0 := by
    by_cases holds : is
    next =>
      simp only [holds, if_true, true_and, List.count_singleton, beq_iff_eq]
      simp only [eq_comm]
    next => simp [holds]
  rw [getD_addEdge, List.count_append, List.count_append, one, one]

theorem addEdge_count (graph : Graph) {u v : Int} (different : u ≠ v) (x y : Int) :
    ((addEdge graph u v).adjacencyList.getD x []).count y =
      (graph.adjacencyList.getD x []).count y + if s(u, v) = s(x, y) then 1 else 0 := by
  rw [addEdge_counts]
  simp only [Sym2.eq_iff]
  by_cases first : x = u ∧ y = v
  next =>
    obtain ⟨rfl, rfl⟩ := first
    simp [different]
  next =>
    by_cases second : x = v ∧ y = u
    next =>
      obtain ⟨rfl, rfl⟩ := second
      simp [different]
    next =>
      have apart : ¬ (u = x ∧ v = y ∨ u = y ∧ v = x) := by
        rintro (⟨rfl, rfl⟩ | ⟨rfl, rfl⟩)
        · exact first ⟨rfl, rfl⟩
        · exact second ⟨rfl, rfl⟩
      simp [first, second, apart]

theorem addEdges_count (graph : Graph) (edges : List (Int × Int))
    (loopFree : ∀ edge ∈ edges, edge.1 ≠ edge.2) (x y : Int) :
    ((addEdges graph edges).adjacencyList.getD x []).count y =
      (graph.adjacencyList.getD x []).count y + (Multigraph.unordered edges).count s(x, y) := by
  induction edges generalizing graph with
  | nil => simp [addEdges, Multigraph.unordered]
  | cons edge rest ih =>
    have later := ih (addEdge graph edge.1 edge.2) fun other member =>
      loopFree other (List.mem_cons_of_mem _ member)
    rw [addEdge_count graph (loopFree edge (by simp))] at later
    simp only [addEdges, List.foldl_cons, Multigraph.unordered, List.map_cons, List.count_cons,
      beq_iff_eq] at later ⊢
    omega

theorem addEdges_totalLength (graph : Graph) (edges : List (Int × Int)) :
    totalLength (addEdges graph edges).adjacencyList =
      totalLength graph.adjacencyList + 2 * edges.length := by
  induction edges generalizing graph with
  | nil => rfl
  | cons edge rest ih =>
    have later := ih (addEdge graph edge.1 edge.2)
    simp only [addEdges, List.foldl_cons, List.length_cons] at later ⊢
    rw [later, addEdge]
    simp only [totalLength_appendAt]
    omega

theorem addDanglingEdges_adjacencyList (graph : Graph) (records : List (Int × Int × Int × Int)) :
    (addDanglingEdges graph records).adjacencyList = graph.adjacencyList := by
  induction records generalizing graph with
  | nil => rfl
  | cons record rest ih => exact ih (addDanglingEdge graph record.1 record.2)

theorem addDanglingEdges_getD (graph : Graph) (records : List (Int × Int × Int × Int))
    (node : Int) :
    (addDanglingEdges graph records).danglingEdgeList.getD node [] =
      graph.danglingEdgeList.getD node [] ++
        (records.filter fun record => decide (record.1 = node)).map Prod.snd := by
  induction records generalizing graph with
  | nil => simp [addDanglingEdges]
  | cons record rest ih =>
    have later := ih (addDanglingEdge graph record.1 record.2)
    simp only [addDanglingEdges, List.foldl_cons] at later ⊢
    rw [later, addDanglingEdge, getD_appendAt]
    by_cases here : record.1 = node
    next => simp [here]
    next => simp [here, Ne.symm here]

theorem addDanglingEdges_totalLength (graph : Graph) (records : List (Int × Int × Int × Int)) :
    totalLength (addDanglingEdges graph records).danglingEdgeList =
      totalLength graph.danglingEdgeList + records.length := by
  induction records generalizing graph with
  | nil => rfl
  | cons record rest ih =>
    have later := ih (addDanglingEdge graph record.1 record.2)
    simp only [addDanglingEdges, List.foldl_cons, List.length_cons] at later ⊢
    rw [later, addDanglingEdge, totalLength_appendAt]
    omega

end SplitNN.Agent
