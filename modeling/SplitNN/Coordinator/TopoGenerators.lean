import Mathlib
import SplitNN.Coordinator.SubTopologyText
import SplitNN.Shared.LoopNest
import SplitNN.Shared.Monadic

set_option autoImplicit false

namespace SplitNN.Coordinator

structure TopoFile where
  nodes : List Nat
  edges : List (Nat × Nat)
deriving DecidableEq

-- The same lines as in the file of a sub-topology without dangling links.
def TopoFile.text (file : TopoFile) : String :=
  writeSubtopoToFile ⟨file.nodes.map toString,
    file.edges.map fun edge => (toString edge.1, toString edge.2), []⟩

section Loops

-- The loop that numbers node `i + 1` and then adds the edges of round `i`.
def growTopology (edgesOf : Nat → List (Nat × Nat)) (n : Nat) : TopoFile where
  nodes := (List.range n).map fun i => i + 1
  edges := (List.range n).flatMap edgesOf

def generateChainTopology (n : Nat) : TopoFile :=
  growTopology (fun i => if 0 < i then [(i, i + 1)] else []) n

def generateStarTopology (n : Nat) : TopoFile :=
  growTopology (fun i => if 0 < i then [(1, i + 1)] else []) n

def generateFullmeshTopology (n : Nat) : TopoFile :=
  growTopology (fun i => (List.range i).map fun j => (j + 1, i + 1)) n

-- The script exits before it writes a file where `n < 2`.
def generatePairs (n : Nat) : Option TopoFile :=
  if n < 2 then none
  else some {
    nodes := (List.range (2 * n)).map fun i => i + 1
    edges := (List.range n).map fun i => (i * 2 + 1, i * 2 + 2) }

def gridNode (y i j : Nat) : Nat := i * y + j + 1

-- The links of a node to its right and to its lower neighbour, both wrapped around.
def gridEdges (x y i j : Nat) : List (Nat × Nat) :=
  let nodeId := gridNode y i j
  (if 1 < y then
    if j < y - 1 then [(nodeId, nodeId + 1)] else [(nodeId, nodeId - (y - 1))]
  else []) ++
  if 1 < x then
    if i < x - 1 then [(nodeId, nodeId + y)] else [(nodeId, nodeId - (x - 1) * y)]
  else []

def generateGridTopology (x y : Nat) : TopoFile where
  nodes := (List.range x).flatMap fun i => (List.range y).map (gridNode y i)
  edges := (List.range x).flatMap fun i => (List.range y).flatMap (gridEdges x y i)

end Loops

section Trie

structure TrieState where
  curLayer : Nat
  upperLayerNodeNum : Nat
  allUpperLayerNodeNum : Nat
  curNodeNum : Nat
  edges : List (Nat × Nat)

-- One layer; the answer also says whether all nodes have been added.
def addTrieLayer (n k curLayerMaxNodeNum : Nat) : List Nat → TrieState → TrieState × Bool
  | [], st => (st, false)
  | i :: rest, st =>
    if curLayerMaxNodeNum = 1 then ({ st with curNodeNum := st.curNodeNum + 1 }, false)
    else
      let curNodeCode := st.curNodeNum + 1
      let parentNodeId := st.allUpperLayerNodeNum - st.upperLayerNodeNum + i / k
      let added := { st with
        edges := st.edges ++ [(curNodeCode, parentNodeId + 1)]
        curNodeNum := st.curNodeNum + 1 }
      if n ≤ added.curNodeNum then (added, true)
      else addTrieLayer n k curLayerMaxNodeNum rest added

-- The `while True` loop, for at most `fuel` layers.
def addTrieLayers (n k : Nat) : Nat → TrieState → Option TrieState
  | 0, _ => none
  | fuel + 1, st =>
    let curLayerMaxNodeNum := k ^ st.curLayer
    let (added, allNodesAdded) :=
      addTrieLayer n k curLayerMaxNodeNum (List.range curLayerMaxNodeNum) st
    if allNodesAdded then some added
    else addTrieLayers n k fuel { added with
      curLayer := added.curLayer + 1
      upperLayerNodeNum := curLayerMaxNodeNum
      allUpperLayerNodeNum := added.allUpperLayerNodeNum + curLayerMaxNodeNum }

def generateTrieTopology (n k fuel : Nat) : Option TopoFile := do
  let st ← addTrieLayers n k fuel ⟨0, 0, 0, 0, []⟩
  return { nodes := (List.range n).map fun i => i + 1, edges := st.edges }

end Trie

section Clos

structure ClosState where
  name2id : Dict String Nat
  nodes : List Nat
  nodeId : Nat

def addClosNode (st : ClosState) (nodeName : String) : ClosState where
  name2id := st.name2id.set nodeName st.nodeId
  nodes := st.nodes ++ [st.nodeId]
  nodeId := st.nodeId + 1

def leafName (podId leafId : Nat) : String := s!"pod{podId}_leaf{leafId}"

def spineName (podId spineId : Nat) : String := s!"pod{podId}_spine{spineId}"

def superspineName (superspineId : Nat) : String := s!"superspine{superspineId}"

def clientName (podId leafId clientId : Nat) : String :=
  s!"pod{podId}_leaf{leafId}_client{clientId}"

-- `range(1, n + 1)`
def upTo (n : Nat) : List Nat := List.range' 1 n

-- The names in the order of the loops that number them.
def closNames (k : Nat) : List String :=
  (upTo k).flatMap (fun podId => (upTo (k / 2)).map (leafName podId) ++
      (upTo (k / 2)).map (spineName podId)) ++
    (upTo ((k / 2) ^ 2)).map superspineName ++
    (upTo k).flatMap fun podId => (upTo (k / 2)).flatMap fun leafId =>
      (upTo (k / 2)).map (clientName podId leafId)

-- The spine of each uplink of a pod; the uplinks number the superspines from 1 on.
def spineUplinks (k : Nat) : List Nat :=
  (upTo (k / 2)).flatMap fun spineId => (upTo (k / 2)).map fun _ => spineId

-- The names at the two ends of each link.
def closLinks (k : Nat) : List (String × String) :=
  (upTo k).flatMap (fun podId => (upTo (k / 2)).flatMap fun leafId =>
      (upTo (k / 2)).map fun spineId => (leafName podId leafId, spineName podId spineId)) ++
    (upTo k).flatMap (fun podId => ((spineUplinks k).zipIdx 1).map fun (spineId, superspineId) =>
      (spineName podId spineId, superspineName superspineId)) ++
    (upTo k).flatMap fun podId => (upTo (k / 2)).flatMap fun leafId =>
      (upTo (k / 2)).map fun clientId => (clientName podId leafId clientId, leafName podId leafId)

def generateClosTopology (k : Nat) : Option TopoFile := do
  let st := (closNames k).foldl addClosNode ⟨Dict.empty, [], 1⟩
  let edges ← (closLinks k).mapM fun (nameI, nameJ) => do
    let nodeIdI ← st.name2id.get? nameI
    let nodeIdJ ← st.name2id.get? nameJ
    return (nodeIdI, nodeIdJ)
  return { nodes := st.nodes, edges := edges }

end Clos

inductive Topo where
  | chain (n : Nat)
  | star (n : Nat)
  | fullmesh (n : Nat)
  | pairs (n : Nat)
  | trie (n k : Nat)
  | grid (x y : Nat)
  | clos (k : Nat)
deriving DecidableEq

-- Only the loop of the trie may not end by itself.
def generateTopology (fuel : Nat) : Topo → Option TopoFile
  | .chain n => some (generateChainTopology n)
  | .star n => some (generateStarTopology n)
  | .fullmesh n => some (generateFullmeshTopology n)
  | .pairs n => generatePairs n
  | .trie n k => generateTrieTopology n k fuel
  | .grid x y => some (generateGridTopology x y)
  | .clos k => generateClosTopology k

section Counting

theorem numbered_nodup (n : Nat) : ((List.range n).map fun i => i + 1).Nodup :=
  List.nodup_range.map fun _ _ same => Nat.succ.inj same

theorem length_flatMap_const {α β : Type} {f : α → List β} {c : Nat} {xs : List α}
    (each : ∀ x ∈ xs, (f x).length = c) : (xs.flatMap f).length = xs.length * c := by
  induction xs with
  | nil => simp
  | cons x rest ih =>
    have later := ih fun y member => each y (List.mem_cons_of_mem x member)
    rw [List.flatMap_cons, List.length_append, each x (by simp), later, List.length_cons]
    ring

theorem growTopology_oneEach {edgesOf : Nat → List (Nat × Nat)} {n : Nat} (zero : edgesOf 0 = [])
    (one : ∀ i, (edgesOf (i + 1)).length = 1) : (growTopology edgesOf n).edges.length = n - 1 := by
  cases n with
  | zero => rfl
  | succ n =>
    rw [growTopology, List.range_succ_eq_map, List.flatMap_cons, zero, List.nil_append,
      List.flatMap_map]
    simpa using length_flatMap_const fun i (_ : i ∈ List.range n) => one i

theorem generateFullmeshTopology_edges (n : Nat) :
    (generateFullmeshTopology n).edges.length * 2 = n * (n - 1) := by
  induction n with
  | zero => rfl
  | succ n ih =>
    simp only [generateFullmeshTopology, growTopology, List.range_succ, List.flatMap_append,
      List.length_append, List.flatMap_singleton, List.length_map, List.length_range] at ih ⊢
    rw [Nat.add_mul, ih]
    cases n with
    | zero => rfl
    | succ n =>
      simp only [Nat.add_sub_cancel]
      ring

theorem gridNodes_eq (x y : Nat) :
    (generateGridTopology x y).nodes = (List.range (x * y)).map fun i => i + 1 :=
  LoopNest.flatMap_range (fun place => place + 1) x y

def wraps (n : Nat) : Nat := if 1 < n then 1 else 0

theorem gridEdges_length (x y i j : Nat) :
    (gridEdges x y i j).length = wraps x + wraps y := by
  simp only [gridEdges, wraps, List.length_append]
  split_ifs <;> rfl

theorem generateGridTopology_edges (x y : Nat) :
    (generateGridTopology x y).edges.length = x * (y * (wraps x + wraps y)) := by
  have row (i : Nat) : ((List.range y).flatMap (gridEdges x y i)).length =
      y * (wraps x + wraps y) := by
    simpa using length_flatMap_const fun j (_ : j ∈ List.range y) => gridEdges_length x y i j
  simpa [generateGridTopology] using length_flatMap_const fun i (_ : i ∈ List.range x) => row i

end Counting

section TrieLayers

variable {n k : Nat}

-- Every layer of a unary trie has one place, and the single place never counts the nodes.
theorem addTrieLayers_unary (fuel : Nat) (st : TrieState) : addTrieLayers n 1 fuel st = none := by
  induction fuel generalizing st with
  | zero => rfl
  | succ fuel ih =>
    simp only [addTrieLayers, one_pow, addTrieLayer, List.range_one, if_true, Bool.false_eq_true,
      if_false]
    exact ih _

-- The root is not compared with the node number, so a second node is linked in any case.
theorem generateTrieTopology_single (arity : 2 ≤ k) {fuel : Nat} {file : TopoFile}
    (run : generateTrieTopology 1 k fuel = some file) : file.edges = [(2, 1)] := by
  rcases fuel with _ | _ | fuel
  · simp [generateTrieTopology, addTrieLayers] at run
  · simp [generateTrieTopology, addTrieLayers, addTrieLayer] at run
  · have places : List.range k = 0 :: (List.range (k - 1)).map Nat.succ := by
      rw [← List.range_succ_eq_map]
      congr 1
      omega
    have wide : k ≠ 1 := by omega
    simp only [generateTrieTopology, addTrieLayers, addTrieLayer, pow_zero, pow_one,
      List.range_one, if_true, Nat.zero_add, places, if_neg wide, Bool.false_eq_true, if_false,
      Nat.sub_self, Nat.zero_div, Nat.add_zero, List.nil_append, Nat.reduceAdd,
      Nat.one_le_ofNat, Option.bind_eq_bind, Option.bind_some, Option.pure_def,
      Option.some.injEq] at run
    rw [← run]

end TrieLayers

section ClosNodes

theorem addClosNodes_spec (names : List String) (st : ClosState) :
    (names.foldl addClosNode st).nodes = st.nodes ++ List.range' st.nodeId names.length ∧
      ∀ name, name ∈ (names.foldl addClosNode st).name2id.keys ↔
        name ∈ st.name2id.keys ∨ name ∈ names := by
  induction names generalizing st with
  | nil => simp
  | cons name rest ih =>
    have ⟨numbered, named⟩ := ih (addClosNode st name)
    constructor
    · rw [List.foldl_cons, numbered]
      simp [addClosNode, List.range'_succ]
    · intro other
      rw [List.foldl_cons, named, addClosNode, Dict.keys_set, List.mem_cons]
      split <;> grind

theorem mem_upTo {n i : Nat} : i ∈ upTo n ↔ 1 ≤ i ∧ i ≤ n := by
  rw [upTo, List.mem_range'_1]
  omega

@[simp] theorem length_upTo (n : Nat) : (upTo n).length = n := List.length_range'

theorem length_closNames (k : Nat) : (closNames k).length =
    k * (k / 2 + k / 2) + (k / 2) ^ 2 + k * (k / 2 * (k / 2)) := by
  simp [closNames, List.length_flatMap, Nat.add_assoc]

theorem length_spineUplinks (k : Nat) : (spineUplinks k).length = k / 2 * (k / 2) := by
  simp [spineUplinks, List.length_flatMap]

theorem length_closLinks (k : Nat) : (closLinks k).length = 3 * (k * (k / 2 * (k / 2))) := by
  simp only [closLinks, List.length_append, List.length_flatMap, List.length_map,
    List.length_zipIdx, length_upTo, length_spineUplinks, List.map_const', List.sum_replicate,
    smul_eq_mul]
  ring

theorem switch_named {k podId place : Nat} (pod : podId ∈ upTo k) (inPod : place ∈ upTo (k / 2)) :
    leafName podId place ∈ closNames k ∧ spineName podId place ∈ closNames k := by
  simp only [closNames, List.mem_append, List.mem_flatMap]
  constructor
  · exact .inl (.inl ⟨podId, pod, .inl (List.mem_map_of_mem inPod)⟩)
  · exact .inl (.inl ⟨podId, pod, .inr (List.mem_map_of_mem inPod)⟩)

theorem closLinks_named {k : Nat} {link : String × String} (member : link ∈ closLinks k) :
    link.1 ∈ closNames k ∧ link.2 ∈ closNames k := by
  simp only [closLinks, List.mem_append, List.mem_flatMap, List.mem_map] at member
  rcases member with (⟨podId, pod, leafId, leaf, spineId, spine, same⟩ |
    ⟨podId, pod, ⟨spineId, superspineId⟩, place, same⟩) |
    ⟨podId, pod, leafId, leaf, clientId, client, same⟩
  · exact same ▸ ⟨(switch_named pod leaf).1, (switch_named pod spine).2⟩
  · have ⟨low, high, found⟩ := List.mem_zipIdx place
    have uplink : spineId ∈ spineUplinks k := found ▸ List.getElem_mem _
    have ⟨spine, inPod, ports⟩ := List.mem_flatMap.mp uplink
    have ⟨_, _, equal⟩ := List.mem_map.mp ports
    have superspine : superspineName superspineId ∈ closNames k := by
      rw [length_spineUplinks] at high
      have bound : superspineId ∈ upTo ((k / 2) ^ 2) := mem_upTo.mpr ⟨low, by rw [sq]; omega⟩
      rw [closNames, List.mem_append, List.mem_append]
      exact .inl (.inr (List.mem_map_of_mem bound))
    exact same ▸ ⟨equal ▸ (switch_named pod inPod).2, superspine⟩
  · have named : clientName podId leafId clientId ∈ closNames k := by
      rw [closNames, List.mem_append]
      exact .inr (List.mem_flatMap.mpr ⟨podId, pod, List.mem_flatMap.mpr
        ⟨leafId, leaf, List.mem_map_of_mem client⟩⟩)
    exact same ▸ ⟨named, (switch_named pod leaf).1⟩

theorem generateClosTopology_spec (k : Nat) : ∃ edges,
    generateClosTopology k = some ⟨List.range' 1 (closNames k).length, edges⟩ ∧
      edges.length = (closLinks k).length := by
  have ⟨numbered, named⟩ := addClosNodes_spec (closNames k) ⟨Dict.empty, [], 1⟩
  let st := (closNames k).foldl addClosNode ⟨Dict.empty, [], 1⟩
  have ⟨edges, run, length⟩ := Monadic.mapM_found (f := fun link : String × String => do
      let nodeIdI ← st.name2id.get? link.1
      let nodeIdJ ← st.name2id.get? link.2
      return (nodeIdI, nodeIdJ)) (closLinks k) (by
    intro link member
    have ⟨first, second⟩ := closLinks_named member
    have ⟨nodeIdI, foundI⟩ := st.name2id.exists_get? ((named _).mpr (.inr first))
    have ⟨nodeIdJ, foundJ⟩ := st.name2id.exists_get? ((named _).mpr (.inr second))
    exact ⟨(nodeIdI, nodeIdJ), by simp [foundI, foundJ]⟩)
  refine ⟨edges, ?_, length⟩
  simp only [generateClosTopology, numbered, List.nil_append]
  simp only [st] at run
  rw [run]
  rfl

end ClosNodes

end SplitNN.Coordinator
