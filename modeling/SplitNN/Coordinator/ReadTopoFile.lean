import Mathlib
import SplitNN.Coordinator.PartitionPm
import SplitNN.Shared.Text

set_option autoImplicit false

namespace SplitNN.Coordinator

open Text

def recordLink (adjacencyList : AdjacencyList) (link : NodeName × NodeName) : AdjacencyList :=
  ((ensureNode (ensureNode adjacencyList link.1) link.2).adjust link.1 (· ++ [link.2])).adjust
    link.2 (· ++ [link.1])

-- Unpacking the split line into two names raises unless there are exactly two.
def scanLink (adjacencyList : AdjacencyList) (line : List Char) : Option AdjacencyList :=
  match pySplit (strip line) with
  | [nodeNameI, nodeNameJ] =>
    some (recordLink adjacencyList (String.ofList nodeNameI, String.ofList nodeNameJ))
  | _ => none

def removeIfDangling (tmpAdjacencyList : AdjacencyList) (nodes : List NodeName)
    (nodeName : NodeName) : Option (List NodeName) :=
  if (neighbours tmpAdjacencyList nodeName).length = 0 then
    -- `list.remove` takes out the first occurrence and raises where there is none.
    if nodeName ∈ nodes then some (nodes.erase nodeName) else none
  else some nodes

def readGraphFromTopoFile (text : String) : Option (List NodeName × AdjacencyList) := do
  let lines := fileLines text.toList
  let nodes := (pySplit (strip (lines.headD []))).map String.ofList
  let tmpAdjacencyList ← lines.tail.foldlM scanLink (Dict.ofKeys nodes fun _ => [])
  let nodes ← tmpAdjacencyList.keys.foldlM (removeIfDangling tmpAdjacencyList) nodes
  let adjacencyList ← lines.tail.foldlM scanLink Dict.empty
  return (nodes, adjacencyList)

def Symmetric (adjacencyList : AdjacencyList) : Prop :=
  ∀ u v, multiplicity adjacencyList u v = multiplicity adjacencyList v u

theorem ensureNode_neighbours (adjacencyList : AdjacencyList) (node other : NodeName) :
    neighbours (ensureNode adjacencyList node) other = neighbours adjacencyList other :=
  Dict.getD_ensure adjacencyList node other []

theorem mem_keys_ensureNode {adjacencyList : AdjacencyList} {node other : NodeName} :
    other ∈ (ensureNode adjacencyList node).keys ↔ other ∈ adjacencyList.keys ∨ other = node :=
  Dict.mem_keys_ensure

theorem ensureNode_present {adjacencyList : AdjacencyList} {node : NodeName}
    (present : node ∈ adjacencyList.keys) : ensureNode adjacencyList node = adjacencyList := by
  rw [ensureNode, if_pos present]

theorem recordLink_multiplicity (adjacencyList : AdjacencyList) (link : NodeName × NodeName)
    (u v : NodeName) : multiplicity (recordLink adjacencyList link) u v =
      multiplicity adjacencyList u v + [link].count (u, v) + [link].count (v, u) := by
  let known := ensureNode (ensureNode adjacencyList link.1) link.2
  have left : link.1 ∈ known.keys :=
    mem_keys_ensureNode.mpr (.inl (mem_keys_ensureNode.mpr (.inr rfl)))
  have right : link.2 ∈ known.keys := mem_keys_ensureNode.mpr (.inr rfl)
  have same : recordLink adjacencyList link = addIntraPmLink link known := by
    rw [addIntraPmLink, ensureNode_present right, ensureNode_present left]
    rfl
  rw [same, addIntraPmLink_multiplicity left right]
  simp only [multiplicity, known, ensureNode_neighbours]

theorem Symmetric.recordLink {adjacencyList : AdjacencyList} (symmetric : Symmetric adjacencyList)
    (link : NodeName × NodeName) : Symmetric (recordLink adjacencyList link) := by
  intro u v
  rw [recordLink_multiplicity, recordLink_multiplicity, symmetric u v]
  omega

theorem Symmetric.scanLinks {lines : List (List Char)} {adjacencyList final : AdjacencyList}
    (symmetric : Symmetric adjacencyList) (run : lines.foldlM scanLink adjacencyList = some final) :
    Symmetric final := by
  induction lines generalizing adjacencyList with
  | nil => exact Option.some.inj run ▸ symmetric
  | cons line rest ih =>
    rw [List.foldlM_cons, Option.bind_eq_bind, Option.bind_eq_some_iff] at run
    have ⟨next, scanned, later⟩ := run
    unfold scanLink at scanned
    split at scanned
    next => exact ih (Option.some.inj scanned ▸ symmetric.recordLink _) later
    next => cases scanned

theorem readGraphFromTopoFile_symmetric {text : String} {nodes : List NodeName}
    {adjacencyList : AdjacencyList}
    (read : readGraphFromTopoFile text = some (nodes, adjacencyList)) :
    Symmetric adjacencyList := by
  simp only [readGraphFromTopoFile, Option.bind_eq_bind, Option.bind_eq_some_iff,
    Option.pure_def, Option.some.injEq, Prod.mk.injEq] at read
  have ⟨_, _, _, _, _, scanned, _, same⟩ := read
  have empty : Symmetric Dict.empty := fun _ _ => rfl
  exact same ▸ empty.scanLinks scanned

example : readGraphFromTopoFile "1 2 3\n1 2\n" =
    some (["1", "2"], ⟨[("1", ["2"]), ("2", ["1"])], by decide⟩) := by decide +kernel

end SplitNN.Coordinator
