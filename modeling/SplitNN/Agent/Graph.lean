import Mathlib
import SplitNN.Shared.Dict
import SplitNN.Shared.Multigraph

set_option autoImplicit false

namespace SplitNN.Agent

-- Go's maps are dictionaries here; a loop over one takes the order of its keys as a parameter,
-- unless its result cannot depend on it.
structure Graph where
  adjacencyList : Dict Int (List Int)
  -- externalNodeID, serverID, vxlanID
  danglingEdgeList : Dict Int (List (Int × Int × Int))

def newGraph : Graph := ⟨Dict.empty, Dict.empty⟩

def totalLength {α : Type} (map : Dict Int (List α)) : Nat := (map.values.map List.length).sum

def Graph.getNodeNum (g : Graph) : Nat := g.adjacencyList.keys.length

def Graph.getEdgeNum (g : Graph) : Nat :=
  totalLength g.adjacencyList / 2 + totalLength g.danglingEdgeList

-- `m[key] = append(m[key], value)`; a missing key reads as an empty slice.
def appendAt {α : Type} (map : Dict Int (List α)) (key : Int) (value : α) : Dict Int (List α) :=
  map.set key (map.getD key [] ++ [value])

theorem getD_appendAt {α : Type} (map : Dict Int (List α)) (key other : Int) (value : α) :
    (appendAt map key value).getD other [] =
      if other = key then map.getD key [] ++ [value] else map.getD other [] :=
  Dict.getD_set map key other _ []

theorem keys_appendAt {α : Type} {map : Dict Int (List α)} {key : Int} (value : α)
    (known : key ∈ map.keys) : (appendAt map key value).keys = map.keys := by
  simp [appendAt, Dict.keys_set, known]

theorem totalLength_appendAt {α : Type} (map : Dict Int (List α)) (key : Int) (value : α) :
    totalLength (appendAt map key value) = totalLength map + 1 := by
  have total := Dict.sum_values_set map key (map.getD key [] ++ [value]) List.length
  cases found : map.get? key <;>
    simp [found, Dict.getD] at total <;> simp [totalLength, appendAt, Dict.getD, found] <;> omega

theorem totalLength_ofKeys {α : Type} (keys : List Int) :
    totalLength (Dict.ofKeys keys fun _ => ([] : List α)) = 0 := by
  have run (map : Dict Int (List α)) (clear : totalLength map = 0) :
      totalLength (keys.foldl (fun current key => current.set key []) map) = 0 := by
    induction keys generalizing map with
    | nil => exact clear
    | cons key rest ih =>
      apply ih
      have total := Dict.sum_values_set map key [] List.length
      simp only [totalLength, List.length_nil] at clear total ⊢
      omega
  exact run Dict.empty rfl

end SplitNN.Agent
