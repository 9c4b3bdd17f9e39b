import Mathlib
import SplitNN.Coordinator.TopoGenerators

set_option autoImplicit false

namespace SplitNN.Coordinator

section Layers

variable {n k : Nat}

-- The number of nodes above a layer of the complete trie.
def aboveLayer (k layer : Nat) : Nat := ∑ upper ∈ Finset.range layer, k ^ upper

theorem aboveLayer_succ (k layer : Nat) :
    aboveLayer k (layer + 1) = aboveLayer k layer + k ^ layer :=
  Finset.sum_range_succ _ _

theorem aboveLayer_child (k layer : Nat) :
    aboveLayer k (layer + 1) = k * aboveLayer k layer + 1 :=
  geom_sum_succ

def trieParent (k v : Nat) : Nat := (v - 2) / k + 1

def trieEdges (k n : Nat) : List (Nat × Nat) :=
  (List.range' 2 (n - 1)).map fun v => (v, trieParent k v)

theorem trieEdges_succ {k : Nat} (positive : 1 ≤ n) :
    trieEdges k (n + 1) = trieEdges k n ++ [(n + 1, trieParent k (n + 1))] := by
  have grown : n + 1 - 1 = n - 1 + 1 := by omega
  have last : 2 + 1 * (n - 1) = n + 1 := by omega
  rw [trieEdges, grown, List.range'_concat, List.map_append, last]
  rfl

theorem trieParent_inLayer (positive : 1 ≤ k) (layer i : Nat) :
    aboveLayer k (layer + 1) - k ^ layer + i / k + 1 =
      trieParent k (aboveLayer k (layer + 1) + i + 1) := by
  have before : aboveLayer k (layer + 1) - k ^ layer = aboveLayer k layer := by
    rw [aboveLayer_succ, Nat.add_sub_cancel]
  have place : aboveLayer k (layer + 1) + i + 1 - 2 = k * aboveLayer k layer + i := by
    rw [aboveLayer_child]
    omega
  rw [trieParent, before, place, Nat.mul_add_div (by omega)]

def trieState (k layer nodeNum : Nat) : TrieState where
  curLayer := layer + 1
  upperLayerNodeNum := k ^ layer
  allUpperLayerNodeNum := aboveLayer k (layer + 1)
  curNodeNum := nodeNum
  edges := trieEdges k nodeNum

theorem aboveLayer_positive (k layer : Nat) : 1 ≤ aboveLayer k (layer + 1) := by
  rw [aboveLayer_child]
  omega

theorem addTrieLayer_edges (arity : 2 ≤ k) (layer : Nat) (width i : Nat)
    (room : aboveLayer k (layer + 1) + i < n) :
    addTrieLayer n k (k ^ (layer + 1)) (List.range' i width)
        (trieState k layer (aboveLayer k (layer + 1) + i)) =
      (trieState k layer (min n (aboveLayer k (layer + 1) + i + width)),
        decide (n ≤ aboveLayer k (layer + 1) + i + width)) := by
  have wide : k ^ (layer + 1) ≠ 1 := by
    have grows : k ^ 1 ≤ k ^ (layer + 1) := Nat.pow_le_pow_right (by omega) (by omega)
    rw [pow_one] at grows
    omega
  induction width generalizing i with
  | zero =>
    have notAll : ¬ n ≤ aboveLayer k (layer + 1) + i := not_le.mpr room
    simp [addTrieLayer, notAll, Nat.min_eq_right room.le]
  | succ width ih =>
    have positive := aboveLayer_positive k layer
    have added : { trieState k layer (aboveLayer k (layer + 1) + i) with
        edges := trieEdges k (aboveLayer k (layer + 1) + i) ++
          [(aboveLayer k (layer + 1) + i + 1,
            aboveLayer k (layer + 1) - k ^ layer + i / k + 1)]
        curNodeNum := aboveLayer k (layer + 1) + i + 1 } =
          trieState k layer (aboveLayer k (layer + 1) + (i + 1)) := by
      rw [trieParent_inLayer (by omega), ← trieEdges_succ (by omega)]
      rfl
    rw [List.range'_succ, addTrieLayer, if_neg wide]
    dsimp only [trieState] at added ⊢
    simp only [added]
    split
    next full =>
      have all : n ≤ aboveLayer k (layer + 1) + i + (width + 1) := by omega
      have last : min n (aboveLayer k (layer + 1) + i + (width + 1)) =
          aboveLayer k (layer + 1) + (i + 1) := by omega
      rw [last, decide_eq_true all]
    next more =>
      have later := ih (i + 1) (by omega)
      have shift : aboveLayer k (layer + 1) + (i + 1) + width =
        aboveLayer k (layer + 1) + i + (width + 1) := by omega
      rw [shift] at later
      exact later

theorem addTrieLayers_run (arity : 2 ≤ k) {left layer : Nat} (room : aboveLayer k (layer + 1) < n)
    (bound : n ≤ aboveLayer k (layer + 1) + left) :
    ∃ fuel last, ∀ more, addTrieLayers n k (fuel + more)
      (trieState k layer (aboveLayer k (layer + 1))) = some (trieState k last n) := by
  induction left generalizing layer with
  | zero => omega
  | succ left ih =>
    have run := addTrieLayer_edges arity layer (k ^ (layer + 1)) 0 room
    simp only [← List.range_eq_range', Nat.add_zero, ← aboveLayer_succ] at run
    have depth : (trieState k layer (aboveLayer k (layer + 1))).curLayer = layer + 1 := rfl
    by_cases all : n ≤ aboveLayer k (layer + 1 + 1)
    next =>
      refine ⟨1, layer, fun more => ?_⟩
      rw [Nat.add_comm, addTrieLayers, depth, run, Nat.min_eq_left all]
      simp [all]
    next =>
      have deeper : aboveLayer k (layer + 1) < aboveLayer k (layer + 1 + 1) := by
        rw [aboveLayer_succ k (layer + 1)]
        exact Nat.lt_add_of_pos_right (Nat.pow_pos (by omega))
      obtain ⟨fuel, last, later⟩ := ih (not_le.mp all) (by omega)
      have next : { trieState k layer (aboveLayer k (layer + 1 + 1)) with
          curLayer := layer + 1 + 1
          upperLayerNodeNum := k ^ (layer + 1)
          allUpperLayerNodeNum := aboveLayer k (layer + 1) + k ^ (layer + 1) } =
            trieState k (layer + 1) (aboveLayer k (layer + 1 + 1)) := by
        rw [← aboveLayer_succ]
        rfl
      refine ⟨fuel + 1, last, fun more => ?_⟩
      rw [Nat.add_right_comm, addTrieLayers, depth, run, Nat.min_eq_right (by omega)]
      simp only [all, decide_false, Bool.false_eq_true, if_false]
      rw [← later more, ← next]
      rfl

theorem generateTrieTopology_edges (arity : 2 ≤ k) (several : 2 ≤ n) : ∃ fuel, ∀ more,
    generateTrieTopology n k (fuel + more) =
      some ⟨(List.range n).map fun i => i + 1, trieEdges k n⟩ := by
  have first : aboveLayer k (0 + 1) = 1 := by simp [aboveLayer]
  have ⟨fuel, last, run⟩ := @addTrieLayers_run n k arity n 0 (by omega) (by omega)
  refine ⟨fuel + 1, fun more => ?_⟩
  have root : addTrieLayers n k (fuel + 1 + more) ⟨0, 0, 0, 0, []⟩ =
      addTrieLayers n k (fuel + more) (trieState k 0 (aboveLayer k (0 + 1))) := by
    rw [Nat.add_right_comm]
    simp [addTrieLayers, addTrieLayer, trieState, trieEdges, first]
  rw [generateTrieTopology, root, run]
  rfl

end Layers

section Trees

variable {n k : Nat}

/-- Every node but the root has one edge to a parent, and the parents lead to the root. -/
structure RootedTree (root : Nat) (nodes : List Nat) (edges : List (Nat × Nat)) : Prop where
  rooted : root ∈ nodes
  inside : ∀ edge ∈ edges, edge.1 ∈ nodes ∧ edge.2 ∈ nodes
  oneParent : ∀ v ∈ nodes, (edges.map Prod.fst).count v = if v = root then 0 else 1
  reachesRoot : ∀ v ∈ nodes,
    Relation.ReflTransGen (fun child parent => (child, parent) ∈ edges) v root

theorem mem_trieEdges {edge : Nat × Nat} :
    edge ∈ trieEdges k n ↔ 2 ≤ edge.1 ∧ edge.1 ≤ n ∧ edge.2 = trieParent k edge.1 := by
  obtain ⟨v, parent⟩ := edge
  simp only [trieEdges, List.mem_map, List.mem_range'_1, Prod.mk.injEq]
  constructor
  next =>
    rintro ⟨v, bounds, rfl, rfl⟩
    omega
  next => exact fun ⟨low, high, same⟩ => ⟨v, by omega, rfl, same.symm⟩

theorem trieParent_lt {v : Nat} (low : 2 ≤ v) : trieParent k v < v := by
  have bound : (v - 2) / k ≤ v - 2 := Nat.div_le_self _ _
  rw [trieParent]
  omega

theorem trieEdges_reach {v : Nat} (low : 1 ≤ v) (high : v ≤ n) :
    Relation.ReflTransGen (fun child parent => (child, parent) ∈ trieEdges k n) v 1 := by
  induction v using Nat.strongRecOn with
  | ind v ih =>
    by_cases root : v = 1
    next => exact root ▸ .refl
    next =>
      have earlier : trieParent k v < v := trieParent_lt (by omega)
      have above : 1 ≤ trieParent k v := Nat.le_add_left 1 _
      exact .head (mem_trieEdges.mpr ⟨by omega, high, rfl⟩)
        (ih (trieParent k v) earlier above (by omega))

theorem trieEdges_children : (trieEdges k n).map Prod.fst = List.range' 2 (n - 1) := by
  simp [trieEdges, Function.comp_def]

theorem trieEdges_rootedTree (positive : 1 ≤ n) :
    RootedTree 1 ((List.range n).map fun i => i + 1) (trieEdges k n) := by
  have node (v : Nat) : v ∈ ((List.range n).map fun i => i + 1) ↔ 1 ≤ v ∧ v ≤ n := by
    rw [List.mem_map]
    constructor
    next =>
      rintro ⟨i, member, rfl⟩
      have bound := List.mem_range.mp member
      omega
    next => exact fun ⟨low, high⟩ => ⟨v - 1, List.mem_range.mpr (by omega), by omega⟩
  constructor
  case rooted => exact (node 1).mpr ⟨le_refl 1, positive⟩
  case inside =>
    intro edge member
    have ⟨low, high, same⟩ := mem_trieEdges.mp member
    have earlier : trieParent k edge.1 < edge.1 := trieParent_lt low
    have above : 1 ≤ trieParent k edge.1 := Nat.le_add_left 1 _
    exact ⟨(node _).mpr (by omega), (node _).mpr (by omega)⟩
  case oneParent =>
    intro v member
    have ⟨low, high⟩ := (node v).mp member
    rw [trieEdges_children]
    split
    next root =>
      rw [List.count_eq_zero, List.mem_range'_1]
      omega
    next other =>
      apply List.count_eq_one_of_mem List.nodup_range'
      rw [List.mem_range'_1]
      omega
  case reachesRoot =>
    intro v member
    have ⟨low, high⟩ := (node v).mp member
    exact trieEdges_reach low high

theorem trieEdges_fewChildren (positive : 1 ≤ k) (parent : Nat) :
    ((trieEdges k n).map Prod.snd).count parent ≤ k := by
  have places : ((List.range' 2 (n - 1)).filter fun v => trieParent k v = parent).toFinset ⊆
      Finset.Ico (2 + k * (parent - 1)) (2 + k * (parent - 1) + k) := by
    intro v member
    rw [List.mem_toFinset, List.mem_filter, List.mem_range'_1, decide_eq_true_eq] at member
    have ⟨⟨low, _⟩, same⟩ := member
    rw [trieParent] at same
    rw [Finset.mem_Ico]
    have whole := Nat.div_add_mod (v - 2) k
    have rest := Nat.mod_lt (v - 2) positive
    have quotient : (v - 2) / k = parent - 1 := Nat.eq_sub_of_add_eq same
    rw [quotient] at whole
    omega
  have distinct : ((List.range' 2 (n - 1)).filter fun v => trieParent k v = parent).Nodup :=
    List.Nodup.filter _ List.nodup_range'
  have few := Finset.card_le_card places
  rw [List.toFinset_card_of_nodup distinct, Nat.card_Ico, Nat.add_sub_cancel_left] at few
  calc ((trieEdges k n).map Prod.snd).count parent
      = ((List.range' 2 (n - 1)).map (trieParent k)).count parent := by
        simp [trieEdges, Function.comp_def]
    _ = ((List.range' 2 (n - 1)).filter fun v => trieParent k v = parent).length := by
        rw [List.count, List.countP_map, List.countP_eq_length_filter]
        simp [Function.comp_def, BEq.beq]
    _ ≤ k := few

/-- The complete trie in breadth-first order. -/
theorem generateTrieTopology_tree (several : 2 ≤ n) (arity : 2 ≤ k) : ∃ fuel file,
    (∀ more, generateTrieTopology n k (fuel + more) = some file) ∧
    file.edges = (List.range' 2 (n - 1)).map (fun v => (v, (v - 2) / k + 1)) ∧
    file.nodes = (List.range n).map (fun i => i + 1) ∧ RootedTree 1 file.nodes file.edges ∧
    (∀ edge ∈ file.edges, edge.2 < edge.1) ∧
    ∀ parent, (file.edges.map Prod.snd).count parent ≤ k := by
  have ⟨fuel, run⟩ := generateTrieTopology_edges arity several
  refine ⟨fuel, _, run, rfl, rfl, trieEdges_rootedTree (by omega), fun edge member => ?_,
    trieEdges_fewChildren (by omega)⟩
  have ⟨low, _, same⟩ := mem_trieEdges.mp member
  exact same ▸ trieParent_lt low

theorem generateTrieTopology_tree_seven : ∃ fuel file,
    (∀ more, generateTrieTopology 7 2 (fuel + more) = some file) ∧
    file.edges = [(2, 1), (3, 1), (4, 2), (5, 2), (6, 3), (7, 3)] ∧
    RootedTree 1 file.nodes file.edges := by
  have ⟨fuel, file, run, edges, _, tree, _⟩ :=
    @generateTrieTopology_tree 7 2 (by decide) (by decide)
  exact ⟨fuel, file, run, edges, tree⟩

def TrieWithinNodes (n k : Nat) : Prop :=
  ∃ fuel file, generateTrieTopology n k fuel = some file ∧
    (∀ edge ∈ file.edges, edge.1 ≠ edge.2 ∧ edge.1 ∈ file.nodes ∧ edge.2 ∈ file.nodes) ∧
    file.edges.length = n - 1

theorem unary_not_within (n : Nat) : ¬ TrieWithinNodes n 1 := by
  intro ⟨fuel, file, run, _⟩
  simp [generateTrieTopology, addTrieLayers_unary] at run

theorem single_not_within (arity : 2 ≤ k) : ¬ TrieWithinNodes 1 k := by
  intro ⟨fuel, file, run, _, length⟩
  rw [generateTrieTopology_single arity run] at length
  cases length

theorem trieWithinNodes_iff (positive : 1 ≤ n) (children : 1 ≤ k) :
    TrieWithinNodes n k ↔ 2 ≤ n ∧ 2 ≤ k := by
  constructor
  next =>
    intro within
    have arity : 2 ≤ k := by
      by_contra unary
      obtain rfl : k = 1 := by omega
      exact unary_not_within n within
    refine ⟨?_, arity⟩
    by_contra single
    obtain rfl : n = 1 := by omega
    exact single_not_within arity within
  next =>
    intro ⟨several, arity⟩
    have ⟨fuel, run⟩ := generateTrieTopology_edges arity several
    have tree := trieEdges_rootedTree (k := k) positive
    refine ⟨fuel, _, run 0, fun edge member => ⟨?_, tree.inside edge member⟩, ?_⟩
    · have ⟨low, _, same⟩ := mem_trieEdges.mp member
      rw [same]
      exact (trieParent_lt low).ne'
    · simp [trieEdges]

theorem trieWithinNodes_iff_seven : TrieWithinNodes 7 2 ↔ 2 ≤ 7 ∧ 2 ≤ 2 :=
  trieWithinNodes_iff (by decide) (by decide)

theorem small_tries_not_within : ¬ TrieWithinNodes 3 1 ∧ ¬ TrieWithinNodes 1 2 :=
  ⟨unary_not_within 3, single_not_within (le_refl 2)⟩

end Trees

end SplitNN.Coordinator
