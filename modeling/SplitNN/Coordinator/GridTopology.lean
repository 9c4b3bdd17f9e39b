import Mathlib
import SplitNN.Shared.Multigraph
import SplitNN.Coordinator.TopoGenerators

set_option autoImplicit false

namespace SplitNN.Coordinator

section Ring

variable {n i j : Nat}

def nextAround (n i : Nat) : Nat := (i + 1) % n

theorem nextAround_inner (inner : i < n - 1) : nextAround n i = i + 1 :=
  Nat.mod_eq_of_lt (by omega)

theorem nextAround_last (inside : i < n) (last : ¬ i < n - 1) : nextAround n i = 0 := by
  have wrapped : i + 1 = n := by omega
  rw [nextAround, wrapped, Nat.mod_self]

theorem nextAround_lt (inside : i < n) : nextAround n i < n :=
  Nat.mod_lt _ (by omega)

theorem nextAround_ne (several : 1 < n) (inside : i < n) : nextAround n i ≠ i := by
  by_cases inner : i < n - 1
  next =>
    rw [nextAround_inner inner]
    omega
  next =>
    rw [nextAround_last inside inner]
    omega

theorem nextAround_twice (several : 1 < n) (inside : i < n) :
    nextAround n (nextAround n i) = i ↔ n = 2 := by
  by_cases inner : i < n - 1
  next =>
    rw [nextAround_inner inner]
    by_cases further : i + 1 < n - 1
    next =>
      rw [nextAround_inner further]
      omega
    next =>
      rw [nextAround_last (by omega) further]
      omega
  next =>
    rw [nextAround_last inside inner, nextAround_inner (by omega)]
    omega

def AdjacentAround (n i j : Nat) : Prop := nextAround n i = j ∨ nextAround n j = i

-- The links of a ring from one place to another, as the generator adds them.
def ringLinks (n i j : Nat) : Nat := if 1 < n ∧ nextAround n i = j then 1 else 0

theorem ringLinks_both (left : i < n) (right : j < n) (different : i ≠ j)
    (adjacent : AdjacentAround n i j) :
    ringLinks n i j + ringLinks n j i = if n = 2 then 2 else 1 := by
  have several : 1 < n := by omega
  simp only [ringLinks, several, true_and]
  rcases adjacent with rfl | rfl
  · simp only [if_true, nextAround_twice several left]
    split <;> rfl
  · simp only [if_true, nextAround_twice several right]
    split <;> rfl

end Ring

section Grid

variable {x y : Nat}

abbrev Cell (x y : Nat) : Type := Fin x × Fin y

def Cell.node (cell : Cell x y) : Nat := gridNode y cell.1 cell.2

def CyclicallyAdjacent (p q : Cell x y) : Prop :=
  p.1 = q.1 ∧ AdjacentAround y p.2 q.2 ∨ p.2 = q.2 ∧ AdjacentAround x p.1 q.1

/-- The links of a torus, each of them once. -/
structure CyclicGrid (x y : Nat) (links : List (Nat × Nat)) : Prop where
  adjacent : ∀ link ∈ links, ∃ p q : Cell x y, link = (p.node, q.node) ∧ CyclicallyAdjacent p q
  loopFree : ∀ link ∈ links, link.1 ≠ link.2
  distinct : (Multigraph.unordered links).Nodup
  joined : ∀ p q : Cell x y, p ≠ q → CyclicallyAdjacent p q →
    (Multigraph.unordered links).count s(p.node, q.node) = 1

def gridTargets (x y i j : Nat) : List Nat :=
  (if 1 < y then [gridNode y i (nextAround y j)] else []) ++
    if 1 < x then [gridNode y (nextAround x i) j] else []

theorem gridEdges_targets {i j : Nat} (row : i < x) (column : j < y) :
    gridEdges x y i j = (gridTargets x y i j).map fun target => (gridNode y i j, target) := by
  have right (inner : ¬ j < y - 1) : gridNode y i j - (y - 1) = gridNode y i 0 := by
    rw [gridNode, gridNode]
    omega
  have bottom : gridNode y i j + y = gridNode y (i + 1) j := by
    rw [gridNode, gridNode, Nat.succ_mul]
    omega
  have top (inner : ¬ i < x - 1) : gridNode y i j - (x - 1) * y = gridNode y 0 j := by
    have last : i = x - 1 := by omega
    rw [gridNode, gridNode, last]
    omega
  simp only [gridEdges, gridTargets, List.map_append]
  congr 1
  · split
    next several =>
      by_cases inner : j < y - 1
      next => simp [inner, nextAround_inner inner, gridNode, Nat.add_assoc]
      next => simp [inner, nextAround_last column inner, right inner]
    next => rfl
  · split
    next several =>
      by_cases inner : i < x - 1
      next => simp [inner, nextAround_inner inner, bottom]
      next => simp [inner, nextAround_last row inner, top inner]
    next => rfl

def gridCells (x y : Nat) : List (Cell x y) :=
  (List.finRange x).flatMap fun i => (List.finRange y).map fun j => (i, j)

theorem mem_gridCells (cell : Cell x y) : cell ∈ gridCells x y := by
  simp [gridCells]

theorem gridNodes_cells : (generateGridTopology x y).nodes = (gridCells x y).map Cell.node := by
  simp only [generateGridTopology, gridCells, List.map_flatMap, List.map_map,
    ← List.map_coe_finRange_eq_range, List.flatMap_map]
  rfl

theorem gridLinks_cells : (generateGridTopology x y).edges = (gridCells x y).flatMap fun cell =>
    (gridTargets x y cell.1 cell.2).map fun target => (cell.node, target) := by
  simp only [generateGridTopology, gridCells, List.flatMap_assoc,
    ← List.map_coe_finRange_eq_range, List.flatMap_map]
  simp only [gridEdges_targets (Fin.is_lt _) (Fin.is_lt _)]
  rfl

theorem gridNodes_distinct : ((gridCells x y).map Cell.node).Nodup := by
  rw [← gridNodes_cells, gridNodes_eq]
  exact numbered_nodup _

theorem Cell.node_inj {p q : Cell x y} : p.node = q.node ↔ p = q :=
  ⟨fun same => List.inj_on_of_nodup_map gridNodes_distinct (mem_gridCells p) (mem_gridCells q) same,
    congrArg Cell.node⟩

def Cell.right (cell : Cell x y) : Cell x y :=
  (cell.1, ⟨nextAround y cell.2, nextAround_lt cell.2.isLt⟩)

def Cell.below (cell : Cell x y) : Cell x y :=
  (⟨nextAround x cell.1, nextAround_lt cell.1.isLt⟩, cell.2)

theorem Cell.right_eq {p q : Cell x y} : p.right = q ↔ p.1 = q.1 ∧ nextAround y p.2 = q.2 := by
  simp only [Cell.right, Prod.ext_iff, Fin.ext_iff]

theorem Cell.below_eq {p q : Cell x y} : p.below = q ↔ p.2 = q.2 ∧ nextAround x p.1 = q.1 := by
  simp only [Cell.below, Prod.ext_iff, Fin.ext_iff, and_comm]

theorem Cell.right_ne (several : 1 < y) (cell : Cell x y) : cell ≠ cell.right :=
  fun stays => nextAround_ne several cell.2.isLt (Cell.right_eq.mp stays.symm).2

theorem Cell.below_ne (several : 1 < x) (cell : Cell x y) : cell ≠ cell.below :=
  fun stays => nextAround_ne several cell.1.isLt (Cell.below_eq.mp stays.symm).2

theorem CyclicallyAdjacent.right (cell : Cell x y) : CyclicallyAdjacent cell cell.right :=
  .inl ⟨rfl, .inl rfl⟩

theorem CyclicallyAdjacent.below (cell : Cell x y) : CyclicallyAdjacent cell cell.below :=
  .inr ⟨rfl, .inl rfl⟩

theorem gridTargets_cells (cell : Cell x y) : gridTargets x y cell.1 cell.2 =
    (if 1 < y then [cell.right.node] else []) ++ if 1 < x then [cell.below.node] else [] := rfl

theorem gridLinks_between {link : Nat × Nat} (member : link ∈ (generateGridTopology x y).edges) :
    ∃ p q : Cell x y, link = (p.node, q.node) ∧ p ≠ q ∧ CyclicallyAdjacent p q := by
  rw [gridLinks_cells, List.mem_flatMap] at member
  have ⟨cell, _, found⟩ := member
  have ⟨target, listed, same⟩ := List.mem_map.mp found
  rw [gridTargets_cells, List.mem_append] at listed
  rcases listed with toRight | toBelow
  · have ⟨several, here⟩ : 1 < y ∧ target = cell.right.node := by
      split at toRight <;> simp_all
    exact ⟨cell, cell.right, by rw [← same, here], cell.right_ne several, .right cell⟩
  · have ⟨several, here⟩ : 1 < x ∧ target = cell.below.node := by
      split at toBelow <;> simp_all
    exact ⟨cell, cell.below, by rw [← same, here], cell.below_ne several, .below cell⟩

theorem count_gridTargets (p q : Cell x y) : (gridTargets x y p.1 p.2).count q.node =
    (if p.1 = q.1 then ringLinks y p.2 q.2 else 0) +
      if p.2 = q.2 then ringLinks x p.1 q.1 else 0 := by
  rw [gridTargets_cells, List.count_append]
  congr 1
  · by_cases several : 1 < y
    · simp only [several, if_true, List.count_singleton, beq_iff_eq, Cell.node_inj, Cell.right_eq,
        ringLinks, true_and]
      split_ifs <;> simp_all
    · simp [several, ringLinks]
  · by_cases several : 1 < x
    · simp only [several, if_true, List.count_singleton, beq_iff_eq, Cell.node_inj, Cell.below_eq,
        ringLinks, true_and]
      split_ifs <;> simp_all
    · simp [several, ringLinks]

theorem count_gridLinks (p q : Cell x y) :
    (generateGridTopology x y).edges.count (p.node, q.node) =
      (if p.1 = q.1 then ringLinks y p.2 q.2 else 0) +
        if p.2 = q.2 then ringLinks x p.1 q.1 else 0 := by
  rw [gridLinks_cells, ← count_gridTargets]
  exact Multigraph.count_listed (fun cell : Cell x y => gridTargets x y cell.1 cell.2)
    gridNodes_distinct (mem_gridCells p) q.node

theorem count_adjacentCells {p q : Cell x y} (different : p ≠ q)
    (adjacent : CyclicallyAdjacent p q) :
    (Multigraph.unordered (generateGridTopology x y).edges).count s(p.node, q.node) =
      if p.1 = q.1 then if y = 2 then 2 else 1 else if x = 2 then 2 else 1 := by
  rw [Multigraph.count_unordered _ (mt Cell.node_inj.mp different), count_gridLinks,
    count_gridLinks]
  rcases adjacent with ⟨row, around⟩ | ⟨column, around⟩
  · have apart : p.2 ≠ q.2 := fun column => different (Prod.ext row column)
    have both := ringLinks_both p.2.isLt q.2.isLt (mt Fin.ext apart) around
    simp only [row, apart, apart.symm, if_true, if_false, Nat.add_zero, both]
  · have apart : p.1 ≠ q.1 := fun row => different (Prod.ext row column)
    have both := ringLinks_both p.1.isLt q.1.isLt (mt Fin.ext apart) around
    simp only [column, apart, apart.symm, if_true, if_false, Nat.zero_add, both]

/-- Every grid but those with a side of two. -/
theorem generateGridTopology_cyclic_iff (rows : 1 ≤ x) (columns : 1 ≤ y) :
    CyclicGrid x y (generateGridTopology x y).edges ↔ x ≠ 2 ∧ y ≠ 2 := by
  constructor
  next =>
    intro grid
    constructor
    next =>
      rintro rfl
      let p : Cell 2 y := (0, ⟨0, columns⟩)
      have different := p.below_ne (by decide)
      have once := grid.joined p p.below different (.below p)
      have rowsDiffer : p.1 ≠ p.below.1 := fun same => different (Prod.ext same rfl)
      rw [count_adjacentCells different (.below p), if_neg rowsDiffer] at once
      cases once
    next =>
      rintro rfl
      let p : Cell x 2 := (⟨0, rows⟩, 0)
      have different := p.right_ne (by decide)
      have once := grid.joined p p.right different (.right p)
      have sameRow : p.1 = p.right.1 := rfl
      rw [count_adjacentCells different (.right p), if_pos sameRow] at once
      cases once
  next =>
    intro ⟨notTwoRows, notTwoColumns⟩
    have joined (p q : Cell x y) (different : p ≠ q) (adjacent : CyclicallyAdjacent p q) :
        (Multigraph.unordered (generateGridTopology x y).edges).count s(p.node, q.node) = 1 := by
      rw [count_adjacentCells different adjacent, if_neg notTwoRows, if_neg notTwoColumns, ite_self]
    constructor
    case adjacent =>
      intro link member
      have ⟨p, q, same, _, adjacent⟩ := gridLinks_between member
      exact ⟨p, q, same, adjacent⟩
    case loopFree =>
      intro link member
      have ⟨p, q, same, different, _⟩ := gridLinks_between member
      rw [same]
      exact mt Cell.node_inj.mp different
    case distinct =>
      rw [List.nodup_iff_count_eq_one]
      intro pair listed
      have ⟨link, member, here⟩ := List.mem_map.mp listed
      have ⟨p, q, same, different, adjacent⟩ := gridLinks_between member
      rw [← here, same]
      exact joined p q different adjacent
    case joined => exact joined

theorem generateGridTopology_cyclic_iff_sample :
    CyclicGrid 3 4 (generateGridTopology 3 4).edges ↔ 3 ≠ 2 ∧ 4 ≠ 2 :=
  generateGridTopology_cyclic_iff (by decide) (by decide)

-- The only two nodes are linked in both directions.
theorem pair_grid_doubled : (generateGridTopology 2 1).edges = [(1, 2), (2, 1)] ∧
    ¬ CyclicGrid 2 1 (generateGridTopology 2 1).edges := by
  refine ⟨by decide, fun grid => ?_⟩
  exact absurd grid.distinct (by decide)

end Grid

end SplitNN.Coordinator
