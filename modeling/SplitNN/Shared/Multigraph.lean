import Mathlib.Algebra.BigOperators.Group.Finset.Sigma
import Mathlib.Algebra.BigOperators.Ring.Finset
import Mathlib.Data.Finset.Card
import Mathlib.Data.List.Nodup
import Mathlib.Data.Sym.Sym2
import SplitNN.Shared.LoopNest

set_option autoImplicit false

universe u v

-- Finite undirected multigraphs given by neighbour lists, and what one visit of each edge from
-- one of its two ends collects.
namespace Multigraph

variable {V : Type u}

/-- Every neighbour is a vertex, and both ends list an edge equally often. -/
structure Undirected [DecidableEq V] (adj : V → List V) (vertices : List V) : Prop where
  distinct : vertices.Nodup
  closed : ∀ u ∈ vertices, ∀ v ∈ adj u, v ∈ vertices
  symmetric : ∀ u ∈ vertices, ∀ v ∈ vertices, (adj u).count v = (adj v).count u

def LoopFree (adj : V → List V) (vertices : List V) : Prop :=
  ∀ u ∈ vertices, u ∉ adj u

def Orients (gives : V → V → Bool) (vertices : List V) : Prop :=
  ∀ u ∈ vertices, ∀ v ∈ vertices, u ≠ v → gives v u = !gives u v

/-- The edges, each listed by the end that the orientation picks. -/
def oriented (gives : V → V → Bool) (adj : V → List V) (vertices : List V) : List (V × V) :=
  vertices.flatMap fun u => ((adj u).filter (gives u)).map fun v => (u, v)

def unordered (edges : List (V × V)) : List (Sym2 V) :=
  edges.map fun edge => s(edge.1, edge.2)

theorem mem_oriented {gives : V → V → Bool} {adj : V → List V} {vertices : List V} {u v : V} :
    (u, v) ∈ oriented gives adj vertices ↔ u ∈ vertices ∧ v ∈ adj u ∧ gives u v = true := by
  simp only [oriented, List.mem_flatMap, List.mem_map, List.mem_filter, Prod.mk.injEq]
  constructor
  · intro given
    rcases given with ⟨x, member, y, ⟨listed, given⟩, rfl, rfl⟩
    exact ⟨member, listed, given⟩
  · intro given
    rcases given with ⟨member, listed, given⟩
    exact ⟨u, member, v, ⟨listed, given⟩, rfl, rfl⟩

theorem length_oriented (gives : V → V → Bool) (adj : V → List V) (vertices : List V) :
    (oriented gives adj vertices).length =
      (vertices.map fun u => (adj u).countP (gives u)).sum := by
  simp [oriented, List.length_flatMap, List.countP_eq_length_filter]

variable [DecidableEq V]

theorem count_unordered (edges : List (V × V)) {u v : V} (different : u ≠ v) :
    (unordered edges).count s(u, v) = edges.count (u, v) + edges.count (v, u) := by
  induction edges with
  | nil => simp [unordered]
  | cons edge rest ih =>
    obtain ⟨x, y⟩ := edge
    simp only [unordered, List.map_cons, List.count_cons] at ih ⊢
    rw [ih]
    have test : ((s(x, y) == s(u, v)) = true) ↔
        (((x, y) == (u, v)) = true ∨ ((x, y) == (v, u)) = true) := by
      simp
    have exclusive : ¬ (((x, y) == (u, v)) = true ∧ ((x, y) == (v, u)) = true) := by
      simp only [beq_iff_eq, Prod.mk.injEq]
      intro given
      rcases given with ⟨⟨rfl, rfl⟩, same, -⟩
      exact different same
    split_ifs <;> first | omega | simp_all

theorem count_unordered_self (edges : List (V × V)) (u : V) :
    (unordered edges).count s(u, u) = edges.count (u, u) := by
  induction edges with
  | nil => simp [unordered]
  | cons edge rest ih =>
    obtain ⟨x, y⟩ := edge
    simp only [unordered, List.map_cons, List.count_cons] at ih ⊢
    simp [ih]

theorem count_visit (gives : V → Bool) (neighbours : List V) (w u v : V) :
    ((neighbours.filter gives).map fun x => (w, x)).count (u, v) =
      if u = w ∧ gives v = true then neighbours.count v else 0 := by
  induction neighbours with
  | nil => simp
  | cons x rest ih =>
    by_cases same : x = v
    · subst same
      by_cases given : gives x = true <;> by_cases here : u = w <;>
        simp_all [eq_comm (a := w)]
    · by_cases given : gives x = true <;> simp [given, same, ih]

theorem count_listed {α : Type v} {name : α → V} (targets : α → List V) {places : List α}
    (distinct : (places.map name).Nodup) {a : α} (member : a ∈ places) (x : V) :
    (places.flatMap fun b => (targets b).map fun w => (name b, w)).count (name a, x) =
      (targets a).count x := by
  have only (b : α) (other : b ∈ places)
      (found : (name a, x) ∈ (targets b).map fun w => (name b, w)) : b = a := by
    have ⟨w, _, same⟩ := List.mem_map.mp found
    exact List.inj_on_of_nodup_map distinct other member (congrArg Prod.fst same)
  rw [LoopNest.count_flatMap_only distinct.of_map member only]
  exact List.count_map_of_injective _ _ (Prod.mk_right_injective (name a)) x

theorem count_oriented (gives : V → V → Bool) (adj : V → List V) {vertices : List V}
    (distinct : vertices.Nodup) (u v : V) :
    (oriented gives adj vertices).count (u, v) =
      if u ∈ vertices ∧ gives u v = true then (adj u).count v else 0 := by
  induction vertices with
  | nil => simp [oriented]
  | cons w rest ih =>
    obtain ⟨absent, later⟩ := List.nodup_cons.mp distinct
    have split : oriented gives adj (w :: rest) =
        (((adj w).filter (gives w)).map fun x => (w, x)) ++ oriented gives adj rest := rfl
    rw [split, List.count_append, count_visit, ih later]
    by_cases here : u = w
    · subst here
      simp [absent]
    · simp [here]

theorem count_unordered_oriented {gives : V → V → Bool} {adj : V → List V} {vertices : List V}
    (graph : Undirected adj vertices) (orients : Orients gives vertices) {u v : V}
    (different : u ≠ v) :
    (unordered (oriented gives adj vertices)).count s(u, v) =
      if u ∈ vertices then (adj u).count v else 0 := by
  rw [count_unordered _ different, count_oriented _ _ graph.distinct,
    count_oriented _ _ graph.distinct]
  by_cases left : u ∈ vertices <;> by_cases right : v ∈ vertices
  · have flip := orients u left v right different
    have same := graph.symmetric u left v right
    cases given : gives u v <;> simp_all
  · have missing : (adj u).count v = 0 :=
      List.count_eq_zero.mpr fun listed => right (graph.closed u left v listed)
    simp [left, right, missing]
  · have missing : (adj v).count u = 0 :=
      List.count_eq_zero.mpr fun listed => left (graph.closed v right u listed)
    simp [left, right, missing]
  · simp [left, right]

theorem count_unordered_oriented_self {gives : V → V → Bool} {adj : V → List V}
    {vertices : List V} (distinct : vertices.Nodup) (loopFree : LoopFree adj vertices) (u : V) :
    (unordered (oriented gives adj vertices)).count s(u, u) = 0 := by
  rw [count_unordered_self, count_oriented _ _ distinct]
  split_ifs with given
  · exact List.count_eq_zero.mpr (loopFree u given.1)
  · rfl

theorem count_edges {gives : V → V → Bool} {adj : V → List V} {vertices : List V}
    (graph : Undirected adj vertices) (loopFree : LoopFree adj vertices)
    (orients : Orients gives vertices) (u v : V) :
    (unordered (oriented gives adj vertices)).count s(u, v) =
      if u ∈ vertices then (adj u).count v else 0 := by
  by_cases loop : u = v
  next =>
    subst loop
    rw [count_unordered_oriented_self graph.distinct loopFree]
    split
    next member => exact (List.count_eq_zero.mpr (loopFree u member)).symm
    next => rfl
  next => exact count_unordered_oriented graph orients loop

theorem Undirected.of_perm {adj : V → List V} {vertices vertices' : List V}
    (graph : Undirected adj vertices) (same : vertices.Perm vertices') :
    Undirected adj vertices' where
  distinct := same.nodup_iff.mp graph.distinct
  closed := fun u member v listed =>
    same.mem_iff.mp (graph.closed u (same.mem_iff.mpr member) v listed)
  symmetric := fun u left v right =>
    graph.symmetric u (same.mem_iff.mpr left) v (same.mem_iff.mpr right)

omit [DecidableEq V] in
theorem LoopFree.of_perm {adj : V → List V} {vertices vertices' : List V}
    (loopFree : LoopFree adj vertices) (same : vertices.Perm vertices') : LoopFree adj vertices' :=
  fun u member => loopFree u (same.mem_iff.mpr member)

theorem countP_eq_sum (p : V → Bool) (neighbours : List V) {vertices : List V}
    (closed : ∀ v ∈ neighbours, v ∈ vertices) :
    neighbours.countP p =
      ∑ v ∈ vertices.toFinset, if p v = true then neighbours.count v else 0 := by
  induction neighbours with
  | nil => simp
  | cons x rest ih =>
    have inside : x ∈ vertices.toFinset := List.mem_toFinset.mpr (closed x (by simp))
    have split : ∀ v, (if p v = true then (x :: rest).count v else 0) =
        (if p v = true then rest.count v else 0) +
          (if v = x then (if p x = true then 1 else 0) else 0) := by
      intro v
      by_cases same : v = x
      · subst same
        by_cases counted : p v = true <;> simp [counted]
      · simp [same, Ne.symm same]
    rw [List.countP_cons, ih fun v member => closed v (by simp [member])]
    simp only [split, Finset.sum_add_distrib, Finset.sum_ite_eq', inside, if_true]

/-- The handshake lemma: each edge is stored at both of its ends. -/
theorem sum_length_eq {gives : V → V → Bool} {adj : V → List V} {vertices : List V}
    (graph : Undirected adj vertices) (loopFree : LoopFree adj vertices)
    (orients : Orients gives vertices) :
    (vertices.map fun u => (adj u).length).sum = 2 * (oriented gives adj vertices).length := by
  have given (u : V) (member : u ∈ vertices) : (adj u).length =
      (∑ v ∈ vertices.toFinset, if gives u v = true then (adj u).count v else 0) +
        ∑ v ∈ vertices.toFinset, if gives v u = true then (adj v).count u else 0 := by
    rw [List.length_eq_countP_add_countP (gives u),
      countP_eq_sum _ _ (graph.closed u member),
      countP_eq_sum _ _ (graph.closed u member)]
    congr 1
    refine Finset.sum_congr rfl fun v inside => ?_
    have right := List.mem_toFinset.mp inside
    by_cases same : v = u
    · subst same
      simp [List.count_eq_zero.mpr (loopFree v right)]
    · rw [orients u member v right (Ne.symm same), graph.symmetric u member v right]
      simp
  have sums (f : V → Nat) : (vertices.map f).sum = ∑ u ∈ vertices.toFinset, f u :=
    (List.sum_toFinset f graph.distinct).symm
  rw [length_oriented, sums, sums,
    Finset.sum_congr rfl fun u inside => given u (List.mem_toFinset.mp inside),
    Finset.sum_add_distrib, two_mul]
  have kept : ∑ u ∈ vertices.toFinset, (adj u).countP (gives u) = ∑ u ∈ vertices.toFinset,
      ∑ v ∈ vertices.toFinset, if gives u v = true then (adj u).count v else 0 := by
    refine Finset.sum_congr rfl fun u inside => ?_
    exact countP_eq_sum _ _ (graph.closed u (List.mem_toFinset.mp inside))
  rw [kept]
  congr 1
  exact Finset.sum_comm

end Multigraph
