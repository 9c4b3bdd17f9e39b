import Mathlib.Order.Basic
import Mathlib.Data.List.Basic
import Mathlib.Data.List.Nodup
import Mathlib.Logic.Relation

set_option autoImplicit false

universe u v

-- Orders in which each element was worth at least what any element left then was worth.
namespace Selection

variable {α : Type u} {κ : Type v} [LE κ]

/-- `pool` is what the selection has left; a worth may depend on what is selected before. -/
def Greedy (worth : List α → α → κ) (pool order : List α) : Prop :=
  ∀ (i : Nat) v, order[i]? = some v →
    ∀ u ∈ order.drop i ++ pool, worth (order.take i) u ≤ worth (order.take i) v

theorem Greedy.nil (worth : List α → α → κ) (pool : List α) : Greedy worth pool [] := by
  intro i v found
  cases found

theorem Greedy.snoc {worth : List α → α → κ} {pool pool' order : List α}
    (greedy : Greedy worth pool order) {v : α} (taken : pool.Perm (v :: pool'))
    (most : ∀ u ∈ pool, worth order u ≤ worth order v) : Greedy worth pool' (order ++ [v]) := by
  intro i w found u remaining
  by_cases earlier : i < order.length
  next =>
    rw [List.getElem?_append_left earlier] at found
    rw [List.drop_append_of_le_length (by omega)] at remaining
    rw [List.take_append_of_le_length (by omega)]
    refine greedy i w found u ?_
    rw [List.append_assoc] at remaining
    cases List.mem_append.mp remaining with
    | inl later => exact List.mem_append_left pool later
    | inr left => exact List.mem_append_right _ (taken.mem_iff.mpr left)
  next =>
    have inside := (List.getElem?_eq_some_iff.mp found).1
    have last : i = order.length := by simp at inside; omega
    subst last
    have here : w = v := by simpa using found.symm
    rw [List.drop_left] at remaining
    rw [List.take_left, here]
    exact most u (taken.mem_iff.mpr remaining)

theorem Greedy.chosen {worth : List α → α → κ} {pool order : List α}
    (greedy : Greedy worth pool order) {i : Nat} {u v : α} (found : order[i]? = some v)
    (later : u ∈ order.drop i) : worth (order.take i) u ≤ worth (order.take i) v :=
  greedy i v found u (List.mem_append_left pool later)

end Selection

namespace Selection

open Relation (ReflTransGen)

variable {α : Type u} {κ : Type v} {R : α → α → Prop}

theorem exists_crossing {S : α → Prop} {s t : α} (path : ReflTransGen R s t) (inside : S s)
    (outside : ¬ S t) : ∃ u v, S u ∧ R u v ∧ ¬ S v := by
  induction path with
  | refl => exact absurd inside outside
  | tail _ step ih =>
    rename_i u v _
    by_cases before : S u
    next => exact ⟨u, v, before, step, outside⟩
    next => exact ih before

section Growth

-- An element is worth something when one that is selected leads to it.
variable [Preorder κ] [Zero κ] {worth : List α → α → κ} {order : List α} {s : α}

theorem Greedy.linked (greedy : Greedy worth [] order)
    (positive : ∀ selected v, 0 < worth selected v ↔ ∃ u ∈ selected, R u v)
    (closed : ∀ u ∈ order, ∀ v, R u v → v ∈ order) (head : order.head? = some s)
    (distinct : order.Nodup) {i : Nat} {c w : α} (later : 0 < i) (left : c ∈ order.drop i)
    (reached : ReflTransGen R s c) (found : order[i]? = some w) : ∃ u ∈ order.take i, R u w := by
  have split : (order.take i ++ order.drop i).Nodup := by simpa using distinct
  have start : s ∈ order.take i := by
    cases order with
    | nil => cases head
    | cons first rest =>
      have ⟨j, same⟩ := Nat.exists_eq_succ_of_ne_zero (Nat.ne_of_gt later)
      simp [same, Option.some.inj head]
  have outside : c ∉ order.take i := fun before => List.disjoint_of_nodup_append split before left
  have ⟨u, v, before, step, after⟩ :=
    exists_crossing (S := (· ∈ order.take i)) reached start outside
  have inside : v ∈ order.drop i := by
    have member := closed u (List.mem_of_mem_take before) v step
    rw [← List.take_append_drop i order] at member
    exact (List.mem_append.mp member).resolve_left after
  have worthy := (positive (order.take i) v).mpr ⟨u, before, step⟩
  exact (positive (order.take i) w).mp (worthy.trans_le (greedy.chosen found inside))

theorem Greedy.reached_before (greedy : Greedy worth [] order)
    (positive : ∀ selected v, 0 < worth selected v ↔ ∃ u ∈ selected, R u v)
    (closed : ∀ u ∈ order, ∀ v, R u v → v ∈ order) (head : order.head? = some s)
    (distinct : order.Nodup) {i : Nat} {c : α} (left : c ∈ order.drop i)
    (reached : ReflTransGen R s c) : ∀ v ∈ order.take i, ReflTransGen R s v := by
  induction i with
  | zero => simp
  | succ i ih =>
    have inner : i < order.length := by
      have some' := List.length_pos_of_mem left
      simp at some'
      omega
    have earlier := ih (List.mem_of_mem_drop (i := 1) (by simpa using left))
    intro v member
    rw [List.take_succ_eq_append_getElem inner, List.mem_append] at member
    rcases member with before | here
    next => exact earlier v before
    next =>
      have found : order[i]? = some v := by simpa [inner, eq_comm] using here
      cases i with
      | zero =>
        rw [← List.head?_eq_getElem?, head] at found
        exact Option.some.inj found ▸ .refl
      | succ i =>
        have ⟨u, before, step⟩ := greedy.linked positive closed head distinct (Nat.succ_pos i)
          (List.mem_of_mem_drop (i := 1) (by simpa using left)) reached found
        exact (earlier u before).tail step

theorem exists_run (P : α → Prop) (order : List α) : ∃ first rest, order = first ++ rest ∧
    (∀ v ∈ first, P v) ∧ ∀ v, rest.head? = some v → ¬ P v := by
  induction order with
  | nil => exact ⟨[], [], rfl, by simp, by simp⟩
  | cons v later ih =>
    by_cases holds : P v
    next =>
      have ⟨first, rest, split, all, stop⟩ := ih
      exact ⟨v :: first, rest, by simp [split], by simpa [holds] using all, stop⟩
    next => exact ⟨[], v :: later, rfl, by simp, by simpa using holds⟩

/-- A greedy order first lists what its first element leads to, one linked element at a time. -/
theorem Greedy.grows (greedy : Greedy worth [] order)
    (positive : ∀ selected v, 0 < worth selected v ↔ ∃ u ∈ selected, R u v)
    (closed : ∀ u ∈ order, ∀ v, R u v → v ∈ order) (head : order.head? = some s)
    (distinct : order.Nodup) : ∃ first rest, order = first ++ rest ∧
      (∀ v, v ∈ first ↔ ReflTransGen R s v) ∧
      ∀ (i : Nat) v, 0 < i → first[i]? = some v → ∃ u ∈ first.take i, R u v := by
  have ⟨first, rest, split, inside, stop⟩ := exists_run (ReflTransGen R s) order
  have covered : ∀ v, ReflTransGen R s v → v ∈ order := by
    intro v path
    induction path with
    | refl => exact List.mem_of_head? head
    | tail _ step ih => exact closed _ ih _ step
  refine ⟨first, rest, split, fun v => ⟨inside v, fun path => ?_⟩, ?_⟩
  next =>
    have member := covered v path
    rw [split, List.mem_append] at member
    refine member.resolve_right fun after => ?_
    cases rest with
    | nil => cases after
    | cons x later =>
      -- Everything before a reached element is reached, and `x` is not.
      have far := stop x rfl
      have different : v ≠ x := fun same => far (same ▸ path)
      have left : v ∈ order.drop (first.length + 1) := by
        rw [split, List.drop_append, List.drop_of_length_le (by omega)]
        simpa [different] using after
      have here : x ∈ order.take (first.length + 1) := by
        rw [split, List.take_append]
        simp
      exact far (greedy.reached_before positive closed head distinct left path x here)
  next =>
    intro i v later found
    have inner := (List.getElem?_eq_some_iff.mp found).1
    have found' : order[i]? = some v := by rw [split, List.getElem?_append_left inner, found]
    have left : v ∈ order.drop i :=
      List.mem_iff_getElem?.mpr ⟨0, by rw [List.getElem?_drop]; exact found'⟩
    have linked := greedy.linked positive closed head distinct later left
      (inside v (List.mem_of_getElem? found)) found'
    rwa [split, List.take_append_of_le_length (Nat.le_of_lt inner)] at linked

end Growth

end Selection
