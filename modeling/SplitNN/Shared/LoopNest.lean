import Mathlib.Data.List.Nodup
import Mathlib.Algebra.BigOperators.Group.List.Basic
import Mathlib.Algebra.Group.Action.Defs

set_option autoImplicit false

universe u v

-- The lists that nested loops produce: which round an element comes from, and how often.
namespace LoopNest

variable {α : Type u} {β : Type v}

theorem flatMap_range (f : Nat → β) (rows columns : Nat) :
    ((List.range rows).flatMap fun i => (List.range columns).map fun j => f (i * columns + j)) =
      (List.range (rows * columns)).map f := by
  induction rows with
  | zero => simp
  | succ rows ih =>
    rw [List.range_succ, List.flatMap_append, ih, Nat.succ_mul, List.range_add, List.map_append,
      List.flatMap_singleton, List.map_map]
    rfl

theorem nodup_flatMap {items : List α} {round : α → List β} (distinct : items.Nodup)
    (each : ∀ item, (round item).Nodup)
    (owner : ∀ item other value, value ∈ round item → value ∈ round other → item = other) :
    (items.flatMap round).Nodup := by
  rw [List.nodup_flatMap]
  refine ⟨fun item _ => each item, distinct.pairwise_of_forall_ne ?_⟩
  intro item _ other _ different value here there
  exact different (owner item other value here there)

theorem nodup_nest {ι κ μ : Type} {items : List ι} {inner : List κ} {innermost : List μ}
    {f : ι → κ → μ → β} (distinct : items.Nodup) (distinctInner : inner.Nodup)
    (distinctInnermost : innermost.Nodup)
    (place : ∀ a b c a' b' c', f a b c = f a' b' c' → a = a' ∧ b = b' ∧ c = c') :
    (items.flatMap fun a => inner.flatMap fun b => innermost.map (f a b)).Nodup := by
  refine nodup_flatMap distinct (fun a => ?_) ?_
  · refine nodup_flatMap distinctInner (fun b => ?_) ?_
    · exact distinctInnermost.map fun c c' same => (place _ _ _ _ _ _ same).2.2
    · intro b b' value here there
      obtain ⟨c, _, rfl⟩ := List.mem_map.mp here
      obtain ⟨c', _, same⟩ := List.mem_map.mp there
      exact (place _ _ _ _ _ _ same).2.1.symm
  · intro a a' value here there
    obtain ⟨b, _, inRound⟩ := List.mem_flatMap.mp here
    obtain ⟨c, _, rfl⟩ := List.mem_map.mp inRound
    obtain ⟨b', _, inOther⟩ := List.mem_flatMap.mp there
    obtain ⟨c', _, same⟩ := List.mem_map.mp inOther
    exact (place _ _ _ _ _ _ same).1.symm

variable [BEq β] [LawfulBEq β]

theorem count_map_one {items : List α} {f : α → β} (distinct : items.Nodup)
    (injective : Function.Injective f) {item : α} (member : item ∈ items) :
    (items.map f).count (f item) = 1 :=
  List.count_eq_one_of_mem (distinct.map injective) (List.mem_map_of_mem member)

theorem count_map_apart [BEq α] [LawfulBEq α] {items : List α} {f : α → β} {item : α}
    (apart : ∀ other ∈ items, f other = f item → other = item) :
    (items.map f).count (f item) = items.count item := by
  rw [List.count, List.countP_map, List.count]
  refine List.countP_congr fun other member => ?_
  simp only [Function.comp_apply, beq_iff_eq]
  exact ⟨apart other member, fun same => by rw [same]⟩

omit [LawfulBEq β] in
theorem count_flatMap_each {items : List α} {round : α → List β} {value : β} {c : Nat}
    (each : ∀ item ∈ items, (round item).count value = c) :
    (items.flatMap round).count value = items.length * c := by
  have counts : items.map (List.count value ∘ round) = items.map fun _ => c :=
    List.map_congr_left each
  rw [List.count_flatMap, counts, List.map_const', List.sum_replicate, smul_eq_mul]

theorem count_flatMap_only {items : List α} {round : α → List β} {value : β} {item : α}
    (distinct : items.Nodup) (member : item ∈ items)
    (only : ∀ other ∈ items, value ∈ round other → other = item) :
    (items.flatMap round).count value = (round item).count value := by
  induction items with
  | nil => cases member
  | cons first rest ih =>
    obtain ⟨absent, later⟩ := List.nodup_cons.mp distinct
    rw [List.flatMap_cons, List.count_append]
    rcases List.mem_cons.mp member with rfl | inRest
    · have none : (rest.flatMap round).count value = 0 := by
        rw [List.count_eq_zero]
        intro listed
        obtain ⟨other, inRest, found⟩ := List.mem_flatMap.mp listed
        have same := only other (List.mem_cons_of_mem _ inRest) found
        exact absent (same ▸ inRest)
      rw [none, Nat.add_zero]
    · have elsewhere : (round first).count value = 0 := by
        rw [List.count_eq_zero]
        exact fun found => absent (only first List.mem_cons_self found ▸ inRest)
      rw [elsewhere, Nat.zero_add,
        ih later inRest fun other listed => only other (List.mem_cons_of_mem _ listed)]

end LoopNest
