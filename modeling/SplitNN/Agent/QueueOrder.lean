import Mathlib
import SplitNN.Shared.HeapOrder
import SplitNN.Agent.PriorityQueue

set_option autoImplicit false

namespace SplitNN.Agent

open Heap (parent OrderedAround Keyed)

namespace PriorityQueue

-- `Less` puts the higher contribution first.
def key (pq : PriorityQueue) (i : Nat) : Intᵒᵈ := OrderDual.toDual (pq.contribution i)

def Ordered (pq : PriorityQueue) : Prop := Heap.Ordered pq.key pq.len

theorem contribution_eq (pq : PriorityQueue) (i : Nat) :
    pq.contribution i = ((pq.queue[i]?).bind pq.contributionOf).getD 0 := by
  unfold contribution contributionOf
  cases pq.queue[i]? <;> rfl

theorem contribution_of_queued {pq : PriorityQueue} {i : Nat} {id value : Int}
    (found : pq.queue[i]? = some id) (contribution : pq.contributionOf id = some value) :
    pq.contribution i = value := by
  simp [contribution_eq, found, contribution]

theorem swap_queue (pq : PriorityQueue) {i j : Nat} (first : i < pq.queue.size)
    (second : j < pq.queue.size) (k : Nat) :
    (pq.swap i j).queue[k]? = pq.queue[Equiv.swap i j k]? := by
  have swapped : (pq.swap i j).queue = pq.queue.swap i j first second := by
    simp only [swap, setIndex_queue]
    rw [Array.swapIfInBounds_def, dif_pos first, dif_pos second]
  rw [swapped, Array.getElem?_swap, Equiv.swap_apply_def]
  by_cases atI : k = i
  next =>
    subst atI
    by_cases same : j = k
    next =>
      subst same
      simp [Array.getElem?_eq_getElem second]
    next => simp [same, Array.getElem?_eq_getElem second]
  next =>
    by_cases atJ : k = j
    next =>
      subst atJ
      simp [atI, Array.getElem?_eq_getElem first]
    next => simp [atI, atJ, Ne.symm atI, Ne.symm atJ]

theorem keyed : Keyed heap key where
  less pq i j := by
    show decide (pq.contribution i > pq.contribution j) = true ↔ _
    rw [decide_eq_true_eq]
    exact Iff.rfl
  len_swap pq i j _ _ := by
    show (pq.swap i j).queue.size = pq.queue.size
    simp [swap]
  key_swap pq i j k first second := by
    show OrderDual.toDual ((pq.swap i j).contribution k) = OrderDual.toDual (pq.contribution _)
    rw [contribution_eq, contribution_eq, swap_queue pq first second,
      funext (swap_contributionOf pq i j)]

theorem key_congr {pq pq' : PriorityQueue} {k : Nat} (queue : pq'.queue[k]? = pq.queue[k]?)
    (contribution : ∀ id, pq.queue[k]? = some id →
      pq'.contributionOf id = pq.contributionOf id) : pq'.key k = pq.key k := by
  unfold key
  rw [contribution_eq, contribution_eq, queue]
  cases found : pq.queue[k]? with
  | none => rfl
  | some id => rw [Option.bind_some, Option.bind_some, contribution id found]

theorem Ordered.congr {pq pq' : PriorityQueue} (ordered : pq.Ordered)
    (queue : pq'.queue = pq.queue)
    (contribution : ∀ id ∈ pq.queue.toList, pq'.contributionOf id = pq.contributionOf id) :
    pq'.Ordered := by
  have same : pq'.key = pq.key := by
    funext k
    refine key_congr (by rw [queue]) fun id found => contribution id ?_
    exact Array.mem_toList_iff.mpr (Array.mem_of_getElem? found)
  have len : pq'.len = pq.len := by rw [PriorityQueue.len, queue]; rfl
  unfold Ordered
  rw [same, len]
  exact ordered

theorem update_ordered {pq pq' : PriorityQueue} (ordered : pq.Ordered) (indexed : pq.Indexed)
    {id : Int} (queued : id ∈ pq.queue.toList) {newContribution : Int}
    (updated : pq.update id newContribution = some pq') : pq'.Ordered := by
  have ⟨node, stored⟩ := indexed.known queued
  have ⟨i, found, fixed⟩ := update_fix indexed queued newContribution
  have inside : i < pq.len := (Array.getElem?_eq_some_iff.mp found).1
  have around : OrderedAround (pq.setContribution id newContribution).key pq.len i := by
    refine (Heap.Ordered.around ordered inside).congr fun k _ different => ?_
    refine key_congr rfl fun other at_k => ?_
    have apart : other ≠ id := by
      rintro rfl
      exact different (position_unique indexed.distinct at_k found)
    rw [setContribution_contributionOf stored, if_neg apart]
  have settled : Ordered (Heap.fix heap (pq.setContribution id newContribution) i) := by
    have len := keyed.len_fix (s := pq.setContribution id newContribution) inside
    have sifted := keyed.fix_ordered (s := pq.setContribution id newContribution) inside around
    rw [← len] at sifted
    exact sifted
  have result : pq' = Heap.fix heap (pq.setContribution id newContribution) i :=
    Option.some.inj (updated.symm.trans fixed)
  rw [result]
  exact settled

theorem Ordered.declare {pq : PriorityQueue} (ordered : pq.Ordered) {id : Int}
    (fresh : id ∉ pq.queue.toList) (node : Node) :
    Ordered { pq with nodes := pq.nodes.set id node } := by
  refine ordered.congr rfl fun other member => ?_
  have different : other ≠ id := fun same => fresh (same ▸ member)
  rw [contributionOf, Dict.get?_set_other _ _ different]
  rfl

theorem heapPush_ordered {pq : PriorityQueue} (ordered : pq.Ordered) {id : Int}
    (fresh : id ∉ pq.queue.toList) : (Heap.push heap pq id).Ordered := by
  have len : (pq.push id).len = pq.len + 1 := by simp [push, PriorityQueue.len]
  have inside : (pq.push id).len - 1 < (pq.push id).len := by omega
  have old : ∀ k < pq.len, (pq.push id).key k = pq.key k := by
    intro k bound
    refine key_congr ?_ fun other found => ?_
    next =>
      have apart : k ≠ pq.queue.size := Nat.ne_of_lt bound
      simp [push, Array.getElem?_push, apart]
    next =>
      have different : other ≠ id := by
        rintro rfl
        exact fresh (Array.mem_toList_iff.mpr (Array.mem_of_getElem? found))
      simp [contributionOf, push, Dict.get?_adjust, different]
  have around : OrderedAround (pq.push id).key (pq.push id).len ((pq.push id).len - 1) := by
    constructor
    next =>
      intro k bound positive different _
      have lower := Heap.parent_pos positive
      rw [old k (by omega), old (parent k) (by omega)]
      exact ordered k (by omega) positive
    next =>
      intro k bound positive child _
      have lower := Heap.parent_pos positive
      omega
  have last : ∀ k < (pq.push id).len, 0 < k → parent k = (pq.push id).len - 1 →
      (pq.push id).key ((pq.push id).len - 1) ≤ (pq.push id).key k := by
    intro k bound positive child
    have lower := Heap.parent_pos positive
    omega
  have sifted := keyed.up_ordered (s := pq.push id) inside around last
  rw [← keyed.len_up (pq.push id) inside] at sifted
  exact sifted

theorem down_beyond (pq : PriorityQueue) {i n k : Nat} (bound : n ≤ pq.len) (beyond : n ≤ k) :
    (Heap.down heap pq i n).1.queue[k]? = pq.queue[k]? := by
  have kept : (Heap.down heap pq i n).1.len = pq.len ∧
      (Heap.down heap pq i n).1.queue[k]? = pq.queue[k]? := by
    apply Heap.down_rule (P := fun s : PriorityQueue => s.len = pq.len ∧
      s.queue[k]? = pq.queue[k]?) _ ⟨rfl, rfl⟩
    intro s i j ⟨len, same⟩ less inside
    have size : s.queue.size = pq.len := len
    have first : i < s.queue.size := by omega
    have second : j < s.queue.size := by omega
    refine ⟨(keyed.len_swap s i j first second).trans len, ?_⟩
    show (s.swap i j).queue[k]? = _
    rw [swap_queue s first second, Equiv.swap_apply_of_ne_of_ne (by omega) (by omega), same]
  exact kept.2

theorem heapPop_ordered {pq pq' : PriorityQueue} (ordered : pq.Ordered) {id : Int}
    (popped : Heap.pop heap pq = some (id, pq')) : pq'.Ordered ∧ pq.queue[0]? = some id := by
  rw [Heap.pop] at popped
  split at popped
  next => cases popped
  next nonempty =>
    obtain ⟨n, size⟩ : ∃ n, pq.queue.size = n + 1 := Nat.exists_eq_succ_of_ne_zero nonempty
    have whole : heap.len pq - 1 = n := by
      show pq.queue.size - 1 = n
      omega
    rw [whole] at popped
    have first : 0 < pq.queue.size := by omega
    have last : n < pq.queue.size := by omega
    have swapped : (pq.swap 0 n).len = n + 1 := (keyed.len_swap pq 0 n first last).trans size
    have settled : (Heap.down heap (pq.swap 0 n) 0 n).1.queue.size = n + 1 :=
      (keyed.len_down (pq.swap 0 n) (show n ≤ (pq.swap 0 n).len by omega)).trans swapped
    have taken : (Heap.down heap (pq.swap 0 n) 0 n).1.pop = some (id, pq') := popped
    obtain ⟨back, rest, contributions⟩ := pop_eq taken
    constructor
    next =>
      have around : OrderedAround (pq.swap 0 n).key n 0 := by
        refine ⟨fun k bound positive _ apart => ?_, fun k _ _ _ high => absurd high (by omega)⟩
        have lower := Heap.parent_pos positive
        have kept (l : Nat) (inner : 0 < l ∧ l < n) : (pq.swap 0 n).key l = pq.key l :=
          keyed.swap_other first last (by omega) (by omega)
        rw [kept k ⟨positive, bound⟩, kept (parent k) ⟨by omega, by omega⟩]
        exact ordered k (by show k < pq.queue.size; omega) positive
      have sifted := (keyed.down_ordered (show n ≤ (pq.swap 0 n).len by omega) around).2
        (.inr fun high => absurd high (by omega))
      have size' : pq'.len = n := by rw [PriorityQueue.len, rest, Array.size_pop, settled]; rfl
      have same : ∀ k < n, pq'.key k = (Heap.down heap (pq.swap 0 n) 0 n).1.key k := by
        intro k bound
        refine key_congr ?_ fun other _ => contributions other
        rw [rest, Array.getElem?_pop, if_pos (by omega)]
      intro k bound positive
      have lower := Heap.parent_pos positive
      rw [same k (by omega), same (parent k) (by omega)]
      exact sifted k (by omega) positive
    next =>
      have bottom : (Heap.down heap (pq.swap 0 n) 0 n).1.queue.back? = pq.queue[0]? := by
        rw [Array.back?_eq_getElem?, settled, Nat.add_sub_cancel,
          down_beyond _ (by omega) (le_refl n), swap_queue pq first last, Equiv.swap_apply_right]
      exact bottom.symm.trans back

theorem Ordered.first {pq : PriorityQueue} (ordered : pq.Ordered) {top id value best : Int}
    (first : pq.queue[0]? = some top) (queued : id ∈ pq.queue.toList)
    (worth : pq.contributionOf id = some value) (most : pq.contributionOf top = some best) :
    value ≤ best := by
  have ⟨i, place⟩ := List.mem_iff_getElem?.mp queued
  have found : pq.queue[i]? = some id := by simpa using place
  have inside : i < pq.len := (Array.getElem?_eq_some_iff.mp found).1
  have below : pq.key 0 ≤ pq.key i := Heap.Ordered.first ordered inside
  rw [← contribution_of_queued found worth, ← contribution_of_queued first most]
  exact below

end PriorityQueue

end SplitNN.Agent
