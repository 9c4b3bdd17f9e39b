import Mathlib
import SplitNN.Shared.Dict
import SplitNN.Shared.Heap

set_option autoImplicit false

namespace SplitNN.Agent

structure Node where
  contribution : Int
  index : Int
  deriving DecidableEq

-- The queue holds pointers to nodes. Here a pointer is the node's id, and `nodes` holds what it
-- points to; the planners' `nodeMap` is the same dictionary.
structure PriorityQueue where
  queue : Array Int
  nodes : Dict Int Node
  deriving DecidableEq

namespace PriorityQueue

def len (pq : PriorityQueue) : Nat := pq.queue.size

def contribution (pq : PriorityQueue) (i : Nat) : Int :=
  (((pq.queue[i]?).bind pq.nodes.get?).map Node.contribution).getD 0

-- Max-heap: node with higher contribution comes first.
def less (pq : PriorityQueue) (i j : Nat) : Bool :=
  decide (pq.contribution i > pq.contribution j)

def setIndex (pq : PriorityQueue) (i : Nat) : PriorityQueue :=
  match pq.queue[i]? with
  | some id => { pq with nodes := pq.nodes.adjust id fun node => { node with index := i } }
  | none => pq

def swap (pq : PriorityQueue) (i j : Nat) : PriorityQueue :=
  ({ pq with queue := pq.queue.swapIfInBounds i j }.setIndex i).setIndex j

def push (pq : PriorityQueue) (id : Int) : PriorityQueue where
  queue := pq.queue.push id
  nodes := pq.nodes.adjust id fun node => { node with index := pq.len }

def pop (pq : PriorityQueue) : Option (Int × PriorityQueue) :=
  match pq.queue.back? with
  | some id =>
    some (id, ⟨pq.queue.pop, pq.nodes.adjust id fun node => { node with index := -1 }⟩)
  | none => none

def heap : Heap.Interface PriorityQueue Int := ⟨len, less, swap, push, pop⟩

-- `none` is a nil pointer or an index that the queue does not have.
def update (pq : PriorityQueue) (id : Int) (newContribution : Int) : Option PriorityQueue := do
  let node ← pq.nodes.get? id
  let pq := { pq with
    nodes := pq.nodes.adjust id fun node => { node with contribution := newContribution } }
  -- Go's `Fix` compares nothing at -1, the index of a node that has left the queue.
  if node.index = -1 then return pq
  else if 0 ≤ node.index ∧ node.index < pq.len then
    return Heap.fix heap pq node.index.toNat
  else none

def contributionOf (pq : PriorityQueue) (id : Int) : Option Int :=
  (pq.nodes.get? id).map Node.contribution

/-- Every queued node knows its place in the queue. -/
structure Indexed (pq : PriorityQueue) : Prop where
  distinct : pq.queue.toList.Nodup
  index : ∀ (i : Nat) id, pq.queue[i]? = some id →
    (pq.nodes.get? id).map Node.index = some (i : Int)

structure Rearranged (pq pq' : PriorityQueue) : Prop where
  queue : pq'.queue.toList.Perm pq.queue.toList
  keys : pq'.nodes.keys = pq.nodes.keys
  contribution : ∀ id, pq'.contributionOf id = pq.contributionOf id
  indexed : pq.Indexed → pq'.Indexed

theorem Rearranged.refl (pq : PriorityQueue) : Rearranged pq pq :=
  ⟨List.Perm.refl _, rfl, fun _ => rfl, id⟩

theorem Rearranged.trans {first middle last : PriorityQueue} (before : Rearranged first middle)
    (after : Rearranged middle last) : Rearranged first last where
  queue := after.queue.trans before.queue
  keys := after.keys.trans before.keys
  contribution := fun id => (after.contribution id).trans (before.contribution id)
  indexed := fun indexed => after.indexed (before.indexed indexed)

theorem Rearranged.len {pq pq' : PriorityQueue} (same : Rearranged pq pq') : pq'.len = pq.len := by
  simpa [PriorityQueue.len] using same.queue.length_eq

-- Sifting moves only queued nodes.
structure Sifted (pq pq' : PriorityQueue) : Prop extends Rearranged pq pq' where
  untouched : ∀ id, id ∉ pq.queue.toList → pq'.nodes.get? id = pq.nodes.get? id

theorem Sifted.refl (pq : PriorityQueue) : Sifted pq pq :=
  ⟨Rearranged.refl pq, fun _ _ => rfl⟩

theorem Sifted.trans {first middle last : PriorityQueue} (before : Sifted first middle)
    (after : Sifted middle last) : Sifted first last where
  toRearranged := before.toRearranged.trans after.toRearranged
  untouched := fun id absent =>
    (after.untouched id (mt before.queue.mem_iff.mp absent)).trans (before.untouched id absent)

@[simp] theorem setIndex_queue (pq : PriorityQueue) (i : Nat) :
    (pq.setIndex i).queue = pq.queue := by
  unfold setIndex
  split <;> rfl

@[simp] theorem setIndex_keys (pq : PriorityQueue) (i : Nat) :
    (pq.setIndex i).nodes.keys = pq.nodes.keys := by
  unfold setIndex
  split <;> simp [Dict.keys_adjust]

theorem setIndex_get? (pq : PriorityQueue) (i : Nat) (id : Int) :
    (pq.setIndex i).nodes.get? id = (pq.nodes.get? id).map fun node =>
      if pq.queue[i]? = some id then { node with index := (i : Int) } else node := by
  unfold setIndex
  split
  next other found =>
    simp only [Dict.get?_adjust, found, Option.some.injEq, eq_comm (a := id)]
  next missing => simp [missing]

theorem contributionOf_adjust (pq : PriorityQueue) (queue : Array Int) (id other index : Int) :
    contributionOf ⟨queue, pq.nodes.adjust id fun node => { node with index := index }⟩ other =
      pq.contributionOf other := by
  simp only [contributionOf, Dict.get?_adjust, Option.map_map]
  congr 1
  funext node
  simp only [Function.comp]
  split <;> rfl

@[simp] theorem setIndex_contributionOf (pq : PriorityQueue) (i : Nat) (id : Int) :
    (pq.setIndex i).contributionOf id = pq.contributionOf id := by
  unfold setIndex
  split
  next => exact contributionOf_adjust ..
  next => rfl

theorem position_unique {queue : Array Int} (distinct : queue.toList.Nodup) {i j : Nat} {id : Int}
    (first : queue[i]? = some id) (second : queue[j]? = some id) : i = j := by
  have inside : i < queue.toList.length := by
    obtain ⟨bound, -⟩ := Array.getElem?_eq_some_iff.mp first
    simpa using bound
  apply (List.getElem?_inj inside distinct).mp
  simp [first, second]

theorem Indexed.known {pq : PriorityQueue} (indexed : pq.Indexed) {id : Int}
    (queued : id ∈ pq.queue.toList) : ∃ node, pq.nodes.get? id = some node := by
  obtain ⟨i, found⟩ := List.mem_iff_getElem?.mp queued
  have index := indexed.index i id (by simpa using found)
  cases stored : pq.nodes.get? id with
  | some node => exact ⟨node, rfl⟩
  | none => simp [stored] at index

theorem swap_contributionOf (pq : PriorityQueue) (i j : Nat) (id : Int) :
    (pq.swap i j).contributionOf id = pq.contributionOf id := by
  rw [swap, setIndex_contributionOf, setIndex_contributionOf]
  rfl

theorem swap_rearranged (pq : PriorityQueue) {i j : Nat} (iInside : i < pq.queue.size)
    (jInside : j < pq.queue.size) : Rearranged pq (pq.swap i j) := by
  have swapped : pq.queue.swapIfInBounds i j = pq.queue.swap i j iInside jInside := by
    rw [Array.swapIfInBounds_def, dif_pos iInside, dif_pos jInside]
  have perm : (pq.queue.swap i j iInside jInside).toList.Perm pq.queue.toList :=
    Array.perm_iff_toList_perm.mp (Array.swap_perm iInside jInside)
  constructor
  case queue => simpa [swap, swapped] using perm
  case keys => simp [swap]
  case contribution => exact swap_contributionOf pq i j
  case indexed =>
    intro indexed
    have distinct := perm.nodup_iff.mpr indexed.distinct
    refine ⟨by simpa [swap, swapped] using distinct, ?_⟩
    intro k id found
    simp only [swap, setIndex_queue, swapped] at found
    rw [swap, setIndex_get?, setIndex_get?, setIndex_queue, swapped, Option.map_map, Option.map_map]
    have place := Array.getElem?_swap iInside jInside (k := k)
    have member : id ∈ (pq.queue.swap i j iInside jInside).toList :=
      Array.mem_toList_iff.mpr (Array.mem_of_getElem? found)
    obtain ⟨node, stored⟩ := indexed.known (perm.mem_iff.mp member)
    -- The index that is written last is that of `j`.
    by_cases atJ : (pq.queue.swap i j iInside jInside)[j]? = some id
    next =>
      obtain rfl := position_unique distinct found atJ
      simp [stored, atJ]
    next =>
      by_cases atI : (pq.queue.swap i j iInside jInside)[i]? = some id
      next =>
        obtain rfl := position_unique distinct found atI
        simp [stored, atI, atJ]
      next =>
        have away : j ≠ k ∧ i ≠ k := by
          constructor
          next =>
            intro same
            subst same
            exact atJ found
          next =>
            intro same
            subst same
            exact atI found
        rw [place, if_neg away.1, if_neg away.2] at found
        have kept := indexed.index k id found
        simpa [atJ, atI, Function.comp_def] using kept

theorem setIndex_untouched {pq : PriorityQueue} {id : Int} (absent : id ∉ pq.queue.toList)
    (i : Nat) : (pq.setIndex i).nodes.get? id = pq.nodes.get? id := by
  have elsewhere : pq.queue[i]? ≠ some id := fun found =>
    absent (Array.mem_toList_iff.mpr (Array.mem_of_getElem? found))
  simp [setIndex_get?, elsewhere]

theorem swap_sifted (pq : PriorityQueue) {i j : Nat} (iInside : i < pq.queue.size)
    (jInside : j < pq.queue.size) : Sifted pq (pq.swap i j) where
  toRearranged := swap_rearranged pq iInside jInside
  untouched := by
    intro id absent
    have perm := (swap_rearranged pq iInside jInside).queue
    have moved : id ∉ (pq.queue.swapIfInBounds i j).toList := by
      simp only [swap, setIndex_queue] at perm
      exact mt perm.mem_iff.mp absent
    rw [swap, setIndex_untouched, setIndex_untouched moved]
    rw [setIndex_queue]
    exact moved

theorem fix_sifted (pq : PriorityQueue) {i : Nat} (inside : i < pq.len) :
    Sifted pq (Heap.fix heap pq i) := by
  apply Heap.fix_rule (P := Sifted pq) inside _ (Sifted.refl pq)
  intro pq' k l same less bound
  have size : pq'.queue.size = pq.queue.size := same.len
  have right : l < pq.queue.size := bound
  exact same.trans (swap_sifted pq' (by omega) (by omega))

theorem up_sifted (pq : PriorityQueue) {j : Nat} (inside : j < pq.len) :
    Sifted pq (Heap.up heap pq j) := by
  apply Heap.up_rule (P := Sifted pq) _ (Sifted.refl pq)
  intro pq' i k same less bound
  have size : pq'.queue.size = pq.queue.size := same.len
  have right : j < pq.queue.size := inside
  exact same.trans (swap_sifted pq' (by omega) (by omega))

theorem down_sifted (pq : PriorityQueue) {i n : Nat} (bound : n ≤ pq.len) :
    Sifted pq (Heap.down heap pq i n).1 := by
  apply Heap.down_rule (P := Sifted pq) _ (Sifted.refl pq)
  intro pq' k l same less inside
  have size : pq'.queue.size = pq.queue.size := same.len
  have right : n ≤ pq.queue.size := bound
  exact same.trans (swap_sifted pq' (by omega) (by omega))

theorem push_indexed {pq : PriorityQueue} (indexed : pq.Indexed) {id : Int}
    (fresh : id ∉ pq.queue.toList) (known : id ∈ pq.nodes.keys) : (pq.push id).Indexed where
  distinct := by
    simpa [push, List.nodup_append, fresh] using ⟨indexed.distinct, fun _ member same =>
      fresh (by simpa [same] using member)⟩
  index := by
    intro i other found
    simp only [push, Array.getElem?_push] at found
    simp only [push, Dict.get?_adjust, Option.map_map]
    split at found
    next last =>
      obtain rfl := Option.some.inj found
      obtain ⟨node, stored⟩ := pq.nodes.exists_get? known
      simp [stored, last, len]
    next =>
      have different : other ≠ id := by
        intro same
        subst same
        exact fresh (Array.mem_toList_iff.mpr (Array.mem_of_getElem? found))
      simpa [different, Function.comp_def] using indexed.index i other found

theorem push_sifted (pq : PriorityQueue) (id : Int) :
    Sifted (pq.push id) (Heap.push heap pq id) := by
  apply up_sifted
  simp [heap, push, len]

theorem Indexed.declare {pq : PriorityQueue} (indexed : pq.Indexed) {id : Int}
    (fresh : id ∉ pq.queue.toList) (node : Node) :
    Indexed { pq with nodes := pq.nodes.set id node } where
  distinct := indexed.distinct
  index := by
    intro i other found
    have different : other ≠ id := by
      intro same
      subst same
      exact fresh (Array.mem_toList_iff.mpr (Array.mem_of_getElem? found))
    rw [Dict.get?_set_other _ _ different]
    exact indexed.index i other found

theorem heapPush_spec {pq : PriorityQueue} (indexed : pq.Indexed) {id : Int}
    (fresh : id ∉ pq.queue.toList) (known : id ∈ pq.nodes.keys) :
    (Heap.push heap pq id).Indexed ∧
      (Heap.push heap pq id).queue.toList.Perm (id :: pq.queue.toList) ∧
      (Heap.push heap pq id).nodes.keys = pq.nodes.keys ∧
      ∀ other, (Heap.push heap pq id).contributionOf other = pq.contributionOf other := by
  have moved := push_sifted pq id
  refine ⟨moved.indexed (push_indexed indexed fresh known), ?_, ?_, ?_⟩
  · refine moved.queue.trans ?_
    simp [push]
  · rw [moved.keys]
    exact Dict.keys_adjust _ _ _
  · intro other
    rw [moved.contribution]
    exact contributionOf_adjust ..

theorem heapPush_untouched (pq : PriorityQueue) {id other : Int}
    (absent : other ∉ pq.queue.toList) (different : other ≠ id) :
    (Heap.push heap pq id).nodes.get? other = pq.nodes.get? other := by
  have outside : other ∉ (pq.push id).queue.toList := by simp [push, absent, different]
  rw [(push_sifted pq id).untouched other outside, push, Dict.get?_adjust]
  simp [different]

theorem pop_spec {pq : PriorityQueue} (indexed : pq.Indexed) (nonempty : 0 < pq.len) :
    ∃ id pq', pq.pop = some (id, pq') ∧ pq'.Indexed ∧
      pq.queue.toList.Perm (id :: pq'.queue.toList) ∧ pq'.nodes.keys = pq.nodes.keys ∧
      ∀ other, pq'.contributionOf other = pq.contributionOf other := by
  obtain ⟨front, id, whole⟩ := Array.exists_push_of_size_pos nonempty
  have distinct : (front.toList ++ [id]).Nodup := by simpa [whole] using indexed.distinct
  have absent : id ∉ front.toList := by
    intro member
    exact List.disjoint_of_nodup_append distinct member (by simp)
  refine ⟨id, ⟨pq.queue.pop, pq.nodes.adjust id fun node => { node with index := -1 }⟩,
    by simp [pop, whole], ⟨?_, ?_⟩, ?_, ?_, ?_⟩
  · simpa [whole] using distinct.of_append_left
  · intro i other found
    simp only [whole, Array.pop_push] at found
    have different : other ≠ id := by
      intro same
      subst same
      exact absent (Array.mem_toList_iff.mpr (Array.mem_of_getElem? found))
    have bound : i < front.size := (Array.getElem?_eq_some_iff.mp found).1
    have kept := indexed.index i other (by
      rw [whole, Array.getElem?_push, if_neg (Nat.ne_of_lt bound), found])
    simpa [Dict.get?_adjust, different, Function.comp_def] using kept
  · simp [whole]
  · exact Dict.keys_adjust _ _ _
  · exact fun other => contributionOf_adjust ..

theorem pop_nodes {pq pq' : PriorityQueue} {id : Int} (popped : pq.pop = some (id, pq')) :
    pq'.nodes = pq.nodes.adjust id fun node => { node with index := -1 } := by
  unfold pop at popped
  split at popped
  next =>
    have ⟨same, result⟩ := Prod.mk.inj (Option.some.inj popped)
    rw [← result, same]
  next => cases popped

theorem pop_eq {pq pq' : PriorityQueue} {id : Int} (popped : pq.pop = some (id, pq')) :
    pq.queue.back? = some id ∧ pq'.queue = pq.queue.pop ∧
      ∀ other, pq'.contributionOf other = pq.contributionOf other := by
  unfold pop at popped
  split at popped
  next last found =>
    have ⟨same, result⟩ := Prod.mk.inj (Option.some.inj popped)
    subst same result
    exact ⟨found, rfl, fun other => contributionOf_adjust ..⟩
  next => cases popped

-- The greatest goes to the end, where `pop` takes it from.
theorem pop_sifted {pq : PriorityQueue} (nonempty : 0 < pq.len) :
    Sifted pq (Heap.down heap (pq.swap 0 (pq.len - 1)) 0 (pq.len - 1)).1 := by
  have swapped : Sifted pq (pq.swap 0 (pq.len - 1)) :=
    swap_sifted pq (by unfold len at nonempty; omega) (by unfold len at nonempty ⊢; omega)
  apply swapped.trans (down_sifted _ _)
  rw [swapped.len]
  omega

theorem heapPop_spec {pq : PriorityQueue} (indexed : pq.Indexed) (nonempty : 0 < pq.len) :
    ∃ id pq', Heap.pop heap pq = some (id, pq') ∧ pq'.Indexed ∧
      pq.queue.toList.Perm (id :: pq'.queue.toList) ∧ pq'.nodes.keys = pq.nodes.keys ∧
      ∀ other, pq'.contributionOf other = pq.contributionOf other := by
  have moved := pop_sifted nonempty
  obtain ⟨id, pq', popped, indexed', perm, keys, contributions⟩ :=
    pop_spec (moved.indexed indexed) (by rw [moved.len]; exact nonempty)
  refine ⟨id, pq', ?_, indexed', moved.queue.symm.trans perm, keys.trans moved.keys, ?_⟩
  · have present : heap.len pq ≠ 0 := Nat.ne_of_gt nonempty
    rw [Heap.pop, if_neg present]
    exact popped
  · intro other
    rw [contributions, moved.contribution]

theorem heapPop_leaves {pq pq' : PriorityQueue} (indexed : pq.Indexed) {id : Int}
    (popped : Heap.pop heap pq = some (id, pq')) :
    (pq'.nodes.get? id).map Node.index = some (-1) ∧
      ∀ other, other ∉ pq.queue.toList → pq'.nodes.get? other = pq.nodes.get? other := by
  have nonempty : 0 < pq.len := by
    rw [Heap.pop] at popped
    split at popped
    next => cases popped
    next some_node => exact Nat.pos_of_ne_zero some_node
  have ⟨top, _, found, _, perm, _⟩ := heapPop_spec indexed nonempty
  have first : top = id := congrArg Prod.fst (Option.some.inj (found.symm.trans popped))
  have queued : id ∈ pq.queue.toList := perm.mem_iff.mpr (by simp [first])
  have moved := pop_sifted nonempty
  have ⟨node, stored⟩ := (moved.indexed indexed).known (moved.queue.mem_iff.mpr queued)
  have taken : (Heap.down heap (pq.swap 0 (pq.len - 1)) 0 (pq.len - 1)).1.pop =
      some (id, pq') := by
    rw [Heap.pop, if_neg (show heap.len pq ≠ 0 from nonempty.ne')] at popped
    exact popped
  rw [pop_nodes taken]
  constructor
  next => simp [Dict.get?_adjust, stored]
  next =>
    intro other absent
    have different : other ≠ id := fun same => absent (same ▸ queued)
    rw [← moved.untouched other absent]
    simp [Dict.get?_adjust, different]

def setContribution (pq : PriorityQueue) (id newContribution : Int) : PriorityQueue :=
  { pq with
    nodes := pq.nodes.adjust id fun node => { node with contribution := newContribution } }

theorem update_fix {pq : PriorityQueue} (indexed : pq.Indexed) {id : Int}
    (queued : id ∈ pq.queue.toList) (newContribution : Int) : ∃ i, pq.queue[i]? = some id ∧
      pq.update id newContribution =
        some (Heap.fix heap (pq.setContribution id newContribution) i) := by
  obtain ⟨node, stored⟩ := indexed.known queued
  obtain ⟨i, place⟩ := List.mem_iff_getElem?.mp queued
  have found : pq.queue[i]? = some id := by simpa using place
  have inside : i < pq.queue.size := (Array.getElem?_eq_some_iff.mp found).1
  have index : node.index = i := by simpa [stored] using indexed.index i id found
  have queuedIndex : ¬ node.index = -1 := by omega
  have bound : 0 ≤ node.index ∧ node.index < (pq.setContribution id newContribution).len := by
    change 0 ≤ node.index ∧ node.index < pq.queue.size
    omega
  refine ⟨i, found, ?_⟩
  simp only [update, stored, Option.bind_eq_bind, Option.bind_some, queuedIndex, if_false]
  change (if 0 ≤ node.index ∧ node.index < (pq.setContribution id newContribution).len then
    some (Heap.fix heap (pq.setContribution id newContribution) node.index.toNat) else none) = _
  rw [if_pos bound, index, Int.toNat_natCast]

theorem setContribution_contributionOf {pq : PriorityQueue} {id : Int} {node : Node}
    (stored : pq.nodes.get? id = some node) (newContribution other : Int) :
    (pq.setContribution id newContribution).contributionOf other =
      if other = id then some newContribution else pq.contributionOf other := by
  rw [contributionOf, setContribution, Dict.get?_adjust, Option.map_map]
  by_cases same : other = id
  next =>
    subst same
    simp [stored]
  next => simp [same, contributionOf, Function.comp_def]

theorem setContribution_indexed {pq : PriorityQueue} (indexed : pq.Indexed)
    (id newContribution : Int) : (pq.setContribution id newContribution).Indexed where
  distinct := indexed.distinct
  index := by
    intro k other found
    rw [← indexed.index k other found, setContribution, Dict.get?_adjust, Option.map_map]
    congr 1
    funext node
    simp only [Function.comp]
    split <;> rfl

theorem update_spec {pq : PriorityQueue} (indexed : pq.Indexed) {id : Int}
    (queued : id ∈ pq.queue.toList) (newContribution : Int) :
    ∃ pq', pq.update id newContribution = some pq' ∧ pq'.Indexed ∧
      pq'.queue.toList.Perm pq.queue.toList ∧ pq'.nodes.keys = pq.nodes.keys ∧
      ∀ other, pq'.contributionOf other =
        if other = id then some newContribution else pq.contributionOf other := by
  obtain ⟨node, stored⟩ := indexed.known queued
  obtain ⟨i, found, updated⟩ := update_fix indexed queued newContribution
  have inside : i < (pq.setContribution id newContribution).len :=
    (Array.getElem?_eq_some_iff.mp found).1
  have moved := fix_sifted (pq.setContribution id newContribution) inside
  refine ⟨_, updated, moved.indexed (setContribution_indexed indexed id newContribution),
    moved.queue, moved.keys.trans (Dict.keys_adjust _ _ _), ?_⟩
  intro other
  rw [moved.contribution, setContribution_contributionOf stored]

theorem update_untouched {pq pq' : PriorityQueue} (indexed : pq.Indexed) {id : Int}
    (queued : id ∈ pq.queue.toList) {newContribution : Int}
    (updated : pq.update id newContribution = some pq') {other : Int}
    (absent : other ∉ pq.queue.toList) : pq'.nodes.get? other = pq.nodes.get? other := by
  have ⟨i, found, fixed⟩ := update_fix indexed queued newContribution
  have inside : i < (pq.setContribution id newContribution).len :=
    (Array.getElem?_eq_some_iff.mp found).1
  have different : other ≠ id := fun same => absent (same ▸ queued)
  obtain rfl := Option.some.inj (updated.symm.trans fixed)
  rw [(fix_sifted _ inside).untouched other absent, setContribution, Dict.get?_adjust]
  simp [different]

end PriorityQueue

end SplitNN.Agent
