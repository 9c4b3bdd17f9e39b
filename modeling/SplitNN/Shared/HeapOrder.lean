import Mathlib
import SplitNN.Shared.Heap

set_option autoImplicit false

universe u v w

-- The order that `container/heap` keeps: no element comes before the one above it.
namespace Heap

variable {σ : Type u} {α : Type v} {κ : Type w} [LinearOrder κ]

def parent (k : Nat) : Nat := (k - 1) / 2

def Ordered (key : Nat → κ) (n : Nat) : Prop := ∀ k < n, 0 < k → key (parent k) ≤ key k

/-- In order but for the element at `i`, around which its neighbors are in order. -/
structure OrderedAround (key : Nat → κ) (n i : Nat) : Prop where
  others : ∀ k < n, 0 < k → k ≠ i → parent k ≠ i → key (parent k) ≤ key k
  across : ∀ k < n, 0 < k → parent k = i → 0 < i → key (parent i) ≤ key k

-- What a container must satisfy for its elements to be seen through `key`.
structure Keyed (h : Interface σ α) (key : σ → Nat → κ) : Prop where
  less : ∀ s i j, h.less s i j = true ↔ key s i < key s j
  len_swap : ∀ s i j, i < h.len s → j < h.len s → h.len (h.swap s i j) = h.len s
  key_swap : ∀ s i j k, i < h.len s → j < h.len s →
    key (h.swap s i j) k = key s (Equiv.swap i j k)

theorem parent_pos {k : Nat} (positive : 0 < k) : parent k < k := by
  unfold parent
  omega

section Order

variable {key : Nat → κ} {n i : Nat}

theorem Ordered.first (ordered : Ordered key n) {k : Nat} (inside : k < n) : key 0 ≤ key k := by
  induction k using Nat.strongRecOn with
  | ind k ih =>
    by_cases root : k = 0
    next => rw [root]
    next =>
      have above : parent k < k := parent_pos (Nat.pos_of_ne_zero root)
      exact (ih (parent k) above (by omega)).trans (ordered k inside (by omega))

theorem Ordered.around (ordered : Ordered key n) (inside : i < n) : OrderedAround key n i where
  others k bound positive _ _ := ordered k bound positive
  across k bound positive child high :=
    (ordered i inside high).trans (child ▸ ordered k bound positive)

theorem OrderedAround.congr (around : OrderedAround key n i) {key' : Nat → κ}
    (same : ∀ k < n, k ≠ i → key' k = key k) : OrderedAround key' n i where
  others k bound positive different apart := by
    have above : parent k < n := by unfold parent; omega
    rw [same k bound different, same (parent k) above apart]
    exact around.others k bound positive different apart
  across k bound positive child high := by
    have below : k ≠ i := by unfold parent at child; omega
    have above : parent i < n ∧ parent i ≠ i := by unfold parent at child ⊢; omega
    rw [same k bound below, same (parent i) above.1 above.2]
    exact around.across k bound positive child high

theorem OrderedAround.ordered (around : OrderedAround key n i)
    (above : 0 < i → key (parent i) ≤ key i)
    (below : ∀ k < n, 0 < k → parent k = i → key i ≤ key k) : Ordered key n := by
  intro k bound positive
  by_cases here : k = i
  next => exact here ▸ above (here ▸ positive)
  next =>
    by_cases child : parent k = i
    next => exact child ▸ below k bound positive child
    next => exact around.others k bound positive here child

end Order

-- An element has changed places with `j`, one of its children.
structure Exchanged (key key' : Nat → κ) (i j : Nat) : Prop where
  child : parent j = i
  low : 0 < j
  upper : key' i = key j
  lower : key' j = key i
  others : ∀ k, k ≠ i → k ≠ j → key' k = key k

section Exchange

variable {key key' : Nat → κ} {n i j : Nat}

theorem Exchanged.up (exchanged : Exchanged key key' i j) (around : OrderedAround key n j)
    (inside : j < n) (before : key j < key i) :
    OrderedAround key' n i ∧ ∀ k < n, 0 < k → parent k = i → key' i ≤ key' k := by
  have high : i < j := exchanged.child ▸ parent_pos exchanged.low
  -- Whatever hangs below `i` is at most as early as the old element at `i`.
  have under : ∀ k < n, 0 < k → parent k = i → key i ≤ key' k := by
    intro k bound positive child
    by_cases here : k = j
    next => rw [here, exchanged.lower]
    next =>
      have lower := parent_pos positive
      rw [exchanged.others k (by omega) here]
      exact child ▸ around.others k bound positive here (by omega)
  refine ⟨⟨?_, ?_⟩, ?_⟩
  next =>
    intro k bound positive different apart
    by_cases here : k = j
    next => exact absurd (here ▸ exchanged.child) apart
    next =>
      rw [exchanged.others k different here]
      by_cases child : parent k = j
      next =>
        rw [child, exchanged.lower]
        exact exchanged.child ▸ around.across k bound positive child exchanged.low
      next =>
        rw [exchanged.others (parent k) apart child]
        exact around.others k bound positive here child
  next =>
    intro k bound positive child low
    have lower : parent i < i := parent_pos low
    have above := around.others i (by omega) low (by omega) (by omega)
    rw [exchanged.others (parent i) (by omega) (by omega)]
    exact le_trans above (under k bound positive child)
  next =>
    intro k bound positive child
    rw [exchanged.upper]
    exact le_trans (le_of_lt before) (under k bound positive child)

theorem Exchanged.down (exchanged : Exchanged key key' i j) (around : OrderedAround key n i)
    (inside : j < n) (least : ∀ k < n, 0 < k → parent k = i → key j ≤ key k) :
    OrderedAround key' n j := by
  have high : i < j := exchanged.child ▸ parent_pos exchanged.low
  constructor
  next =>
    intro k bound positive different apart
    by_cases here : k = i
    next =>
      subst here
      have upper := parent_pos positive
      rw [exchanged.upper, exchanged.others (parent k) (by omega) (by omega)]
      exact around.across j inside exchanged.low exchanged.child positive
    next =>
      rw [exchanged.others k here different]
      by_cases sibling : parent k = i
      next =>
        rw [sibling, exchanged.upper]
        exact least k bound positive sibling
      next =>
        rw [exchanged.others (parent k) sibling apart]
        exact around.others k bound positive here sibling
  next =>
    intro k bound positive child _
    have lower := parent_pos positive
    rw [exchanged.child, exchanged.upper, exchanged.others k (by omega) (by omega), ← child]
    exact around.others k bound positive (by omega) (by omega)

end Exchange

section Sift

variable {h : Interface σ α} {key : σ → Nat → κ}

theorem Keyed.len_down (keyed : Keyed h key) (s : σ) {i n : Nat} (bound : n ≤ h.len s) :
    h.len (down h s i n).1 = h.len s := by
  apply down_rule (P := fun s' => h.len s' = h.len s) _ rfl
  intro s' k l same less inside
  rw [keyed.len_swap s' k l (by omega) (by omega), same]

theorem Keyed.len_up (keyed : Keyed h key) (s : σ) {j : Nat} (inside : j < h.len s) :
    h.len (up h s j) = h.len s := by
  apply up_rule (P := fun s' => h.len s' = h.len s) _ rfl
  intro s' i k same less bound
  rw [keyed.len_swap s' i k (by omega) (by omega), same]

theorem Keyed.swap_left (keyed : Keyed h key) {s : σ} {i j : Nat} (first : i < h.len s)
    (second : j < h.len s) : key (h.swap s i j) i = key s j := by
  rw [keyed.key_swap s i j i first second, Equiv.swap_apply_left]

theorem Keyed.swap_right (keyed : Keyed h key) {s : σ} {i j : Nat} (first : i < h.len s)
    (second : j < h.len s) : key (h.swap s i j) j = key s i := by
  rw [keyed.key_swap s i j j first second, Equiv.swap_apply_right]

theorem Keyed.swap_other (keyed : Keyed h key) {s : σ} {i j k : Nat} (first : i < h.len s)
    (second : j < h.len s) (left : k ≠ i) (right : k ≠ j) : key (h.swap s i j) k = key s k := by
  rw [keyed.key_swap s i j k first second, Equiv.swap_apply_of_ne_of_ne left right]

theorem Keyed.exchanged (keyed : Keyed h key) {s : σ} {i j : Nat} (first : i < h.len s)
    (second : j < h.len s) (child : parent j = i) (low : 0 < j) :
    Exchanged (key s) (key (h.swap s i j)) i j where
  child := child
  low := low
  upper := keyed.swap_left first second
  lower := keyed.swap_right first second
  others _ left right := keyed.swap_other first second left right

theorem Keyed.not_less (keyed : Keyed h key) {s : σ} {i j : Nat} (stop : h.less s i j = false) :
    key s j ≤ key s i := by
  have never := keyed.less s i j
  rw [stop] at never
  exact not_lt.mp fun before => absurd (never.mpr before) Bool.false_ne_true

theorem Keyed.up_ordered (keyed : Keyed h key) {s : σ} {j : Nat} (inside : j < h.len s)
    (around : OrderedAround (key s) (h.len s) j)
    (below : ∀ k < h.len s, 0 < k → parent k = j → key s j ≤ key s k) :
    Ordered (key (up h s j)) (h.len s) := by
  induction s, j using up.induct h with
  | case1 s j i stop =>
    rw [up]
    simp only [i, stop, if_true]
    refine around.ordered (fun high => ?_) below
    rcases stop with root | level
    next => omega
    next => exact keyed.not_less level
  | case2 s j i move ih =>
    have before : key s j < key s i :=
      (keyed.less s j i).mp (by simpa [i] using (not_or.mp move).2)
    have high : i < j := by omega
    have room : i < h.len s := by omega
    have len : h.len (h.swap s i j) = h.len s := keyed.len_swap s i j room inside
    obtain ⟨around', below'⟩ :=
      (keyed.exchanged room inside rfl (by omega)).up around inside before
    rw [up_move move, ← len]
    exact ih (len ▸ room) (len ▸ around') (len ▸ below')

theorem Keyed.child_least (keyed : Keyed h key) (s : σ) {i n k : Nat} (bound : k < n)
    (positive : 0 < k) (below : parent k = i) :
    key s (child h s (2 * i + 1) n) ≤ key s k := by
  have places : k = 2 * i + 1 ∨ k = 2 * i + 2 := by unfold parent at below; omega
  unfold child
  split
  next right =>
    have before := (keyed.less s (2 * i + 1 + 1) (2 * i + 1)).mp right.2
    rcases places with rfl | rfl
    next => exact le_of_lt before
    next => exact le_refl _
  next left =>
    rcases places with rfl | rfl
    next => exact le_refl _
    next =>
      refine keyed.not_less ?_
      simpa [bound] using left

theorem le_down (s : σ) (i n : Nat) : i ≤ (down h s i n).2 := by
  induction s, i using down.induct h n with
  | case1 s i j1 stop => rw [down_leaf stop]
  | case2 s i j1 inside j stop => rw [down_stop inside stop]
  | case3 s i j1 inside j move ih =>
    have range : 2 * i + 1 ≤ j ∧ j < n := child_bounds h s (not_le.mp inside)
    rw [down_move inside move]
    exact le_trans (by omega) ih

theorem child_parent (s : σ) (i n : Nat) : parent (child h s (2 * i + 1) n) = i := by
  unfold child parent
  split <;> omega

theorem Keyed.down_ordered (keyed : Keyed h key) {s : σ} {i n : Nat} (bound : n ≤ h.len s)
    (around : OrderedAround (key s) n i) :
    ((down h s i n).2 ≤ i → (down h s i n).1 = s ∧
      ∀ k < n, 0 < k → parent k = i → key s i ≤ key s k) ∧
    (i < (down h s i n).2 ∨ (0 < i → key s (parent i) ≤ key s i) →
      Ordered (key (down h s i n).1) n) := by
  induction s, i using down.induct h n with
  | case1 s i j1 stop =>
    have below : ∀ k < n, 0 < k → parent k = i → key s i ≤ key s k := by
      intro k inside positive child
      unfold parent at child
      omega
    rw [down_leaf stop]
    refine ⟨fun _ => ⟨rfl, below⟩, fun above => around.ordered ?_ below⟩
    exact above.resolve_left (lt_irrefl i)
  | case2 s i j1 inside j stop =>
    have below : ∀ k < n, 0 < k → parent k = i → key s i ≤ key s k := fun k inside positive child =>
      le_trans (keyed.not_less stop) (keyed.child_least s inside positive child)
    rw [down_stop inside stop]
    refine ⟨fun _ => ⟨rfl, below⟩, fun above => around.ordered ?_ below⟩
    exact above.resolve_left (lt_irrefl i)
  | case3 s i j1 inside j move ih =>
    have range : 2 * i + 1 ≤ j ∧ j < n := child_bounds h s (not_le.mp inside)
    have before : key s j < key s i := (keyed.less s j i).mp (by simpa using move)
    have above : parent j = i := child_parent s i n
    have first : i < h.len s := by omega
    have second : j < h.len s := by omega
    have len : h.len (h.swap s i j) = h.len s := keyed.len_swap s i j first second
    have exchanged := keyed.exchanged first second above (by omega)
    have around' : OrderedAround (key (h.swap s i j)) n j :=
      exchanged.down around range.2 fun k => keyed.child_least s
    have result := ih (by rw [len]; exact bound) around'
    have deeper : i < (down h (h.swap s i j) j n).2 := by
      have further : j ≤ (down h (h.swap s i j) j n).2 := le_down _ j n
      omega
    have settled : Ordered (key (down h (h.swap s i j) j n).1) n := by
      refine result.2 (.inr fun _ => ?_)
      rw [above, exchanged.upper, exchanged.lower]
      exact le_of_lt before
    rw [down_move inside move]
    exact ⟨fun stays => absurd deeper (not_lt.mpr stays), fun _ => settled⟩

theorem Keyed.fix_ordered (keyed : Keyed h key) {s : σ} {i : Nat} (inside : i < h.len s)
    (around : OrderedAround (key s) (h.len s) i) : Ordered (key (fix h s i)) (h.len s) := by
  have lowered := keyed.down_ordered (le_refl _) around
  unfold fix
  simp only
  split
  next moved => exact lowered.2 (.inl moved)
  next stayed =>
    have ⟨same, below⟩ := lowered.1 (not_lt.mp stayed)
    rw [same]
    exact keyed.up_ordered inside around below

theorem Keyed.len_fix (keyed : Keyed h key) {s : σ} {i : Nat} (inside : i < h.len s) :
    h.len (fix h s i) = h.len s := by
  have lowered := keyed.len_down s (i := i) (le_refl _)
  unfold fix
  simp only
  split
  next => exact lowered
  next => rw [keyed.len_up _ (by rw [lowered]; exact inside), lowered]

end Sift

end Heap
