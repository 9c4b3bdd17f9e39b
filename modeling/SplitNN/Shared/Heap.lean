import Mathlib.Data.Nat.Basic
import Mathlib.Tactic.Common

set_option autoImplicit false

universe u v

-- Go's `container/heap` over any container that implements its interface.
namespace Heap

structure Interface (σ : Type u) (α : Type v) where
  len : σ → Nat
  less : σ → Nat → Nat → Bool
  swap : σ → Nat → Nat → σ
  push : σ → α → σ
  pop : σ → Option (α × σ)

variable {σ : Type u} {α : Type v} (h : Interface σ α)

def up (s : σ) (j : Nat) : σ :=
  let i := (j - 1) / 2
  if i = j ∨ h.less s j i = false then s else up (h.swap s i j) i
termination_by j

-- The child to compare with: the left one at `j1`, or its right sibling when that comes first.
def child (s : σ) (j1 n : Nat) : Nat :=
  if j1 + 1 < n ∧ h.less s (j1 + 1) j1 = true then j1 + 1 else j1

theorem child_bounds (s : σ) {j1 n : Nat} (inside : j1 < n) :
    j1 ≤ child h s j1 n ∧ child h s j1 n < n := by
  unfold child
  split <;> omega

-- Also returns where the element stopped; Go returns whether it moved.
def down (s : σ) (i n : Nat) : σ × Nat :=
  let j1 := 2 * i + 1
  if n ≤ j1 then (s, i)
  else
    let j := child h s j1 n
    if h.less s j i = false then (s, i) else down (h.swap s i j) j n
termination_by n - i
decreasing_by
  have bounds := child_bounds h s (show 2 * i + 1 < n by omega)
  omega

def init (s : σ) : σ :=
  let n := h.len s
  (List.range (n / 2)).reverse.foldl (fun s i => (down h s i n).1) s

def push (s : σ) (x : α) : σ :=
  let s := h.push s x
  up h s (h.len s - 1)

-- An empty heap has no result: Go panics on the index.
def pop (s : σ) : Option (α × σ) :=
  if h.len s = 0 then none
  else
    let n := h.len s - 1
    h.pop (down h (h.swap s 0 n) 0 n).1

def fix (s : σ) (i : Nat) : σ :=
  let r := down h s i (h.len s)
  if i < r.2 then r.1 else up h r.1 i

section Equations

variable {h} {s : σ} {i n : Nat}

theorem up_stop {j : Nat} (stop : h.less s j ((j - 1) / 2) = false) : up h s j = s := by
  rw [up]
  exact if_pos (.inr stop)

theorem up_move {j : Nat} (move : ¬ ((j - 1) / 2 = j ∨ h.less s j ((j - 1) / 2) = false)) :
    up h s j = up h (h.swap s ((j - 1) / 2) j) ((j - 1) / 2) := by
  rw [up]
  exact if_neg move

theorem down_leaf (leaf : n ≤ 2 * i + 1) : down h s i n = (s, i) := by
  rw [down]
  exact if_pos leaf

theorem down_stop (inner : ¬ n ≤ 2 * i + 1)
    (stop : h.less s (child h s (2 * i + 1) n) i = false) : down h s i n = (s, i) := by
  rw [down]
  exact (if_neg inner).trans (if_pos stop)

theorem down_move (inner : ¬ n ≤ 2 * i + 1)
    (move : ¬ h.less s (child h s (2 * i + 1) n) i = false) :
    down h s i n =
      down h (h.swap s i (child h s (2 * i + 1) n)) (child h s (2 * i + 1) n) n := by
  rw [down]
  exact (if_neg inner).trans (if_neg move)

end Equations

section Rules

variable {h} {P : σ → Prop}

theorem up_rule {s : σ} {j : Nat} (swap : ∀ s i k, P s → i < k → k ≤ j → P (h.swap s i k))
    (start : P s) : P (up h s j) := by
  induction s, j using up.induct h with
  | case1 s j i stop =>
    rw [up]
    simpa only [i, stop, if_true] using start
  | case2 s j i move ih =>
    have higher : i < j := by omega
    rw [up_move move]
    apply ih
    next =>
      intro s' k l holds less bound
      exact swap s' k l holds less (by omega)
    next => exact swap s i j start higher (le_refl j)

theorem down_rule {s : σ} {i n : Nat} (swap : ∀ s k l, P s → k < l → l < n → P (h.swap s k l))
    (start : P s) : P (down h s i n).1 := by
  induction s, i using down.induct h n with
  | case1 s i j1 stop =>
    rw [down_leaf stop]
    exact start
  | case2 s i j1 inside j stop =>
    rw [down_stop inside stop]
    exact start
  | case3 s i j1 inside j move ih =>
    have bounds : 2 * i + 1 ≤ j ∧ j < n := child_bounds h s (not_le.mp inside)
    rw [down_move inside move]
    exact ih (swap s i j start (by omega) bounds.2)

theorem fix_rule {s : σ} {i : Nat} (inside : i < h.len s)
    (swap : ∀ s' k l, P s' → k < l → l < h.len s → P (h.swap s' k l)) (start : P s) :
    P (fix h s i) := by
  have lowered : P (down h s i (h.len s)).1 := down_rule swap start
  simp only [fix]
  split
  next => exact lowered
  next =>
    apply up_rule _ lowered
    intro s' k l holds less bound
    exact swap s' k l holds less (lt_of_le_of_lt bound inside)

end Rules

end Heap
