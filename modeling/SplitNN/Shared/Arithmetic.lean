import Mathlib
import SplitNN.Shared.RunningMax

set_option autoImplicit false

universe u

/-- The numbers of a language: the results of its operators, `none` where one overflows, and its
comparisons. -/
structure Arithmetic (K : Type u) where
  ofInt : Int → K
  add : K → K → Option K
  sub : K → K → Option K
  mul : K → K → Option K
  -- For a divisor other than 0.
  quotient : K → K → Option K
  -- For an argument that is not below 0.
  sqrt : K → Option K
  ceil : K → Option Int
  lt : K → K → Bool
  le : K → K → Bool
  compares : RunningMax.Compares lt
  le_iff : ∀ a b, le a b = true ↔ le a a = true ∧ le b b = true ∧ lt b a = false
  ofInt_le : ∀ i, le (ofInt i) (ofInt i) = true

namespace Arithmetic

variable {K : Type u} (A : Arithmetic K)

def isZero (a : K) : Bool := A.le a (A.ofInt 0) && A.le (A.ofInt 0) a

-- A nan is not even equal to itself.
def IsNumber (a : K) : Prop := A.le a a = true

section Ranks

variable {O : Type u} [LinearOrder O] (rank : K → Option O)

-- What has no rank, like a nan, compares with nothing.
def ltBy (a b : K) : Bool := (rank a).any fun x => (rank b).any fun y => decide (x < y)

def leBy (a b : K) : Bool := (rank a).any fun x => (rank b).any fun y => decide (x ≤ y)

variable {rank} {a b : K} {x y : O}

theorem leBy_of_rank (first : rank a = some x) (second : rank b = some y) :
    leBy rank a b = true ↔ x ≤ y := by
  simp [leBy, first, second]

theorem ltBy_iff : ltBy rank a b = true ↔ ∃ x y, rank a = some x ∧ rank b = some y ∧ x < y := by
  simp [ltBy, Option.any_eq_true]

theorem leBy_iff : leBy rank a b = true ↔ ∃ x y, rank a = some x ∧ rank b = some y ∧ x ≤ y := by
  simp [leBy, Option.any_eq_true]

theorem ltBy_compares : RunningMax.Compares (ltBy rank) where
  irrefl a := by
    rw [Bool.eq_false_iff, Ne, ltBy_iff]
    intro ⟨x, y, first, second, less⟩
    cases Option.some.inj (first.symm.trans second)
    exact lt_irrefl x less
  trans first second := by
    obtain ⟨x, y, rankA, rankB, less⟩ := ltBy_iff.mp first
    obtain ⟨y', z, rankB', rankC, less'⟩ := ltBy_iff.mp second
    cases Option.some.inj (rankB.symm.trans rankB')
    exact ltBy_iff.mpr ⟨x, z, rankA, rankC, less.trans less'⟩
  between first second := by
    obtain ⟨x, z, rankA, rankC, less⟩ := ltBy_iff.mp first
    obtain ⟨w, y, _, rankB, _⟩ := ltBy_iff.mp second
    rcases lt_or_ge x y with below | above
    · exact .inl (ltBy_iff.mpr ⟨x, y, rankA, rankB, below⟩)
    · exact .inr (ltBy_iff.mpr ⟨y, z, rankB, rankC, lt_of_le_of_lt above less⟩)

theorem leBy_iff_not_ltBy (a b : K) : leBy rank a b = true ↔
    leBy rank a a = true ∧ leBy rank b b = true ∧ ltBy rank b a = false := by
  rw [Bool.eq_false_iff, Ne, ltBy_iff, leBy_iff, leBy_iff, leBy_iff]
  constructor
  · intro ⟨x, y, rankA, rankB, less⟩
    refine ⟨⟨x, x, rankA, rankA, le_rfl⟩, ⟨y, y, rankB, rankB, le_rfl⟩, ?_⟩
    rintro ⟨y', x', rankB', rankA', more⟩
    cases Option.some.inj (rankA.symm.trans rankA')
    cases Option.some.inj (rankB.symm.trans rankB')
    exact absurd more (not_lt.mpr less)
  · intro ⟨⟨x, _, rankA, _⟩, ⟨y, _, rankB, _⟩, notLess⟩
    refine ⟨x, y, rankA, rankB, ?_⟩
    by_contra more
    exact notLess ⟨y, x, rankB, rankA, not_le.mp more⟩

end Ranks

noncomputable def real : Arithmetic ℝ where
  ofInt := Int.cast
  add a b := some (a + b)
  sub a b := some (a - b)
  mul a b := some (a * b)
  quotient a b := some (a / b)
  sqrt a := some √a
  ceil a := some ⌈a⌉
  lt := ltBy some
  le := leBy some
  compares := ltBy_compares
  le_iff := leBy_iff_not_ltBy
  ofInt_le := by simp [leBy]

section Real

variable {a b : ℝ}

@[simp] theorem real_ofInt (i : Int) : real.ofInt i = i := rfl

@[simp] theorem real_add : real.add a b = some (a + b) := rfl

@[simp] theorem real_sub : real.sub a b = some (a - b) := rfl

@[simp] theorem real_mul : real.mul a b = some (a * b) := rfl

@[simp] theorem real_quotient : real.quotient a b = some (a / b) := rfl

@[simp] theorem real_sqrt : real.sqrt a = some √a := rfl

@[simp] theorem real_lt : real.lt a b = decide (a < b) := by
  simp [real, ltBy]

@[simp] theorem real_le : real.le a b = decide (a ≤ b) := by
  simp [real, leBy]

@[simp] theorem real_isZero : real.isZero a = decide (a = 0) := by
  rw [Bool.eq_iff_iff]
  simp [isZero, le_antisymm_iff]

end Real

end Arithmetic
