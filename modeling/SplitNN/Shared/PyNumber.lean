import Mathlib
import SplitNN.Shared.Arithmetic
import SplitNN.Shared.Binary64

set_option autoImplicit false

open Float.Model Float.Model.UnpackedFloat

/-- A number of Python: an integer of any size or a float. -/
inductive PyNumber where
  | int (i : Int)
  | float (f : Float)
  deriving DecidableEq

namespace PyNumber

-- `float(x)`, which raises where the nearest float is infinite.
def toFloat? : PyNumber → Option Float
  | .float f => some f
  | .int i =>
    let f := Float.ofModel (.ofInt i)
    if f.isFinite then some f else none

-- An operator with a float on either side works on floats.
def onFloats (op : Float → Float → Float) (a b : PyNumber) : Option PyNumber := do
  let x ← a.toFloat?
  let y ← b.toFloat?
  return .float (op x y)

def add : PyNumber → PyNumber → Option PyNumber
  | .int a, .int b => some (.int (a + b))
  | a, b => onFloats (· + ·) a b

def sub : PyNumber → PyNumber → Option PyNumber
  | .int a, .int b => some (.int (a - b))
  | a, b => onFloats (· - ·) a b

def mul : PyNumber → PyNumber → Option PyNumber
  | .int a, .int b => some (.int (a * b))
  | a, b => onFloats (· * ·) a b

def exact (i : Int) : UnpackedFloat :=
  if h : i = 0 then .zero .positive
  else .finite (if 0 < i then .positive else .negative) i.natAbs 0 (Int.natAbs_pos.mpr h)

-- The true division of two integers rounds their quotient once.
def trueDivision (a b : Int) : Option PyNumber :=
  let f := Float.ofModel (.pack (UnpackedFloat.div .binary64 (exact a) (exact b)))
  if f.isFinite then some (.float f) else none

def quotient : PyNumber → PyNumber → Option PyNumber
  | .int a, .int b => trueDivision a b
  | a, b => onFloats (· / ·) a b

def sqrt (a : PyNumber) : Option PyNumber := do
  let x ← a.toFloat?
  return .float x.sqrt

-- `math.ceil`, which raises for a nan and for an infinity.
def ceil : PyNumber → Option Int
  | .int i => some i
  | .float f =>
    match f.toModel.unpack with
    | .zero _ => some 0
    | .finite sign m e _ =>
      if 0 ≤ e then some (sign.apply (m <<< e.toNat))
      else some (-(-sign.apply m / 2 ^ (-e).toNat))
    | _ => none

-- Every float that is finite is a whole number of times 2 ^ -1074.
def ticks : Nat := 2 ^ 1074

theorem ticks_pos : 0 < ticks := by
  unfold ticks
  positivity

attribute [irreducible] ticks

abbrev Rank := WithBot (WithTop Int)

def rank : PyNumber → Option Rank
  | .int i => some ((i * ticks : Int) : WithTop Int)
  | .float f =>
    match f.toModel.unpack with
    | .notANumber => none
    | .infinity .positive => some ((⊤ : WithTop Int) : Rank)
    | .infinity .negative => some ⊥
    | .zero _ => some ((0 : Int) : WithTop Int)
    | .finite sign m e _ => some ((sign.apply (m <<< (e + 1074).toNat) : Int) : WithTop Int)

end PyNumber

def Arithmetic.python : Arithmetic PyNumber where
  ofInt := .int
  add := PyNumber.add
  sub := PyNumber.sub
  mul := PyNumber.mul
  quotient := PyNumber.quotient
  sqrt := PyNumber.sqrt
  ceil := PyNumber.ceil
  lt := ltBy PyNumber.rank
  le := leBy PyNumber.rank
  compares := ltBy_compares
  le_iff := leBy_iff_not_ltBy
  ofInt_le _ := (leBy_of_rank rfl rfl).mpr le_rfl

namespace PyNumber

open Binary64 (unpack repack)

def Positive (a : PyNumber) : Prop := Arithmetic.python.lt (.int 0) a = true

def Nonneg (a : PyNumber) : Prop := Arithmetic.python.le (.int 0) a = true

def IsZero (a : PyNumber) : Prop := Arithmetic.python.isZero a = true

def IsFinite : PyNumber → Prop
  | .int _ => True
  | .float f => f.isFinite = true

def PositiveNumber (a : PyNumber) : Prop := Positive a ∧ IsFinite a

section Ranks

variable {f : Float} {i : Int}

theorem rank_float : rank (.float f) = match unpack f with
    | .notANumber => none
    | .infinity .positive => some ((⊤ : WithTop Int) : Rank)
    | .infinity .negative => some ⊥
    | .zero _ => some ((0 : Int) : WithTop Int)
    | .finite sign m e _ => some ((sign.apply (m <<< (e + 1074).toNat) : Int) : WithTop Int) :=
  rfl

theorem rank_zero : rank (.int 0) = some (0 : Rank) := by
  rw [rank, zero_mul]
  rfl

theorem positive_iff {a : PyNumber} : Positive a ↔ ∃ x, rank a = some x ∧ 0 < x := by
  change Arithmetic.ltBy rank (.int 0) a = true ↔ _
  rw [Arithmetic.ltBy_iff]
  constructor
  · intro ⟨start, x, first, second, less⟩
    cases Option.some.inj (rank_zero.symm.trans first)
    exact ⟨x, second, less⟩
  · intro ⟨x, second, less⟩
    exact ⟨_, x, rank_zero, second, less⟩

theorem nonneg_iff {a : PyNumber} : Nonneg a ↔ ∃ x, rank a = some x ∧ 0 ≤ x := by
  change Arithmetic.leBy rank (.int 0) a = true ↔ _
  rw [Arithmetic.leBy_iff]
  constructor
  · intro ⟨start, x, first, second, less⟩
    cases Option.some.inj (rank_zero.symm.trans first)
    exact ⟨x, second, less⟩
  · intro ⟨x, second, less⟩
    exact ⟨_, x, rank_zero, second, less⟩

theorem positive_int : Positive (.int i) ↔ 0 < i := by
  have scale : (0 : Int) < ticks := by exact_mod_cast ticks_pos
  rw [positive_iff]
  simp only [rank, Option.some.injEq, exists_eq_left']
  norm_cast
  exact mul_pos_iff_of_pos_right scale

theorem positiveNumber_int (above : 0 < i) : PositiveNumber (.int i) :=
  ⟨positive_int.mpr above, trivial⟩

theorem nonneg_int : Nonneg (.int i) ↔ 0 ≤ i := by
  have scale : (0 : Int) < ticks := by exact_mod_cast ticks_pos
  rw [nonneg_iff]
  simp only [rank, Option.some.injEq, exists_eq_left']
  norm_cast
  exact mul_nonneg_iff_of_pos_right scale

theorem shifted_pos {m : Nat} (h : 0 < m) (k : Nat) : 0 < m <<< k := by
  rw [Nat.shiftLeft_eq]
  exact Nat.mul_pos h (Nat.two_pow_pos k)

theorem positive_float : Positive (.float f) ↔ Binary64.Positive (unpack f) := by
  rw [positive_iff, rank_float]
  cases unpack f with
  | notANumber =>
    constructor
    · simp
    · rintro ⟨⟩
  | infinity sign =>
    cases sign
    · constructor
      · simp
      · rintro ⟨⟩
    · exact ⟨fun _ => .infinity, fun _ => ⟨_, rfl, WithBot.coe_lt_coe.mpr (WithTop.coe_lt_top 0)⟩⟩
  | zero sign =>
    constructor
    · simp
    · rintro ⟨⟩
  | finite sign m e h =>
    have shifted := shifted_pos h (e + 1074).toNat
    cases sign
    · constructor
      · rintro ⟨x, same, above⟩
        cases same
        simp only [Sign.apply] at above
        norm_cast at above
        omega
      · rintro ⟨⟩
    · refine ⟨fun _ => .finite m e h, fun _ => ⟨_, rfl, ?_⟩⟩
      simp only [Sign.apply]
      norm_cast

theorem nonneg_float : Nonneg (.float f) ↔ Binary64.Nonneg (unpack f) := by
  rw [nonneg_iff, rank_float]
  cases unpack f with
  | notANumber =>
    constructor
    · simp
    · intro nonneg
      cases nonneg with
      | positive above => cases above
  | infinity sign =>
    cases sign
    · constructor
      · simp
      · intro nonneg
        cases nonneg with
        | positive above => cases above
    · exact ⟨fun _ => .positive .infinity,
        fun _ => ⟨_, rfl, WithBot.coe_le_coe.mpr (le_top : (0 : WithTop Int) ≤ ⊤)⟩⟩
  | zero sign => exact ⟨fun _ => .zero sign, fun _ => ⟨_, rfl, le_rfl⟩⟩
  | finite sign m e h =>
    have shifted := shifted_pos h (e + 1074).toNat
    cases sign
    · constructor
      · rintro ⟨x, same, above⟩
        cases same
        simp only [Sign.apply] at above
        norm_cast at above
        omega
      · intro nonneg
        cases nonneg with
        | positive above => cases above
    · refine ⟨fun _ => .positive (.finite m e h), fun _ => ⟨_, rfl, ?_⟩⟩
      simp only [Sign.apply]
      norm_cast
      omega

theorem Positive.nonneg {a : PyNumber} (positive : Positive a) : Nonneg a := by
  obtain ⟨x, same, above⟩ := positive_iff.mp positive
  exact nonneg_iff.mpr ⟨x, same, above.le⟩

theorem Nonneg.not_below {a : PyNumber} (nonneg : Nonneg a) :
    Arithmetic.python.lt a (.int 0) = false :=
  ((Arithmetic.python.le_iff _ _).mp nonneg).2.2

theorem isZero_iff {a : PyNumber} : IsZero a ↔ rank a = some 0 := by
  rw [IsZero, Arithmetic.isZero, Bool.and_eq_true]
  change Arithmetic.leBy rank a (.int 0) = true ∧ Arithmetic.leBy rank (.int 0) a = true ↔ _
  rw [Arithmetic.leBy_iff, Arithmetic.leBy_iff]
  constructor
  · rintro ⟨⟨x, y, first, second, low⟩, ⟨y', x', second', first', high⟩⟩
    cases Option.some.inj (first.symm.trans first')
    cases Option.some.inj (rank_zero.symm.trans second)
    cases Option.some.inj (rank_zero.symm.trans second')
    rw [first, le_antisymm low high]
  · intro same
    exact ⟨⟨0, 0, same, rank_zero, le_rfl⟩, ⟨0, 0, rank_zero, same, le_rfl⟩⟩

theorem Positive.not_isZero {a : PyNumber} (positive : Positive a) : ¬ IsZero a := by
  obtain ⟨x, same, above⟩ := positive_iff.mp positive
  intro zero
  cases Option.some.inj (same.symm.trans (isZero_iff.mp zero))
  exact lt_irrefl _ above

theorem isZero_int : IsZero (.int i) ↔ i = 0 := by
  have scale := ticks_pos.ne'
  rw [isZero_iff]
  simp only [rank, Option.some.injEq]
  norm_cast
  simp [scale]

theorem isZero_float : IsZero (.float f) ↔ ∃ sign, unpack f = .zero sign := by
  rw [isZero_iff, rank_float]
  cases unpack f with
  | notANumber => simp
  | infinity sign =>
    cases sign
    · simp
    · simp only [Option.some.injEq, reduceCtorEq, exists_false, iff_false]
      exact fun same => WithTop.top_ne_coe (WithBot.coe_injective same)
  | zero sign => exact ⟨fun _ => ⟨sign, rfl⟩, fun _ => rfl⟩
  | finite sign m e h =>
    have shifted := shifted_pos h (e + 1074).toNat
    simp only [Option.some.injEq, reduceCtorEq, exists_false, iff_false]
    intro same
    cases sign <;> simp only [Sign.apply] at same <;> norm_cast at same <;> omega

end Ranks

section Conversion

variable {a : PyNumber} {x : Float}

theorem unpack_ofInt (i : Int) : unpack (.ofModel (.ofInt i)) =
    repack (UnpackedFloat.normalize Binary64.spec i 0 .positive) := rfl

theorem toFloat?_int {i : Int} (found : toFloat? (.int i) = some x) :
    x = .ofModel (.ofInt i) ∧ (unpack x).isFinite = true := by
  simp only [toFloat?] at found
  split at found
  next finite =>
    cases found
    exact ⟨rfl, finite⟩
  next => cases found

theorem toFloat?_whole {k : Int} (positive : 1 ≤ k) (found : toFloat? (.int k) = some x) :
    ∃ m e h, unpack x = .finite .positive m e h ∧ 0 ≤ (m.log2 : Int) + e := by
  obtain ⟨same, finite⟩ := toFloat?_int found
  obtain ⟨m, e, h, run, canonical, low⟩ :=
    Binary64.normalize_spec (M := k) (e := 0) (by omega) (by omega) .positive
  have made : unpack x = if e ≤ 971 then .finite .positive m e h else .infinity .positive := by
    rw [same, unpack_ofInt, run, Binary64.repack_finite canonical]
  split at made
  next => exact ⟨m, e, h, made, by omega⟩
  next =>
    rw [made] at finite
    cases finite

theorem toFloat?_positive (positive : Positive a) (found : a.toFloat? = some x) :
    Binary64.Positive (unpack x) := by
  cases a with
  | int i =>
    obtain ⟨m, e, h, same, -⟩ := toFloat?_whole (positive_int.mp positive) found
    exact same ▸ .finite m e h
  | float f =>
    cases found
    exact positive_float.mp positive

theorem toFloat?_zero (zero : IsZero a) (found : a.toFloat? = some x) :
    ∃ sign, unpack x = .zero sign := by
  cases a with
  | int i =>
    cases isZero_int.mp zero
    exact ⟨.positive, (toFloat?_int found).1 ▸ rfl⟩
  | float f =>
    cases found
    exact isZero_float.mp zero

theorem toFloat?_nonneg (nonneg : Nonneg a) (found : a.toFloat? = some x) :
    Binary64.Nonneg (unpack x) := by
  cases a with
  | int i =>
    rcases (nonneg_int.mp nonneg).eq_or_lt with rfl | above
    · obtain ⟨sign, same⟩ := toFloat?_zero (isZero_int.mpr rfl) found
      exact same ▸ .zero sign
    · exact .positive (toFloat?_positive (positive_int.mpr above) found)
  | float f =>
    cases found
    exact nonneg_float.mp nonneg

theorem toFloat?_finite (finite : IsFinite a) (found : a.toFloat? = some x) :
    (unpack x).isFinite = true := by
  cases a with
  | int i => exact (toFloat?_int found).2
  | float f =>
    cases found
    exact finite

theorem toFloat?_positive_finite (positive : Positive a) (finite : IsFinite a)
    (found : a.toFloat? = some x) : ∃ m e h, unpack x = .finite .positive m e h := by
  have bounded := toFloat?_finite finite found
  have above := toFloat?_positive positive found
  generalize unpack x = u at above bounded
  cases above with
  | infinity => cases bounded
  | finite m e h => exact ⟨m, e, h, rfl⟩

end Conversion

section Operators

variable {a b c : PyNumber}

theorem onFloats_eq_some {op : Float → Float → Float} (run : onFloats op a b = some c) :
    ∃ x y, a.toFloat? = some x ∧ b.toFloat? = some y ∧ c = .float (op x y) := by
  obtain ⟨x, left, later⟩ := Option.bind_eq_some_iff.mp run
  obtain ⟨y, right, same⟩ := Option.bind_eq_some_iff.mp later
  exact ⟨x, y, left, right, (Option.some.inj same).symm⟩

theorem add_eq_some (run : add a b = some c) :
    (∃ i j, a = .int i ∧ b = .int j ∧ c = .int (i + j)) ∨
      ∃ x y, a.toFloat? = some x ∧ b.toFloat? = some y ∧ c = .float (x + y) := by
  unfold add at run
  split at run
  next i j => exact .inl ⟨i, j, rfl, rfl, (Option.some.inj run).symm⟩
  next => exact .inr (onFloats_eq_some run)

theorem mul_eq_some (run : mul a b = some c) :
    (∃ i j, a = .int i ∧ b = .int j ∧ c = .int (i * j)) ∨
      ∃ x y, a.toFloat? = some x ∧ b.toFloat? = some y ∧ c = .float (x * y) := by
  unfold mul at run
  split at run
  next i j => exact .inl ⟨i, j, rfl, rfl, (Option.some.inj run).symm⟩
  next => exact .inr (onFloats_eq_some run)

theorem quotient_eq_some (run : quotient a b = some c) :
    (∃ i j, a = .int i ∧ b = .int j ∧ trueDivision i j = some c) ∨
      ∃ x y, a.toFloat? = some x ∧ b.toFloat? = some y ∧ c = .float (x / y) := by
  unfold quotient at run
  split at run
  next i j => exact .inl ⟨i, j, rfl, rfl, run⟩
  next => exact .inr (onFloats_eq_some run)

theorem nonneg_add_positive (left : Nonneg a) (right : Positive b) (run : add a b = some c) :
    Positive c := by
  rcases add_eq_some run with ⟨i, j, rfl, rfl, rfl⟩ | ⟨x, y, first, second, rfl⟩
  · have := nonneg_int.mp left
    have := positive_int.mp right
    exact positive_int.mpr (by omega)
  · exact positive_float.mpr (Binary64.nonneg_add_positive (toFloat?_nonneg left first)
      (toFloat?_positive right second))

theorem positive_add_nonneg (left : Positive a) (right : Nonneg b) (run : add a b = some c) :
    Positive c := by
  rcases add_eq_some run with ⟨i, j, rfl, rfl, rfl⟩ | ⟨x, y, first, second, rfl⟩
  · have := positive_int.mp left
    have := nonneg_int.mp right
    exact positive_int.mpr (by omega)
  · exact positive_float.mpr (Binary64.positive_add_nonneg (toFloat?_positive left first)
      (toFloat?_nonneg right second))

theorem whole_mul_positive {k : Int} (whole : 1 ≤ k) (right : Positive b)
    (run : mul (.int k) b = some c) : Positive c := by
  rcases mul_eq_some run with ⟨i, j, same, rfl, rfl⟩ | ⟨x, y, first, second, rfl⟩
  · cases same
    exact positive_int.mpr (Int.mul_pos (by omega) (positive_int.mp right))
  · obtain ⟨m, e, h, unpacked, large⟩ := toFloat?_whole whole first
    exact positive_float.mpr
      (Binary64.whole_mul_positive unpacked large (toFloat?_positive right second))

theorem whole_mul_nonneg {k : Int} (whole : 1 ≤ k) (right : Nonneg b)
    (run : mul (.int k) b = some c) : Nonneg c := by
  rcases mul_eq_some run with ⟨i, j, same, rfl, rfl⟩ | ⟨x, y, first, second, rfl⟩
  · cases same
    exact nonneg_int.mpr (Int.mul_nonneg (by omega) (nonneg_int.mp right))
  · obtain ⟨m, e, h, unpacked, _⟩ := toFloat?_whole whole first
    exact nonneg_float.mpr (Binary64.finite_mul_nonneg unpacked (toFloat?_nonneg right second))

theorem nonneg_mul_finite (left : Nonneg a) (right : Positive b) (finite : IsFinite b)
    (run : mul a b = some c) : Nonneg c := by
  rcases mul_eq_some run with ⟨i, j, rfl, rfl, rfl⟩ | ⟨x, y, first, second, rfl⟩
  · exact nonneg_int.mpr (Int.mul_nonneg (nonneg_int.mp left) (positive_int.mp right).le)
  · obtain ⟨m, e, h, unpacked⟩ := toFloat?_positive_finite right finite second
    exact nonneg_float.mpr (Binary64.nonneg_mul_finite (toFloat?_nonneg left first) unpacked)

theorem nonneg_trueDivision {i k : Int} (nonneg : 0 ≤ i) (whole : 1 ≤ k)
    (run : trueDivision i k = some c) : Nonneg c := by
  simp only [trueDivision] at run
  split at run
  next =>
    cases run
    apply nonneg_float.mpr
    change Binary64.Nonneg (repack (UnpackedFloat.div Binary64.spec (exact i) (exact k)))
    have divisor : exact k = .finite .positive k.natAbs 0 (Int.natAbs_pos.mpr (by omega)) := by
      rw [exact, dif_neg (by omega)]
      congr 1
      exact if_pos (by omega)
    rw [divisor]
    unfold exact
    split
    next => exact Binary64.repack_zero_nonneg _
    next =>
      rw [if_pos (by omega)]
      exact Binary64.round_nonneg _ _ _
  next => cases run

theorem nonneg_quotient_whole {k : Int} (left : Nonneg a) (whole : 1 ≤ k)
    (run : quotient a (.int k) = some c) : Nonneg c := by
  rcases quotient_eq_some run with ⟨i, j, rfl, same, division⟩ | ⟨x, y, first, second, rfl⟩
  · cases same
    exact nonneg_trueDivision (nonneg_int.mp left) whole division
  · obtain ⟨m, e, h, unpacked, _⟩ := toFloat?_whole whole second
    exact nonneg_float.mpr (Binary64.nonneg_div_finite (toFloat?_nonneg left first) unpacked)

theorem sqrt_eq_some (run : sqrt a = some c) : ∃ x, a.toFloat? = some x ∧ c = .float x.sqrt := by
  obtain ⟨x, found, same⟩ := Option.bind_eq_some_iff.mp run
  exact ⟨x, found, (Option.some.inj same).symm⟩

theorem nonneg_sqrt (nonneg : Nonneg a) (run : sqrt a = some c) : Nonneg c := by
  obtain ⟨x, found, rfl⟩ := sqrt_eq_some run
  exact nonneg_float.mpr (Binary64.nonneg_sqrt (toFloat?_nonneg nonneg found))

end Operators

section Zero

variable {a b c : PyNumber}

theorem IsZero.finite (zero : IsZero a) : IsFinite a := by
  cases a with
  | int i => trivial
  | float f =>
    obtain ⟨sign, same⟩ := isZero_float.mp zero
    change (unpack f).isFinite = true
    rw [same]
    rfl

theorem IsZero.isNumber (zero : IsZero a) : Arithmetic.python.IsNumber a :=
  Arithmetic.leBy_iff.mpr ⟨0, 0, isZero_iff.mp zero, isZero_iff.mp zero, le_rfl⟩

theorem isNumber_float {f : Float} :
    Arithmetic.python.IsNumber (.float f) ↔ unpack f ≠ .notANumber := by
  refine (Arithmetic.leBy_iff).trans ?_
  rw [rank_float]
  cases unpack f with
  | infinity sign => cases sign <;> simp
  | _ => simp

theorem zero_mul_finite (left : IsZero a) (right : IsFinite b) (run : mul a b = some c) :
    IsZero c := by
  rcases mul_eq_some run with ⟨i, j, rfl, rfl, rfl⟩ | ⟨x, y, first, second, rfl⟩
  · rw [isZero_int.mp left, Int.zero_mul]
    exact isZero_int.mpr rfl
  · obtain ⟨sign, unpacked⟩ := toFloat?_zero left first
    have finite := toFloat?_finite right second
    rw [isZero_float, Binary64.unpack_mul, unpacked]
    generalize unpack y = v at finite
    cases v with
    | notANumber | infinity => cases finite
    | zero sign' => exact ⟨sign * sign', Binary64.repack_zero _⟩
    | finite sign' => exact ⟨sign * sign', Binary64.repack_zero _⟩

theorem zero_quotient_positive (left : IsZero a) (right : Positive b)
    (run : quotient a b = some c) : IsZero c := by
  rcases quotient_eq_some run with ⟨i, j, rfl, rfl, division⟩ | ⟨x, y, first, second, rfl⟩
  · have above := positive_int.mp right
    cases isZero_int.mp left
    simp only [trueDivision] at division
    split at division
    next =>
      cases division
      rw [isZero_float]
      change ∃ sign, repack (UnpackedFloat.div Binary64.spec (exact 0) (exact j)) = .zero sign
      rw [exact, exact, dif_pos rfl, dif_neg (by omega)]
      exact ⟨_, Binary64.repack_zero _⟩
    next => cases division
  · obtain ⟨sign, unpacked⟩ := toFloat?_zero left first
    have above := toFloat?_positive right second
    rw [isZero_float, Binary64.unpack_div, unpacked]
    generalize unpack y = v at above
    cases above with
    | infinity => exact ⟨_, Binary64.repack_zero _⟩
    | finite => exact ⟨_, Binary64.repack_zero _⟩

theorem zero_sqrt (zero : IsZero a) (run : sqrt a = some c) : IsZero c := by
  obtain ⟨x, found, rfl⟩ := sqrt_eq_some run
  obtain ⟨sign, unpacked⟩ := toFloat?_zero zero found
  rw [isZero_float, Binary64.unpack_sqrt, unpacked]
  exact ⟨sign, Binary64.repack_zero sign⟩

theorem zero_add (left : IsZero a) (right : IsZero b) (run : add a b = some c) : IsZero c := by
  rcases add_eq_some run with ⟨i, j, rfl, rfl, rfl⟩ | ⟨x, y, first, second, rfl⟩
  · rw [isZero_int.mp left, isZero_int.mp right]
    exact isZero_int.mpr rfl
  · obtain ⟨s, unpackX⟩ := toFloat?_zero left first
    obtain ⟨s', unpackY⟩ := toFloat?_zero right second
    rw [isZero_float, Binary64.unpack_add, unpackX, unpackY]
    cases s <;> cases s' <;> exact ⟨_, Binary64.repack_zero _⟩

theorem zero_mul_infinite (left : IsZero a) (right : Positive b) (infinite : ¬ IsFinite b)
    (run : mul a b = some c) : ¬ Arithmetic.python.IsNumber c := by
  rcases mul_eq_some run with ⟨i, j, rfl, rfl, rfl⟩ | ⟨x, y, first, second, rfl⟩
  · exact absurd trivial infinite
  · obtain ⟨sign, unpacked⟩ := toFloat?_zero left first
    have above := toFloat?_positive right second
    have unbounded : ¬ (unpack y).isFinite = true := by
      cases b with
      | int j => exact absurd trivial infinite
      | float f =>
        cases second
        exact infinite
    rw [isNumber_float, not_not, Binary64.unpack_mul, unpacked]
    generalize unpack y = v at above unbounded
    cases above with
    | infinity => exact Binary64.repack_notANumber
    | finite => exact absurd rfl unbounded

theorem nan_add (left : ¬ Arithmetic.python.IsNumber a) (run : add a b = some c) :
    ¬ Arithmetic.python.IsNumber c := by
  rcases add_eq_some run with ⟨i, j, rfl, rfl, rfl⟩ | ⟨x, y, first, second, rfl⟩
  · exact absurd (Arithmetic.python.ofInt_le i) left
  · cases a with
    | int i => exact absurd (Arithmetic.python.ofInt_le i) left
    | float f =>
      cases first
      rw [isNumber_float, not_not] at left ⊢
      rw [Binary64.unpack_add, left]
      exact Binary64.repack_notANumber

end Zero

section Roots

variable {a b q r : PyNumber}

theorem quotient_float (run : quotient a b = some q) : ∃ f, q = .float f := by
  rcases quotient_eq_some run with ⟨i, j, rfl, rfl, division⟩ | ⟨x, y, _, _, same⟩
  · simp only [trueDivision] at division
    split at division
    next => exact ⟨_, (Option.some.inj division).symm⟩
    next => cases division
  · exact ⟨_, same⟩

theorem ceil_float {f : Float} : ceil (.float f) = match unpack f with
    | .zero _ => some 0
    | .finite sign m e _ =>
      if 0 ≤ e then some (sign.apply (m <<< e.toNat))
      else some (-(-sign.apply m / 2 ^ (-e).toNat))
    | _ => none := rfl

theorem ceil_positive {f : Float} {m : Nat} {e : Int} {h : 0 < m}
    (unpacked : unpack f = .finite .positive m e h) : ∃ k, ceil (.float f) = some k ∧ 1 ≤ k := by
  rw [ceil_float, unpacked]
  simp only [Sign.apply]
  split
  next =>
    have shifted := shifted_pos h e.toNat
    exact ⟨_, rfl, by omega⟩
  next =>
    refine ⟨_, rfl, ?_⟩
    have below : -(m : Int) / 2 ^ (-e).toNat < 0 :=
      Int.ediv_neg_of_neg_of_pos (by omega) (by positivity)
    omega

theorem ceil_sqrt {f : Float} (notBelow : Arithmetic.python.lt (.float f) (.int 0) = false) :
    (∃ k, ceil (.float f.sqrt) = some k ∧ 1 ≤ k) ↔ Positive (.float f) ∧ IsFinite (.float f) := by
  have below (x : Rank) (ranked : rank (.float f) = some x) : ¬ x < 0 := by
    intro less
    have negative : Arithmetic.python.lt (.float f) (.int 0) = true :=
      Arithmetic.ltBy_iff.mpr ⟨x, 0, ranked, rank_zero, less⟩
    simp [negative] at notBelow
  rw [rank_float] at below
  rw [positive_float, IsFinite]
  change _ ↔ Binary64.Positive (unpack f) ∧ (unpack f).isFinite = true
  cases u : unpack f with
  | notANumber =>
    have root : unpack f.sqrt = .notANumber := by
      rw [Binary64.unpack_sqrt, u]
      exact Binary64.repack_notANumber
    rw [ceil_float, root]
    simp [UnpackedFloat.isFinite]
  | infinity sign =>
    cases sign with
    | negative => exact absurd (WithBot.bot_lt_coe _) (below ⊥ (by rw [u]))
    | positive =>
      have root : unpack f.sqrt = .infinity .positive := by
        rw [Binary64.unpack_sqrt, u]
        exact Binary64.repack_infinity .positive
      rw [ceil_float, root]
      simp [UnpackedFloat.isFinite]
  | zero sign =>
    have root : unpack f.sqrt = .zero sign := by
      rw [Binary64.unpack_sqrt, u]
      exact Binary64.repack_zero sign
    rw [ceil_float, root]
    constructor
    · rintro ⟨k, same, large⟩
      cases same
      omega
    · nofun
  | finite sign m e h =>
    cases sign with
    | negative =>
      have shifted := shifted_pos h (e + 1074).toNat
      refine absurd ?_ (below _ (by rw [u]))
      simp only [Sign.apply]
      norm_cast
      omega
    | positive =>
      obtain ⟨m', e', h', root⟩ := Binary64.sqrt_finite u
      exact iff_of_true (ceil_positive root) ⟨.finite m e h, rfl⟩

end Roots

end PyNumber
