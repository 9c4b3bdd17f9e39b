import Mathlib

set_option autoImplicit false

open Float.Model Float.Model.UnpackedFloat

-- Signs and ranges of floats, read off the model of their operations.
namespace Binary64

abbrev spec : Format := .binary64

/-- A mantissa of 53 bits, or a shorter one with the least exponent. -/
structure Canonical (m : Nat) (e : Int) : Prop where
  positive : 0 < m
  short : m < 2 ^ 53
  least : -1074 ≤ e
  full : 2 ^ 52 ≤ m ∨ e = -1074

section Shifts

theorem targetExponent_eq (total : Int) :
    spec.targetExponent total = max (total - 53) (-1074) := by
  simp [Format.targetExponent, Format.minExponent, Format.mantissaBits]

theorem log2_eq_of_bounds {m k : Nat} (low : 2 ^ k ≤ m) (high : m < 2 ^ (k + 1)) :
    m.log2 = k := by
  have positive : m ≠ 0 := by
    have := Nat.two_pow_pos k
    omega
  exact le_antisymm (Nat.lt_succ_iff.mp ((Nat.log2_lt positive).mpr high))
    ((Nat.le_log2 positive).mpr low)

theorem log2_shiftRight {m k : Nat} (positive : 0 < m) (few : k ≤ m.log2) :
    (m / 2 ^ k).log2 = m.log2 - k := by
  have low := Nat.log2_self_le positive.ne'
  have high := Nat.lt_log2_self (n := m)
  apply log2_eq_of_bounds
  · rw [Nat.le_div_iff_mul_le (Nat.two_pow_pos k), ← pow_add, Nat.sub_add_cancel few]
    exact low
  · rw [Nat.div_lt_iff_lt_mul (Nat.two_pow_pos k), ← pow_add]
    rwa [show m.log2 - k + 1 + k = m.log2 + 1 by omega]

theorem log2_shiftLeft {m : Nat} (positive : 0 < m) (k : Nat) : (m <<< k).log2 = m.log2 + k := by
  rw [Nat.shiftLeft_eq]
  apply log2_eq_of_bounds
  · rw [pow_add]
    exact Nat.mul_le_mul_right _ (Nat.log2_self_le positive.ne')
  · rw [show m.log2 + k + 1 = m.log2 + 1 + k by omega, pow_add]
    exact Nat.mul_lt_mul_of_pos_right Nat.lt_log2_self (Nat.two_pow_pos k)

theorem mantissa_shiftRight (em : ExtendedMantissa) (k : Nat) :
    (em >>> k).mantissa = em.mantissa / 2 ^ k := by
  change (k.repeat ExtendedMantissa.shiftRightOne em).mantissa = _
  induction k with
  | zero => simp [Nat.repeat]
  | succ k ih =>
    rw [Nat.repeat, ExtendedMantissa.shiftRightOne, ih, Nat.div_div_eq_div_mul, pow_succ]

theorem mantissa_ofMantissaAndAccuracy (m : Nat) (acc : Accuracy) :
    (ExtendedMantissa.ofMantissaAndAccuracy m acc).mantissa = m := by
  unfold ExtendedMantissa.ofMantissaAndAccuracy
  split <;> rfl

theorem roundedMantissa_bounds (em : ExtendedMantissa) :
    em.mantissa ≤ em.roundedMantissa ∧ em.roundedMantissa ≤ em.mantissa + 1 := by
  unfold ExtendedMantissa.roundedMantissa Accuracy.roundToNearestEven
  split <;> omega

end Shifts

section Rounding

variable {m : Nat} {e : Int}

theorem firstShift (positive : 0 < m) (wide : e ≤ spec.targetExponent (totalExponent m e))
    (large : -1074 ≤ m.log2 + e) (acc : Accuracy) :
    ∃ q target, shiftToTargetExponent spec m e acc = (q, target) ∧ 0 < q.mantissa ∧
      q.mantissa.log2 + target = m.log2 + e ∧ -1074 ≤ target ∧ q.mantissa < 2 ^ 53 ∧
      (2 ^ 52 ≤ q.mantissa ∨ target = -1074) := by
  rw [targetExponent_eq, totalExponent] at wide
  obtain ⟨k, amount⟩ := Int.eq_ofNat_of_zero_le (sub_nonneg.mpr wide)
  have few : k ≤ m.log2 := by omega
  let q := ExtendedMantissa.ofMantissaAndAccuracy m acc >>> k
  have quotient : q.mantissa = m / 2 ^ k := by
    rw [mantissa_shiftRight, mantissa_ofMantissaAndAccuracy]
  have bit : q.mantissa.log2 = m.log2 - k := by rw [quotient, log2_shiftRight positive few]
  have nonzero : 0 < q.mantissa := by
    rw [quotient]
    exact Nat.div_pos ((Nat.pow_le_pow_right two_pos few).trans (Nat.log2_self_le positive.ne'))
      (Nat.two_pow_pos k)
  refine ⟨q, e + k, ?_, nonzero, by omega, by omega, ?_, ?_⟩
  · rw [shiftToTargetExponent, shiftToExponent, targetExponent_eq, totalExponent, amount]
    rfl
  · exact (Nat.log2_lt nonzero.ne').mp (by omega)
  · rcases le_total (-1074) ((m.log2 : Int) + 1 + e - 53) with normal | small
    · exact .inl ((Nat.le_log2 nonzero.ne').mp (by omega))
    · exact .inr (by omega)

/-- Rounding what is not below the least float gives a canonical number whose leading bit moves up
by one place at most. -/
theorem roundWithAccuracy_spec (positive : 0 < m)
    (wide : e ≤ spec.targetExponent (totalExponent m e)) (large : -1074 ≤ m.log2 + e)
    (acc : Accuracy) (sign : Sign) :
    ∃ m' e' h, roundWithAccuracy spec sign m e acc = .finite sign m' e' h ∧ Canonical m' e' ∧
      m.log2 + e ≤ m'.log2 + e' ∧ m'.log2 + e' ≤ m.log2 + e + 1 := by
  obtain ⟨q, target, shifted, nonzero, bit, least, short, full⟩ :=
    firstShift positive wide large acc
  obtain ⟨above, below⟩ := roundedMantissa_bounds q
  have rounded : 0 < q.roundedMantissa := by omega
  have steps (k : Nat) (amount : (spec.targetExponent
      (totalExponent q.roundedMantissa target) - target).toNat = k) :
      (shiftToTargetExponent spec q.roundedMantissa target .exact).1.mantissa =
        q.roundedMantissa / 2 ^ k ∧
      (shiftToTargetExponent spec q.roundedMantissa target .exact).2 = target + k := by
    simp only [shiftToTargetExponent, shiftToExponent, amount, mantissa_shiftRight,
      mantissa_ofMantissaAndAccuracy, and_self]
  have finish (m' : Nat) (e' : Int) (canonical : Canonical m' e')
      (mantissa : (shiftToTargetExponent spec q.roundedMantissa target .exact).1.mantissa = m')
      (exponent : (shiftToTargetExponent spec q.roundedMantissa target .exact).2 = e') :
      ∃ h, roundWithAccuracy spec sign m e acc = .finite sign m' e' h := by
    subst mantissa exponent
    refine ⟨canonical.positive, ?_⟩
    unfold roundWithAccuracy
    simp only [shifted]
    exact dif_neg canonical.positive.ne'
  have lower : q.mantissa.log2 ≤ q.roundedMantissa.log2 :=
    (Nat.le_log2 rounded.ne').mpr ((Nat.log2_self_le nonzero.ne').trans above)
  rcases lt_or_eq_of_le (show q.roundedMantissa ≤ 2 ^ 53 by omega) with fits | carry
  · have bits : q.roundedMantissa.log2 < 53 := (Nat.log2_lt rounded.ne').mpr fits
    have upper : q.roundedMantissa.log2 ≤ q.mantissa.log2 + 1 := by
      apply Nat.lt_succ_iff.mp
      rw [Nat.log2_lt rounded.ne']
      have high := Nat.lt_log2_self (n := q.mantissa)
      have step : 2 ^ (q.mantissa.log2 + 1) < 2 ^ (q.mantissa.log2 + 1 + 1) :=
        Nat.pow_lt_pow_right one_lt_two (Nat.lt_succ_self _)
      exact lt_of_le_of_lt (below.trans high) step
    have still := steps 0 (by
      rw [targetExponent_eq, totalExponent]
      omega)
    have canonical : Canonical q.roundedMantissa target :=
      ⟨rounded, fits, least, full.imp_left fun long => long.trans above⟩
    obtain ⟨h, run⟩ := finish _ _ canonical (by simpa using still.1) (by simpa using still.2)
    exact ⟨_, _, h, run, canonical, by omega, by omega⟩
  · have moved := steps 1 (by
      rw [targetExponent_eq, totalExponent, carry, Nat.log2_two_pow]
      omega)
    rw [carry] at moved
    have canonical : Canonical (2 ^ 52) (target + 1) :=
      ⟨by norm_num, by norm_num, by omega, .inl le_rfl⟩
    have long : q.mantissa.log2 = 52 := by
      apply log2_eq_of_bounds
      · omega
      · exact short
    obtain ⟨h, run⟩ := finish _ _ canonical (by rw [carry, moved.1]; norm_num)
      (by rw [carry, moved.2]; norm_num)
    refine ⟨_, _, h, run, canonical, ?_, ?_⟩ <;> rw [Nat.log2_two_pow] <;> omega

end Rounding

section Packing

def repack (u : UnpackedFloat) : UnpackedFloat :=
  UnpackedFloat.unpack spec (UnpackedFloat.pack spec u)

def unpack (f : Float) : UnpackedFloat := f.toModel.unpack

@[simp] theorem repack_zero (sign : Sign) : repack (.zero sign) = .zero sign := by
  cases sign <;> rfl

@[simp] theorem repack_infinity (sign : Sign) : repack (.infinity sign) = .infinity sign := by
  cases sign <;> rfl

@[simp] theorem repack_notANumber : repack .notANumber = .notANumber := rfl

theorem unpackSign_packComponents (format : Format) (sign : Sign)
    (e : BitVec format.exponentBits) (m : BitVec format.mantissaBitsWithoutImplicit) :
    Sign.ofBitVec (unpackSign (packComponents format sign e m)) = sign := by
  have same : unpackSign (packComponents format sign e m) = sign.toBitVec := by
    apply BitVec.eq_of_getLsbD_eq
    intro i below
    obtain rfl : i = 0 := by omega
    simp [unpackSign, packComponents, BitVec.getLsbD_append, BitVec.getElem_append]
  rw [same]
  cases sign <;> rfl

theorem toNat_implicit (m : BitVec 52) : (1#1 ++ m).toNat = 2 ^ 52 + m.toNat := by
  rw [BitVec.toNat_append, ← Nat.shiftLeft_add_eq_or_of_lt m.isLt]
  simp [Nat.shiftLeft_eq]

theorem unpack_packComponents (sign : Sign) (e : BitVec 11) (m : BitVec 52) :
    UnpackedFloat.unpack spec (packComponents spec sign e m) =
      if e = -1#11 then if m = 0#52 then .infinity sign else .notANumber
      else if e = 0#11 then
        if h : m = 0#52 then .zero sign
        else .finite sign m.toNat (-1074)
          (by simpa [BitVec.toNat_pos, BitVec.pos_iff_ne_zero] using h)
      else .finite sign (2 ^ 52 + m.toNat) (e.toNat - 1075) (by positivity) := by
  unfold UnpackedFloat.unpack
  simp only [unpackMantissa_packComponents, unpackExponent_packComponents,
    unpackSign_packComponents]
  split
  next => rfl
  next =>
    split
    next zero =>
      subst zero
      rfl
    next =>
      simp only [toNat_implicit]
      congr 1

theorem unpack_canonical {f : Float} {sign : Sign} {m : Nat} {e : Int} {h : 0 < m}
    (unpacked : unpack f = .finite sign m e h) : Canonical m e ∧ e ≤ 971 := by
  let exponent : BitVec 11 := @unpackExponent spec f.toModel.toBits.toBitVec
  let mantissa : BitVec 52 := @unpackMantissa spec f.toModel.toBits.toBitVec
  have bounded : exponent.toNat < 2048 := exponent.isLt
  have short : mantissa.toNat < 2 ^ 52 := mantissa.isLt
  unfold unpack Float.Model.unpack UnpackedFloat.unpack at unpacked
  simp only at unpacked
  split at unpacked
  next => split at unpacked <;> simp at unpacked
  next notLast =>
    have last : exponent.toNat ≠ 2047 := fun same => notLast (BitVec.eq_of_toNat_eq same)
    split at unpacked
    next zero =>
      split at unpacked
      next => simp at unpacked
      next =>
        obtain ⟨-, sameM, sameE⟩ := UnpackedFloat.finite.inj unpacked
        have least : e = -1074 := by
          rw [← sameE, zero]
          rfl
        have stored : m = mantissa.toNat := sameM.symm
        exact ⟨⟨h, by omega, by omega, .inr least⟩, by omega⟩
    next notFirst =>
      have first : exponent.toNat ≠ 0 := fun same => notFirst (BitVec.eq_of_toNat_eq same)
      obtain ⟨-, sameM, sameE⟩ := UnpackedFloat.finite.inj unpacked
      have stored : m = 2 ^ 52 + mantissa.toNat := sameM.symm.trans (toNat_implicit mantissa)
      have scale : e = exponent.toNat - 1075 := sameE.symm
      exact ⟨⟨h, by omega, by omega, .inl (by omega)⟩, by omega⟩

theorem repack_finite {m : Nat} {e : Int} (canonical : Canonical m e) (sign : Sign) (h : 0 < m) :
    repack (.finite sign m e h) = if e ≤ 971 then .finite sign m e h else .infinity sign := by
  have least := canonical.least
  have short := canonical.short
  have biased : (e + spec.exponentBias + spec.mantissaBitsWithoutImplicit).toNat =
      (e + 1075).toNat := by
    have bias : (spec.exponentBias : Int) = 1023 := rfl
    have bits : (spec.mantissaBitsWithoutImplicit : Int) = 52 := rfl
    rw [bias, bits]
    congr 1
    omega
  have bits : m.log2 < 53 := (Nat.log2_lt h.ne').mpr short
  unfold repack UnpackedFloat.pack
  simp only [biased]
  by_cases fits : e ≤ 971
  next =>
    have inRange : ¬ 2 ^ spec.exponentBits ≤ (e + 1075).toNat + 1 := by
      change ¬ 2048 ≤ _
      omega
    have exponent : (BitVec.ofNat 11 (e + 1075).toNat).toNat = (e + 1075).toNat := by
      rw [BitVec.toNat_ofNat, Nat.mod_eq_of_lt (by omega)]
    rw [if_neg inRange, if_pos fits]
    by_cases normal : 2 ^ 52 ≤ m
    next =>
      have long : m.log2 + 1 = spec.mantissaBits := by
        have := (Nat.le_log2 h.ne').mpr normal
        change _ = 53
        omega
      rw [if_pos long, unpack_packComponents, if_neg, if_neg]
      · have mantissa : 2 ^ 52 + (BitVec.ofNat 52 m).toNat = m := by
          rw [BitVec.toNat_ofNat]
          omega
        congr 1
        omega
      · intro zero
        have := congrArg BitVec.toNat zero
        rw [exponent] at this
        simp at this
        omega
      · intro ones
        have := congrArg BitVec.toNat ones
        rw [exponent] at this
        simp at this
        omega
    next =>
      have low : e = -1074 := canonical.full.resolve_left normal
      have below : ¬ m.log2 + 1 = spec.mantissaBits := by
        have := (Nat.log2_lt h.ne').mpr (not_le.mp normal)
        change ¬ _ = 53
        omega
      have mantissa : (BitVec.ofNat 52 m).toNat = m := by
        rw [BitVec.toNat_ofNat]
        omega
      have nonzero : BitVec.ofNat 52 m ≠ 0#52 := by
        intro zero
        have := congrArg BitVec.toNat zero
        rw [mantissa] at this
        simp at this
        omega
      rw [if_neg below, unpack_packComponents, if_neg (by decide), if_pos rfl, dif_neg nonzero]
      congr 1
      exact low.symm
  next =>
    have outside : 2 ^ spec.exponentBits ≤ (e + 1075).toNat + 1 := by
      change 2048 ≤ _
      omega
    rw [if_pos outside, if_neg fits]
    exact repack_infinity sign

end Packing

section Signs

inductive Positive : UnpackedFloat → Prop where
  | infinity : Positive (.infinity .positive)
  | finite (m : Nat) (e : Int) (h : 0 < m) : Positive (.finite .positive m e h)

inductive Nonneg : UnpackedFloat → Prop where
  | zero (sign : Sign) : Nonneg (.zero sign)
  | positive {u : UnpackedFloat} (positive : Positive u) : Nonneg u

theorem repack_positive {m : Nat} {e : Int} (canonical : Canonical m e) (h : 0 < m) :
    Positive (repack (.finite .positive m e h)) := by
  rw [repack_finite canonical]
  split
  next => exact .finite _ _ _
  next => exact .infinity

theorem repack_infinity_positive : Positive (repack (.infinity .positive)) := by
  rw [repack_infinity]
  exact .infinity

theorem repack_zero_nonneg (sign : Sign) : Nonneg (repack (.zero sign)) := by
  rw [repack_zero]
  exact .zero sign

theorem repack_nonneg (m : Nat) (e : Int) (h : 0 < m) :
    Nonneg (repack (.finite .positive m e h)) := by
  unfold repack UnpackedFloat.pack
  simp only
  split
  next =>
    exact .positive repack_infinity_positive
  next inRange =>
    split
    next =>
      rw [unpack_packComponents, if_neg]
      · split
        next => split <;> [exact .zero _; exact .positive (.finite _ _ _)]
        next => exact .positive (.finite _ _ _)
      · intro ones
        have same := congrArg BitVec.toNat ones
        change ¬ 2048 ≤ _ at inRange
        rw [BitVec.toNat_ofNat, Nat.mod_eq_of_lt (by omega)] at same
        simp at same
        omega
    next =>
      rw [unpack_packComponents, if_neg (by decide), if_pos rfl]
      split <;> [exact .zero _; exact .positive (.finite _ _ _)]

theorem round_nonneg (m : Nat) (e : Int) (acc : Accuracy) :
    Nonneg (repack (roundWithAccuracy spec .positive m e acc)) := by
  unfold roundWithAccuracy
  simp only
  split
  next =>
    rw [repack_zero]
    exact .zero _
  next => exact repack_nonneg _ _ _

theorem round_positive {m : Nat} {e : Int} (positive : 0 < m)
    (wide : e ≤ spec.targetExponent (totalExponent m e)) (large : -1074 ≤ m.log2 + e)
    (acc : Accuracy) : Positive (repack (roundWithAccuracy spec .positive m e acc)) := by
  obtain ⟨m', e', h, run, canonical, _⟩ := roundWithAccuracy_spec positive wide large acc .positive
  rw [run]
  exact repack_positive canonical h

theorem log2_mul {m n : Nat} (left : 0 < m) (right : 0 < n) : m.log2 + n.log2 ≤ (m * n).log2 := by
  rw [Nat.le_log2 (Nat.mul_pos left right).ne', pow_add]
  exact Nat.mul_le_mul (Nat.log2_self_le left.ne') (Nat.log2_self_le right.ne')

theorem normalize_spec {M : Int} {e : Int} (positive : 0 < M)
    (large : -1074 ≤ (M.toNat.log2 : Int) + e) (sign : Sign) :
    ∃ m' e' h, UnpackedFloat.normalize spec M e sign = .finite .positive m' e' h ∧ Canonical m' e' ∧
      M.toNat.log2 + e ≤ m'.log2 + e' := by
  have nonzero : 0 < M.toNat := by omega
  unfold UnpackedFloat.normalize
  rw [show compare M 0 = .gt from Int.compare_eq_gt.mpr positive]
  simp only [UnpackedFloat.round, decreaseExponent]
  let k := (e - spec.targetExponent (totalExponent M.toNat e)).toNat
  have bits := log2_shiftLeft nonzero k
  have shifted : 0 < M.toNat <<< k := by
    rw [Nat.shiftLeft_eq]
    exact Nat.mul_pos nonzero (Nat.two_pow_pos k)
  have wide : e - k ≤ spec.targetExponent (totalExponent (M.toNat <<< k) (e - k)) := by
    have amount : (k : Int) = max (e - spec.targetExponent (totalExponent M.toNat e)) 0 :=
      Int.toNat_eq_max _
    simp only [targetExponent_eq, totalExponent, bits] at amount ⊢
    omega
  obtain ⟨m', e', h, run, canonical, low, _⟩ :=
    roundWithAccuracy_spec shifted wide (by omega) .exact .positive
  exact ⟨m', e', h, run, canonical, by omega⟩

end Signs

section Operations

variable {f g : Float}

theorem unpack_add : unpack (f + g) = repack (UnpackedFloat.add spec (unpack f) (unpack g)) := rfl

theorem unpack_mul : unpack (f * g) = repack (UnpackedFloat.mul spec (unpack f) (unpack g)) := rfl

theorem unpack_div : unpack (f / g) = repack (UnpackedFloat.div spec (unpack f) (unpack g)) := rfl

theorem unpack_sqrt : unpack f.sqrt = repack (UnpackedFloat.sqrt spec (unpack f)) := rfl

theorem add_finite_positive {m₁ m₂ : Nat} {e₁ e₂ : Int} {h₁ : 0 < m₁} {h₂ : 0 < m₂}
    (least : -1074 ≤ e₁) (least' : -1074 ≤ e₂) : Positive (repack
      (UnpackedFloat.add spec (.finite .positive m₁ e₁ h₁) (.finite .positive m₂ e₂ h₂))) := by
  simp only [UnpackedFloat.add, decreaseExponent, Sign.apply]
  let low := min e₁ e₂
  have first : 0 < m₁ <<< (e₁ - low).toNat := by
    rw [Nat.shiftLeft_eq]
    exact Nat.mul_pos h₁ (Nat.two_pow_pos _)
  have second : 0 < m₂ <<< (e₂ - low).toNat := by
    rw [Nat.shiftLeft_eq]
    exact Nat.mul_pos h₂ (Nat.two_pow_pos _)
  have bit : -1074 ≤ low := le_min least least'
  obtain ⟨m', e', h, run, canonical, _⟩ := normalize_spec (e := low)
    (M := ((m₁ <<< (e₁ - low).toNat : Nat) : Int) + (m₂ <<< (e₂ - low).toNat : Nat))
    (by omega) (by omega) .positive
  change Positive (repack (UnpackedFloat.normalize spec _ _ _))
  rw [run]
  exact repack_positive canonical h

theorem positive_add_positive (left : Positive (unpack f)) (right : Positive (unpack g)) :
    Positive (unpack (f + g)) := by
  rw [unpack_add]
  generalize u : unpack f = x at left
  generalize v : unpack g = y at right
  cases left with
  | infinity => cases right <;> exact repack_infinity_positive
  | finite =>
    cases right with
    | infinity => exact repack_infinity_positive
    | finite => exact add_finite_positive (unpack_canonical u).1.least (unpack_canonical v).1.least

theorem repack_unpack_positive (positive : Positive (unpack f)) : Positive (repack (unpack f)) := by
  generalize u : unpack f = x at positive
  cases positive with
  | infinity => exact repack_infinity_positive
  | finite m e h => exact repack_positive (unpack_canonical u).1 h

theorem nonneg_add_positive (left : Nonneg (unpack f)) (right : Positive (unpack g)) :
    Positive (unpack (f + g)) := by
  generalize u : unpack f = x at left
  cases left with
  | positive left => exact positive_add_positive (u ▸ left) right
  | zero s =>
    have same : unpack (f + g) = repack (unpack g) := by
      rw [unpack_add, u]
      generalize unpack g = y at right
      cases right <;> rfl
    exact same ▸ repack_unpack_positive right

theorem positive_add_nonneg (left : Positive (unpack f)) (right : Nonneg (unpack g)) :
    Positive (unpack (f + g)) := by
  generalize v : unpack g = y at right
  cases right with
  | positive right => exact positive_add_positive left (v ▸ right)
  | zero s =>
    have same : unpack (f + g) = repack (unpack f) := by
      rw [unpack_add, v]
      generalize unpack f = x at left
      cases left <;> rfl
    exact same ▸ repack_unpack_positive left

theorem nonneg_mul_finite {m : Nat} {e : Int} {h : 0 < m} (left : Nonneg (unpack f))
    (right : unpack g = .finite .positive m e h) : Nonneg (unpack (f * g)) := by
  rw [unpack_mul, right]
  generalize unpack f = x at left
  cases left with
  | zero s => exact repack_zero_nonneg _
  | positive left =>
    cases left with
    | infinity => exact .positive repack_infinity_positive
    | finite => exact round_nonneg _ _ _

theorem whole_mul_positive {m : Nat} {e : Int} {h : 0 < m}
    (left : unpack f = .finite .positive m e h) (large : 0 ≤ m.log2 + e)
    (right : Positive (unpack g)) : Positive (unpack (f * g)) := by
  rw [unpack_mul, left]
  generalize v : unpack g = y at right
  cases right with
  | infinity => exact repack_infinity_positive
  | finite m' e' h' =>
    have first := (unpack_canonical left).1
    have second := (unpack_canonical v).1
    have bits := log2_mul h h'
    have leastBit := second.least
    apply round_positive (Nat.mul_pos h h')
    · rw [targetExponent_eq, totalExponent]
      rcases first.full with full | low
      · have := (Nat.le_log2 h.ne').mpr full
        omega
      · omega
    · omega

theorem finite_mul_nonneg {m : Nat} {e : Int} {h : 0 < m}
    (left : unpack f = .finite .positive m e h) (right : Nonneg (unpack g)) :
    Nonneg (unpack (f * g)) := by
  rw [unpack_mul, left]
  generalize unpack g = y at right
  cases right with
  | zero s => exact repack_zero_nonneg _
  | positive right =>
    cases right with
    | infinity => exact .positive repack_infinity_positive
    | finite => exact round_nonneg _ _ _

theorem nonneg_div_finite {m : Nat} {e : Int} {h : 0 < m} (left : Nonneg (unpack f))
    (right : unpack g = .finite .positive m e h) : Nonneg (unpack (f / g)) := by
  rw [unpack_div, right]
  generalize unpack f = x at left
  cases left with
  | zero s => exact repack_zero_nonneg _
  | positive left =>
    cases left with
    | infinity => exact .positive repack_infinity_positive
    | finite => exact round_nonneg _ _ _

theorem nonneg_sqrt (nonneg : Nonneg (unpack f)) : Nonneg (unpack f.sqrt) := by
  rw [unpack_sqrt]
  generalize unpack f = x at nonneg
  cases nonneg with
  | zero s => exact repack_zero_nonneg _
  | positive positive =>
    cases positive with
    | infinity => exact .positive repack_infinity_positive
    | finite => exact round_nonneg _ _ _

theorem log2_sqrt {M : Nat} (positive : 0 < M) : M.sqrt.log2 = M.log2 / 2 := by
  have low := Nat.log2_self_le positive.ne'
  have high := Nat.lt_log2_self (n := M)
  apply log2_eq_of_bounds
  · rw [Nat.le_sqrt, ← pow_add]
    exact (Nat.pow_le_pow_right two_pos (by omega)).trans low
  · rw [Nat.sqrt_lt, ← pow_add]
    exact lt_of_lt_of_le high (Nat.pow_le_pow_right two_pos (by omega))

/-- A root lies so far from the ends of the range that it neither vanishes nor overflows. -/
theorem sqrt_finite {m : Nat} {e : Int} {h : 0 < m}
    (unpacked : unpack f = .finite .positive m e h) :
    ∃ m' e' h', unpack f.sqrt = .finite .positive m' e' h' := by
  obtain ⟨canonical, fits⟩ := unpack_canonical unpacked
  have least := canonical.least
  have bits : m.log2 < 53 := (Nat.log2_lt h.ne').mpr canonical.short
  let target := min (e / 2) (spec.targetExponent ((totalExponent m e + 1) / 2))
  have scale : target = min (e / 2) (max ((m.log2 + 1 + e + 1) / 2 - 53) (-1074)) := by
    simp only [target, targetExponent_eq, totalExponent]
  let M := m <<< (e - 2 * target).toNat
  have positive : 0 < M := by
    rw [show M = m * 2 ^ _ from Nat.shiftLeft_eq _ _]
    exact Nat.mul_pos h (Nat.two_pow_pos _)
  have bit : M.log2 = m.log2 + (e - 2 * target).toNat := log2_shiftLeft h _
  have root := log2_sqrt positive
  obtain ⟨m', e', h', run, rounded, -, top⟩ := roundWithAccuracy_spec (Nat.sqrt_pos.mpr positive)
    (e := target) (by rw [targetExponent_eq, totalExponent]; omega) (by omega)
    (UnpackedFloat.sqrtCore spec m e).2.2 .positive
  have inside : e' ≤ 971 := by
    rcases rounded.full with full | low
    · have := (Nat.le_log2 h'.ne').mpr full
      omega
    · omega
  refine ⟨m', e', h', ?_⟩
  rw [unpack_sqrt, unpacked]
  change repack (roundWithAccuracy spec .positive M.sqrt target (sqrtCore spec m e).2.2) = _
  rw [run, repack_finite rounded, if_pos inside]

end Operations

end Binary64
