import SplitNN.Shared.CText

set_option autoImplicit false

-- Decimal numerals as lists of characters: how they are put together and taken apart.
namespace Decimal

open Text (toDigits_injective)

theorem toDigits_step {n : Nat} (large : 10 ≤ n) :
    Nat.toDigits 10 n = Nat.toDigits 10 (n / 10) ++ [(n % 10).digitChar] :=
  Nat.toDigits_of_base_le (by decide) large

theorem toDigits_front {n : Nat} {front rest : List Char}
    (split : Nat.toDigits 10 n = front ++ rest) (some_front : front ≠ []) (some_rest : rest ≠ []) :
    ∃ m, 0 < m ∧ front = Nat.toDigits 10 m := by
  induction n using Nat.strongRecOn generalizing rest with
  | ind n ih =>
    by_cases large : 10 ≤ n
    next =>
      have shape := (List.dropLast_concat_getLast some_rest).symm
      rw [toDigits_step large, shape, ← List.append_assoc] at split
      have shorter := (List.append_inj' split rfl).1
      by_cases done : rest.dropLast = []
      next =>
        rw [done, List.append_nil] at shorter
        exact ⟨n / 10, by omega, shorter.symm⟩
      next => exact ih (n / 10) (by omega) shorter done
    next =>
      rw [Nat.toDigits_of_lt_base (by omega)] at split
      have lengths := congrArg List.length split
      have first := List.length_pos_iff.mpr some_front
      have second := List.length_pos_iff.mpr some_rest
      simp at lengths
      omega

theorem toDigits_append {n : Nat} (positive : 0 < n) (k : Nat) :
    Nat.toDigits 10 n ++ Nat.toDigits 10 k =
      Nat.toDigits 10 (n * 10 ^ (Nat.toDigits 10 k).length + k) := by
  induction k using Nat.strongRecOn with
  | ind k ih =>
    by_cases large : 10 ≤ k
    next =>
      have front := ih (k / 10) (by omega)
      have rest : k % 10 < 10 := Nat.mod_lt k (by decide)
      let whole := n * 10 ^ (Nat.toDigits 10 (k / 10)).length + k / 10
      have some_whole : 0 < whole := by positivity
      have next := Nat.toDigits_append_toDigits (b := 10) (by decide) some_whole rest
      rw [Nat.toDigits_of_lt_base rest] at next
      rw [toDigits_step large, ← List.append_assoc, front, next]
      congr 1
      have digits : 10 * (k / 10) + k % 10 = k := Nat.div_add_mod k 10
      simp only [whole, List.length_append, List.length_singleton, pow_succ]
      rw [Nat.mul_add, Nat.add_assoc, digits]
      ring
    next =>
      have digit : k < 10 := by omega
      rw [Nat.toDigits_append_toDigits (by decide) positive digit, Nat.toDigits_of_lt_base digit,
        List.length_singleton, pow_one, Nat.mul_comm]

/-- The numeral of `b` followed by that of `n` is the numeral of `b'`. -/
def Extends (b n b' : Nat) : Prop := Nat.toDigits 10 b' = Nat.toDigits 10 b ++ Nat.toDigits 10 n

instance (b n b' : Nat) : Decidable (Extends b n b') := inferInstanceAs (Decidable (_ = _))

theorem Extends.ne {b n b' : Nat} (extended : Extends b n b') : b ≠ b' := by
  intro same
  subst same
  have lengths := congrArg List.length extended
  simp at lengths

theorem Extends.large {b n b' : Nat} (extended : Extends b n b') : 10 ≤ b' := by
  by_contra small
  have lengths := congrArg List.length extended
  have first : 0 < (Nat.toDigits 10 b).length := List.length_pos_iff.mpr Nat.toDigits_ne_nil
  have second : 0 < (Nat.toDigits 10 n).length := List.length_pos_iff.mpr Nat.toDigits_ne_nil
  rw [Nat.toDigits_of_lt_base (by omega), List.length_append, List.length_singleton] at lengths
  omega

theorem Extends.le {b n b' : Nat} (extended : Extends b n b') (positive : 0 < b) : b ≤ b' := by
  rw [Extends, toDigits_append positive] at extended
  rw [toDigits_injective extended]
  exact (Nat.le_mul_of_pos_right b (by positivity)).trans (Nat.le_add_right _ _)

/-- Two numbered names on different bases coincide only where one base extends the other. -/
theorem append_eq_append {b b' k k' : Nat}
    (same : Nat.toDigits 10 b ++ Nat.toDigits 10 k = Nat.toDigits 10 b' ++ Nat.toDigits 10 k') :
    b = b' ∧ k = k' ∨ (∃ n, 0 < n ∧ Extends b n b') ∨ ∃ n, 0 < n ∧ Extends b' n b := by
  rcases List.append_eq_append_iff.mp same with ⟨middle, long, rest⟩ | ⟨middle, long, rest⟩
  · by_cases none : middle = []
    next =>
      simp only [none, List.append_nil, List.nil_append] at long rest
      exact .inl ⟨(toDigits_injective long).symm, toDigits_injective rest⟩
    next =>
      have ⟨n, positive, digits⟩ := toDigits_front rest none Nat.toDigits_ne_nil
      exact .inr (.inl ⟨n, positive, by rw [Extends, long, digits]⟩)
  · by_cases none : middle = []
    next =>
      simp only [none, List.append_nil, List.nil_append] at long rest
      exact .inl ⟨toDigits_injective long, (toDigits_injective rest).symm⟩
    next =>
      have ⟨n, positive, digits⟩ := toDigits_front rest none Nat.toDigits_ne_nil
      exact .inr (.inr ⟨n, positive, by rw [Extends, long, digits]⟩)

end Decimal
