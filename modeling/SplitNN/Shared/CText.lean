import SplitNN.Shared.Text

set_option autoImplicit false

-- Numbers as Go's `strconv` writes them and C's `atoi` reads them.
namespace Text

-- `strconv.Itoa`.
def itoa : Int → List Char
  | .ofNat n => Nat.toDigits 10 n
  | .negSucc n => '-' :: Nat.toDigits 10 (n + 1)

theorem itoa_natCast (n : Nat) : itoa n = Nat.toDigits 10 n := rfl

theorem itoa_chars {n : Int} {c : Char} (member : c ∈ itoa n) : c = '-' ∨ c.isDigit = true := by
  cases n with
  | ofNat n => exact .inr (digit_of_mem_toDigits member)
  | negSucc n =>
    cases List.mem_cons.mp member with
    | inl sign => exact .inl sign
    | inr digit => exact .inr (digit_of_mem_toDigits digit)

theorem itoa_ne_nil (n : Int) : itoa n ≠ [] := by
  cases n with
  | ofNat n => exact Nat.toDigits_ne_nil
  | negSucc n => simp [itoa]

theorem toDigits_injective {m n : Nat} (same : Nat.toDigits 10 m = Nat.toDigits 10 n) : m = n := by
  have values := congrArg (fun digits => Nat.ofDigitChars 10 digits 0) same
  simpa using values

theorem sign_not_digit (n : Nat) : '-' ∉ Nat.toDigits 10 n := not_mem_toDigits (by decide) n

theorem itoa_injective {m n : Int} (same : itoa m = itoa n) : m = n := by
  have differ : ∀ m n : Nat, Nat.toDigits 10 m ≠ '-' :: Nat.toDigits 10 n := by
    intro m n same
    exact sign_not_digit m (same ▸ List.mem_cons_self)
  cases m with
  | ofNat m =>
    cases n with
    | ofNat n => rw [toDigits_injective same]
    | negSucc n => exact absurd same (differ _ _)
  | negSucc m =>
    cases n with
    | ofNat n => exact absurd same.symm (differ _ _)
    | negSucc n =>
      have digits := toDigits_injective (List.cons.inj same).2
      rw [Nat.succ.inj digits]

-- What a C function sees of a Go string passed through `C.CString`.
def cString (text : List Char) : List Char := text.takeWhile fun c => c ≠ '\x00'

theorem cString_clean {text : List Char} (clean : '\x00' ∉ text) : cString text = text := by
  rw [cString, List.takeWhile_eq_self_iff]
  intro c member
  have different : c ≠ '\x00' := fun same => clean (same ▸ member)
  simpa using different

-- `isspace` in the C locale.
def isCSpace (c : Char) : Bool := c.toNat ∈ [9, 10, 11, 12, 13, 32]

-- `strtol` in base 10, clamped to a `long`.
def strtol (text : List Char) : Int :=
  match text.dropWhile isCSpace with
  | '-' :: rest => max (-(2 ^ 63)) (-(Nat.ofDigitChars 10 (rest.takeWhile Char.isDigit) 0 : Int))
  | '+' :: rest => min (2 ^ 63 - 1) (Nat.ofDigitChars 10 (rest.takeWhile Char.isDigit) 0 : Int)
  | digits => min (2 ^ 63 - 1) (Nat.ofDigitChars 10 (digits.takeWhile Char.isDigit) 0 : Int)

-- C's `atoi`: `strtol` cut down to an `int`.
def cAtoi (text : List Char) : Int := (strtol text).bmod (2 ^ 32)

theorem strtol_toDigits {n : Nat} (fits : n < intLimit) : strtol (Nat.toDigits 10 n) = n := by
  have digits : ∀ c ∈ Nat.toDigits 10 n, c.isDigit = true := fun c => digit_of_mem_toDigits
  have kept : (Nat.toDigits 10 n).takeWhile Char.isDigit = Nat.toDigits 10 n :=
    List.takeWhile_eq_self_iff.mpr digits
  cases found : Nat.toDigits 10 n with
  | nil => exact absurd found Nat.toDigits_ne_nil
  | cons c rest =>
    have digit := digits c (by simp [found])
    have range := digit_toNat digit
    have noSpace : isCSpace c = false := by
      simp only [isCSpace, List.mem_cons, List.not_mem_nil, or_false, decide_eq_false_iff_not]
      omega
    have start : (c :: rest).dropWhile isCSpace = c :: rest := by simp [noSpace]
    have minus : c ≠ '-' := by rintro rfl; simp at digit
    have plus : c ≠ '+' := by rintro rfl; simp at digit
    unfold intLimit at fits
    rw [strtol, start]
    split
    next rest' same => exact absurd (List.cons.inj same).1 minus
    next rest' same => exact absurd (List.cons.inj same).1 plus
    next =>
      rw [← found, kept]
      simp
      omega

theorem cAtoi_itoa {pid : Int} (positive : 0 < pid) (fits : pid < 2 ^ 31) :
    cAtoi (itoa pid) = pid := by
  have ⟨n, natural⟩ := Int.eq_ofNat_of_zero_le positive.le
  subst natural
  rw [cAtoi, itoa_natCast, strtol_toDigits (by unfold intLimit; omega)]
  exact Int.bmod_eq_of_le (by omega) (by omega)

theorem atoi_itoa {pid : Int} (positive : 0 < pid) (fits : pid < 2 ^ 31) :
    atoi (itoa pid) = (pid, none) := by
  have ⟨n, natural⟩ := Int.eq_ofNat_of_zero_le positive.le
  subst natural
  exact atoi_toDigits (by unfold intLimit; omega)

theorem itoa_line {pid : Int} (written : pid = -1 ∨ 0 < pid ∧ pid < 2 ^ 31) {limit : Nat}
    (room : 40 < limit) : Line limit (itoa pid) := by
  have chars : ∀ c ∈ itoa pid, c ≠ '\n' ∧ c ≠ '\r' := by
    intro c member
    rcases itoa_chars member with rfl | digit
    next => decide
    next => constructor <;> rintro rfl <;> simp at digit
  refine ⟨?_, fun member => (chars _ member).1 rfl, fun member => (chars _ member).2 rfl⟩
  have bound := byteLength_le (itoa pid)
  have short : (itoa pid).length ≤ 10 := by
    rcases written with rfl | ⟨positive, fits⟩
    next => decide
    next =>
      have ⟨n, natural⟩ := Int.eq_ofNat_of_zero_le positive.le
      subst natural
      rw [itoa_natCast, Nat.length_toDigits_le_iff (by decide) (by decide)]
      omega
  omega

theorem atoi_letter {c : Char} (letter : c.isAlpha = true) (rest : List Char) :
    atoi (c :: rest) = (0, some .badDigits) := by
  have unsigned : ¬ (c = '-' ∨ c = '+') := by
    rintro (rfl | rfl) <;> simp at letter
  have noDigit : c.isDigit = false := by
    by_contra digit
    simp only [Char.isAlpha, Char.isUpper, Char.isLower, Char.isDigit, Bool.or_eq_true,
      Bool.and_eq_true, decide_eq_true_eq, UInt32.le_iff_toNat_le,
      Bool.not_eq_false] at letter digit
    simp at letter digit
    omega
  simp [atoi, unsigned, parseUint, noDigit, signed]

end Text
