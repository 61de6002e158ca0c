import ApiDocs.Proofs.Number
import ApiDocs.Value
import Mathlib.Data.List.TakeWhile
import Mathlib.Tactic.Ring

/-!
# Integers in double precision

An integer of up to 53 binary digits is a double-precision number itself. So its decimal text is
read without loss, and adding one, counting and writing are exact. `Binary64.IsInteger` says that a
number is an integer, `isInteger_round` that rounding keeps such integers, and
`exists_read?_of_wholeNumber?` that reading does.
-/

namespace ApiDocs

namespace Binary64

/-- The number is the integer `n`: it has its magnitude and, zero aside, its sign. -/
def IsInteger (n : Int) : Binary64 → Prop
  | .finite negative mantissa exponent =>
    mantissa * Nat.pow 2 exponent.toNat = n.natAbs * Nat.pow 2 (-exponent).toNat ∧
      (negative = true → n ≤ 0) ∧ (negative = false → 0 ≤ n)
  | _ => False

/-! ## Rounding -/

theorem scale_pos (k : Nat) : 0 < Nat.pow 2 k := Nat.two_pow_pos k

/-- What can be scaled without remainder is kept. -/
theorem round_of_scaled {num den mantissa divisor : Nat} {exponent : Int} (negative : Bool)
    (present : num ≠ 0) (place : exponentOf num den = exponent)
    (whole : scaled num den exponent = (mantissa, 0, divisor)) (proper : 0 < divisor)
    (bounded : mantissa < mantissaBound) (finite : exponent ≤ greatestExponent) :
    round negative num den = .finite negative mantissa exponent := by
  have keeps : (decide (2 * 0 > divisor) || (2 * 0 == divisor && mantissa % 2 == 1)) = false := by
    simp [proper.ne]
  rw [round, if_neg present, place]
  dsimp only
  rw [whole]
  dsimp only
  rw [keeps]
  simp only [Bool.false_eq_true, if_false, if_neg (Nat.not_le.mpr bounded),
    if_neg (Int.not_lt.mpr finite)]

/-- At every exponent, `n` over a power of two is scaled like `n` itself. -/
theorem scaled_mul_pow (n k : Nat) (e : Int) :
    scaled (n * Nat.pow 2 k) (Nat.pow 2 k) e =
      (n * Nat.pow 2 (-e).toNat / Nat.pow 2 e.toNat,
        Nat.pow 2 k * (n * Nat.pow 2 (-e).toNat % Nat.pow 2 e.toNat),
        Nat.pow 2 k * Nat.pow 2 e.toNat) := by
  have up : n * Nat.pow 2 k * Nat.pow 2 (-e).toNat = Nat.pow 2 k * (n * Nat.pow 2 (-e).toNat) := by
    ring
  rw [scaled, up, Nat.mul_div_mul_left _ _ (scale_pos k), Nat.mul_mod_mul_left]

section

variable {n : Nat} (positive : n ≠ 0)

include positive

/-- Each factor of two adds one to the logarithm. -/
theorem log2_mul_pow (k : Nat) : (n * Nat.pow 2 k).log2 = n.log2 + k := by
  rw [Nat.log2_eq_iff (Nat.mul_ne_zero positive (scale_pos k).ne'), Nat.pow_add,
    Nat.add_right_comm, Nat.pow_add]
  exact ⟨Nat.mul_le_mul_right _ (Nat.log2_self_le positive),
    Nat.mul_lt_mul_of_pos_right Nat.lt_log2_self (scale_pos k)⟩

/-- The leading binary digit gets the place 52. -/
theorem exponentOf_mul_pow (k : Nat) :
    exponentOf (n * Nat.pow 2 k) (Nat.pow 2 k) = (n.log2 : Int) - 52 := by
  obtain ⟨e, low⟩ : ∃ e : Int, (n.log2 : Int) - 53 = e := ⟨_, rfl⟩
  have places : 53 + e.toNat = n.log2 + (-e).toNat := by omega
  have log : (Nat.pow 2 k).log2 = k := Nat.log2_two_pow
  have start :
      max leastExponent (((n * Nat.pow 2 k).log2 : Int) - (Nat.pow 2 k).log2 - 53) = e := by
    rw [log2_mul_pow positive, log, leastExponent]
    omega
  have large : mantissaBound ≤ n * Nat.pow 2 (-e).toNat / Nat.pow 2 e.toNat := by
    rw [Nat.le_div_iff_mul_le (scale_pos _), mantissaBound]
    calc Nat.pow 2 53 * Nat.pow 2 e.toNat
        = 2 ^ (53 + e.toNat) := (Nat.pow_add 2 53 _).symm
      _ = 2 ^ n.log2 * 2 ^ (-e).toNat := by rw [places, Nat.pow_add]
      _ ≤ n * 2 ^ (-e).toNat := Nat.mul_le_mul_right _ (Nat.log2_self_le positive)
  rw [exponentOf, start, scaled_mul_pow]
  simp only [ge_iff_le, if_pos large]
  omega

/-- A number of at most 53 significant binary digits is kept. -/
theorem round_mul_pow (k : Nat) (negative : Bool) (fits : Nat.pow 2 (n.log2 - 52) ∣ n)
    (small : n.log2 ≤ 1023) :
    ∃ mantissa exponent, round negative (n * Nat.pow 2 k) (Nat.pow 2 k) =
        .finite negative mantissa exponent ∧
      mantissa * Nat.pow 2 exponent.toNat = n * Nat.pow 2 (-exponent).toNat := by
  obtain ⟨e, place⟩ : ∃ e : Int, (n.log2 : Int) - 52 = e := ⟨_, rfl⟩
  have places : n.log2 + 1 + (-e).toNat = 53 + e.toNat := by omega
  have whole : Nat.pow 2 e.toNat ∣ n * Nat.pow 2 (-e).toNat := by
    have same : e.toNat = n.log2 - 52 := by omega
    rw [same]
    exact Nat.dvd_mul_right_of_dvd fits _
  obtain ⟨mantissa, exact_⟩ := whole
  have scales : scaled (n * Nat.pow 2 k) (Nat.pow 2 k) e =
      (mantissa, 0, Nat.pow 2 k * Nat.pow 2 e.toNat) := by
    rw [scaled_mul_pow, exact_, Nat.mul_div_cancel_left _ (scale_pos _), Nat.mul_mod_right,
      Nat.mul_zero]
  have bounded : mantissa < mantissaBound := by
    refine Nat.lt_of_mul_lt_mul_left (a := Nat.pow 2 e.toNat) ?_
    calc Nat.pow 2 e.toNat * mantissa
        = n * 2 ^ (-e).toNat := exact_.symm
      _ < 2 ^ (n.log2 + 1) * 2 ^ (-e).toNat :=
        Nat.mul_lt_mul_of_pos_right Nat.lt_log2_self (scale_pos _)
      _ = 2 ^ e.toNat * 2 ^ 53 := by rw [← Nat.pow_add, places, Nat.add_comm, Nat.pow_add]
  have finite : e ≤ greatestExponent := by
    rw [greatestExponent]
    omega
  refine ⟨mantissa, e, ?_, by rw [exact_, Nat.mul_comm]⟩
  exact round_of_scaled negative (Nat.mul_ne_zero positive (scale_pos k).ne')
    ((exponentOf_mul_pow positive k).trans place) scales (Nat.mul_pos (scale_pos _) (scale_pos _))
    bounded finite

end

/-- Rounding keeps integers of up to 53 binary digits. -/
theorem isInteger_round {n : Int} {negative : Bool} (below : negative = true → n ≤ 0)
    (above : negative = false → 0 ≤ n) (small : n.natAbs ≤ mantissaBound) (k : Nat) :
    (round negative (n.natAbs * Nat.pow 2 k) (Nat.pow 2 k)).IsInteger n := by
  by_cases none : n.natAbs = 0
  · rw [none, Nat.zero_mul, round, if_pos rfl, zero, IsInteger, none, Nat.zero_mul, Nat.zero_mul]
    exact ⟨rfl, below, above⟩
  · -- Only the bound itself has a digit more, and that is a zero.
    have fits : Nat.pow 2 (n.natAbs.log2 - 52) ∣ n.natAbs := by
      rcases Nat.lt_or_eq_of_le small with less | same
      · have few : n.natAbs.log2 < 53 := (Nat.log2_lt none).mpr less
        have first : n.natAbs.log2 - 52 = 0 := by omega
        rw [first]
        exact Nat.one_dvd _
      · rw [same]
        decide +kernel
    have place : n.natAbs.log2 < 54 :=
      (Nat.log2_lt none).mpr (Nat.lt_of_le_of_lt small (by decide))
    obtain ⟨mantissa, exponent, rounded, value⟩ :=
      round_mul_pow none k negative fits (by omega)
    rw [rounded]
    exact ⟨value, below, above⟩

/-! ## Integers under the operations -/

section

variable {x : Binary64} {n : Int} (isInteger : x.IsInteger n)

include isInteger

theorem toCount_of_isInteger (small : n ≤ int64Range.2) : x.toCount = max n 0 := by
  cases x with
  | nan => cases isInteger
  | infinite negative => cases isInteger
  | finite negative mantissa exponent =>
      obtain ⟨value, below, above⟩ := isInteger
      cases negative with
      | true => exact (max_eq_right (below rfl)).symm
      | false =>
          have nonneg := above rfl
          have magnitude : (n.natAbs : Int) = n := Int.natAbs_of_nonneg nonneg
          rw [toCount, value, Nat.mul_div_cancel _ (scale_pos _), magnitude, min_eq_right small,
            max_eq_left nonneg]

/-- Adding integers is exact as long as the sum has an exact mantissa. -/
theorem addInt_of_isInteger {m : Int} (small : (n + m).natAbs ≤ mantissaBound) :
    (x.addInt m).IsInteger (n + m) := by
  cases x with
  | nan => cases isInteger
  | infinite negative => cases isInteger
  | finite negative mantissa exponent =>
      obtain ⟨value, below, above⟩ := isInteger
      have numerator : (fraction negative mantissa exponent).1 =
          n * (Nat.pow 2 (-exponent).toNat : Nat) := by
        rw [fraction, value]
        cases negative with
        | true =>
            have magnitude := Int.ofNat_natAbs_of_nonpos (below rfl)
            simp [magnitude]
        | false =>
            have magnitude := Int.natAbs_of_nonneg (above rfl)
            simp [magnitude]
      have sum : (fraction negative mantissa exponent).1 +
          m * (fraction negative mantissa exponent).2 =
            (n + m) * (Nat.pow 2 (-exponent).toNat : Nat) := by
        rw [numerator, Int.add_mul]
        rfl
      have scale : (0 : Int) < (Nat.pow 2 (-exponent).toNat : Nat) :=
        Int.natCast_pos.mpr (scale_pos _)
      have sign : (n + m) * (Nat.pow 2 (-exponent).toNat : Nat) < 0 ↔ n + m < 0 := by
        constructor
        · intro negative
          by_contra nonneg
          exact absurd negative (Int.not_lt.mpr (Int.mul_nonneg (by omega) scale.le))
        · exact fun negative => Int.mul_neg_of_neg_of_pos negative scale
      rw [addInt]
      dsimp only
      rw [sum, Int.natAbs_mul, Int.natAbs_natCast]
      refine isInteger_round (fun negative => ?_) (fun nonneg => ?_) small _
      · exact (sign.mp (of_decide_eq_true negative)).le
      · exact Int.not_lt.mp fun negative => of_decide_eq_false nonneg (sign.mpr negative)

theorem ofBinary64?_of_isInteger (small : n.natAbs < Nat.pow 2 63) :
    Numeral.ofBinary64? x = some (.integer n) := by
  cases x with
  | nan => cases isInteger
  | infinite negative => cases isInteger
  | finite negative mantissa exponent =>
      obtain ⟨value, below, above⟩ := isInteger
      have cut : truncate? (.finite negative mantissa exponent) = some n := by
        rw [truncate?, value, Nat.mul_div_cancel _ (scale_pos _)]
        cases negative with
        | true => simp [Int.ofNat_natAbs_of_nonpos (below rfl)]
        | false => simp [Int.natAbs_of_nonneg (above rfl)]
      have whole : isIntegral (.finite negative mantissa exponent) = true := by
        rw [isIntegral, beq_iff_eq, ← Nat.dvd_iff_mod_eq_zero]
        rcases Int.le_total exponent 0 with low | high
        · have unit : exponent.toNat = 0 := Int.toNat_of_nonpos low
          rw [unit] at value
          exact ⟨n.natAbs, by rw [Nat.mul_comm, ← value]; exact (Nat.mul_one _).symm⟩
        · have unit : (-exponent).toNat = 0 := Int.toNat_of_nonpos (by omega)
          rw [unit]
          exact Nat.one_dvd _
      rw [Numeral.ofBinary64?, cut]
      simp only [whole, decide_eq_true small, Bool.and_self, if_true]

end

end Binary64

/-! ## Reading -/

/-- The integer that a text of digits, after a sign or not, stands for. -/
def wholeNumber? (text : List Char) : Option Int :=
  (readDigits? (splitSign text).2).map fun magnitude : Nat =>
    if (splitSign text).1 then -(magnitude : Int) else magnitude

/-- A number of 64 bits is a whole number in their range. -/
theorem readInt64?_eq (text : List Char) :
    readInt64? text = (wholeNumber? text).filter fun n =>
      Binary64.int64Range.1 ≤ n ∧ n ≤ Binary64.int64Range.2 := by
  rw [readInt64?, wholeNumber?]
  dsimp only
  cases readDigits? (splitSign text).2 with
  | none => rfl
  | some magnitude => simp [Option.filter]

namespace Binary64

theorem ofDecimal_zero (negative : Bool) {significand : Nat} (small : significand ≤ mantissaBound) :
    ofDecimal negative significand 0 =
      round negative (significand * Nat.pow 2 0) (Nat.pow 2 0) := by
  have short : (Nat.toDigits 10 significand).length ≤ 400 :=
    (Nat.length_toDigits_le_iff (by decide) (by decide)).mpr
      (Nat.lt_of_le_of_lt small (by decide +kernel))
  have near : ¬ ((Nat.toDigits 10 significand).length : Int) + 0 > 400 := by omega
  have far : ¬ ((Nat.toDigits 10 significand).length : Int) + 0 < -400 := by omega
  simp only [ofDecimal, if_neg near, if_neg far]
  split
  · rename_i none
    rw [none, round, if_pos rfl]
  · rfl

/-- Digits alone are read as a decimal without exponent. -/
theorem readDecimal?_digits (negative : Bool) {digits : List Char} (present : digits ≠ [])
    (numeric : digits.all Char.isDigit = true) :
    readDecimal? negative digits = some (ofDecimal negative (digitsValue digits) 0) := by
  have taken : digits.takeWhile Char.isDigit = digits :=
    List.takeWhile_eq_self_iff.mpr (List.all_eq_true.mp numeric)
  have dropped : digits.dropWhile Char.isDigit = [] :=
    List.dropWhile_eq_nil_iff.mpr (List.all_eq_true.mp numeric)
  rw [readDecimal?, taken, dropped]
  simp [present, readExponent?]

theorem toLower_of_isDigit {c : Char} (digit : c.isDigit = true) : c.toLower = c := by
  rw [Char.isDigit, Bool.and_eq_true, decide_eq_true_eq, decide_eq_true_eq] at digit
  refine dif_neg fun upper => ?_
  exact absurd (UInt32.le_trans upper.1 digit.2) (by decide)

/-- Digits are no word for an infinity or for no number. -/
theorem read?_of_digits {text : List Char} (present : (splitSign text).2 ≠ [])
    (numeric : (splitSign text).2.all Char.isDigit = true) :
    read? text =
      some (ofDecimal (splitSign text).1 (digitsValue (splitSign text).2) 0) := by
  have noWord : ∀ letter rest, letter.isDigit = false →
      (splitSign text).2.map Char.toLower ≠ letter :: rest := by
    intro letter rest noDigit same
    obtain ⟨c, _, split, lower, _⟩ := List.map_eq_cons_iff.mp same
    have digit : c.isDigit = true := List.all_eq_true.mp numeric c (split ▸ List.mem_cons_self)
    rw [toLower_of_isDigit digit] at lower
    rw [lower, noDigit] at digit
    cases digit
  have finite : ¬ ((splitSign text).2.map Char.toLower = "inf".toList ∨
      (splitSign text).2.map Char.toLower = "infinity".toList) := by
    rintro (same | same)
    · exact noWord 'i' _ (by decide) same
    · exact noWord 'i' _ (by decide) same
  have number : ¬ (splitSign text).2.map Char.toLower = "nan".toList :=
    fun same => noWord 'n' _ (by decide) same
  simp only [read?, if_neg finite, if_neg number]
  exact readDecimal?_digits _ present numeric

/-- A whole number is read, and without loss if it has up to 53 binary digits. -/
theorem exists_read?_of_wholeNumber? {text : List Char} {n : Int}
    (whole : wholeNumber? text = some n) :
    ∃ x, read? text = some x ∧ (n.natAbs ≤ mantissaBound → x.IsInteger n) := by
  rw [wholeNumber?] at whole
  obtain ⟨magnitude, read, signed⟩ := Option.map_eq_some_iff.mp whole
  rw [readDigits?] at read
  split at read
  · rename_i digits
    rw [Bool.and_eq_true, Bool.not_eq_true', List.isEmpty_eq_false_iff] at digits
    refine ⟨_, read?_of_digits digits.1 digits.2, fun small => ?_⟩
    have same : digitsValue (splitSign text).2 = n.natAbs := by
      rw [← signed, Option.some.inj read]
      cases (splitSign text).1 <;> simp
    have below : (splitSign text).1 = true → n ≤ 0 := fun negative => by
      rw [← signed, if_pos negative]
      omega
    have above : (splitSign text).1 = false → 0 ≤ n := fun nonneg => by
      rw [← signed, nonneg]
      exact Int.natCast_nonneg _
    rw [same, ofDecimal_zero _ small]
    exact isInteger_round below above small 0
  · cases read

end Binary64

end ApiDocs
