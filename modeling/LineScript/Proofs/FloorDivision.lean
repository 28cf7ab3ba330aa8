/-
Integer operators are exact or fail.

A sum, a difference or a product of words is the exact one, or an overflow if that is no word.
Division is less plain. The division of words rounds towards zero, and one test of the signs
corrects its quotient and another one its remainder, by operations on words that could leave the
range in their turn. They do not:

* `roundsDown_corrected`: over the integers, the corrected quotient and the corrected remainder
  are those of the division that rounds down, whose remainder goes with the sign of the divisor;
* `RoundsDown.isWord_quotient` and `RoundsDown.isWord_remainder`: both are words, except for the
  quotient of the least word by minus one;
* `toInt_pred_quotient` and `toInt_remainder_add`: so the corrections of words are those of the
  integers, and nothing wraps around.

`integers_exact_or_fail` puts them together.
-/
import LineScript.Arithmetic
import Mathlib.Data.Rat.Floor
import Mathlib.Tactic.FieldSimp
import Mathlib.Tactic.Linarith

namespace LineScript
namespace Arithmetic

/-! ### Words -/

/-- The integer is a word. -/
def IsWord (n : ℤ) : Prop := -2 ^ 63 ≤ n ∧ n < 2 ^ 63

theorem isWord_toInt (w : Int64) : IsWord w.toInt := ⟨w.le_toInt, w.toInt_lt⟩

theorem fits_iff_isWord {n : ℤ} : Text.fits n = true ↔ IsWord n := by
  have hmax : Int64.maxValue.toInt = 2 ^ 63 - 1 := Int64.toInt_maxValue
  simp only [Text.fits, IsWord, Int64.toInt_minValue, hmax, Bool.and_eq_true, decide_eq_true_eq]
  omega

theorem bmod_of_isWord {n : ℤ} (h : IsWord n) : n.bmod (2 ^ 64) = n := by
  obtain ⟨hlow, hhigh⟩ := h
  refine Int.bmod_eq_of_le ?_ ?_
  · norm_num at hlow ⊢
    exact hlow
  · norm_num at hhigh ⊢
    exact hhigh

theorem toInt_add_of_isWord {a b : Int64} (h : IsWord (a.toInt + b.toInt)) :
    (a + b).toInt = a.toInt + b.toInt := by
  rw [Int64.toInt_add, bmod_of_isWord h]

theorem toInt_sub_of_isWord {a b : Int64} (h : IsWord (a.toInt - b.toInt)) :
    (a - b).toInt = a.toInt - b.toInt := by
  rw [Int64.toInt_sub, bmod_of_isWord h]

/-! ### Sums, differences and products -/

/-- The outcome is the word that has the value, or an overflow of the operator if no word has
it. -/
structure ExactOrOverflow (op : BinaryOp) (n : ℤ) (outcome : Except Cause Value) : Prop where
  value : IsWord n → ∃ w : Int64, w.toInt = n ∧ outcome = .ok (.int w)
  overflow : ¬IsWord n → outcome = .error (.overflow op)

theorem exactOrOverflow_fit (op : BinaryOp) (n : ℤ) :
    ExactOrOverflow op n ((fit op n).map .int) := by
  refine ⟨?_, ?_⟩
  · intro h
    refine ⟨Int64.ofInt n, Int64.toInt_ofInt_of_le h.1 h.2, ?_⟩
    simp [fit, Text.word?, fits_iff_isWord.mpr h, Except.map]
  · intro h
    have hfits : Text.fits n = false := by
      rw [← Bool.not_eq_true]
      exact fun hfits => h (fits_iff_isWord.mp hfits)
    simp [fit, Text.word?, hfits, Except.map]

/-! ### Division over the integers -/

/-- The division with this quotient and this remainder rounds down: the remainder lies between
zero and the divisor. -/
structure RoundsDown (a b q r : ℤ) : Prop where
  division : a = b * q + r
  between : 0 ≤ r ∧ r < b ∨ b < r ∧ r ≤ 0

/-- The quotient rounded towards zero, less one if the division is not exact and the signs
differ. -/
def correctedQuotient (a b : ℤ) : ℤ :=
  if a.tmod b ≠ 0 ∧ ¬(a < 0 ↔ b < 0) then a.tdiv b - 1 else a.tdiv b

/-- The remainder of the division that rounds towards zero, with the divisor added if it has not
the sign of the divisor. -/
def correctedRemainder (a b : ℤ) : ℤ :=
  if a.tmod b ≠ 0 ∧ ¬(a.tmod b < 0 ↔ b < 0) then a.tmod b + b else a.tmod b

theorem tmod_neg_iff {a b : ℤ} (h : a.tmod b ≠ 0) : a.tmod b < 0 ↔ a < 0 := by
  constructor
  · intro hneg
    by_contra ha
    have hnonneg : 0 ≤ a.tmod b := Int.tmod_nonneg b (by omega)
    omega
  · intro ha
    have hneg : 0 ≤ (-a).tmod b := Int.tmod_nonneg b (by omega)
    rw [Int.neg_tmod] at hneg
    omega

theorem tmod_between (a : ℤ) {b : ℤ} (hb : b ≠ 0) :
    b < 0 ∧ b < a.tmod b ∧ a.tmod b < -b ∨ 0 < b ∧ -b < a.tmod b ∧ a.tmod b < b := by
  rcases lt_or_gt_of_ne hb with hneg | hpos
  · have hlow := Int.lt_tmod_of_pos a (Int.neg_pos_of_neg hneg)
    have hhigh := Int.tmod_lt_of_pos a (Int.neg_pos_of_neg hneg)
    rw [Int.tmod_neg] at hlow hhigh
    exact .inl ⟨hneg, by omega, hhigh⟩
  · exact .inr ⟨hpos, Int.lt_tmod_of_pos a hpos, Int.tmod_lt_of_pos a hpos⟩

theorem roundsDown_corrected (a : ℤ) {b : ℤ} (hb : b ≠ 0) :
    RoundsDown a b (correctedQuotient a b) (correctedRemainder a b) := by
  have hdivision : b * a.tdiv b + a.tmod b = a := Int.mul_tdiv_add_tmod a b
  have hbounds := tmod_between a hb
  by_cases hr : a.tmod b = 0
  · have hq : correctedQuotient a b = a.tdiv b := if_neg fun h => h.1 hr
    have hr' : correctedRemainder a b = a.tmod b := if_neg fun h => h.1 hr
    rw [hq, hr']
    exact ⟨hdivision.symm, by omega⟩
  · -- Both tests of signs come to the same: the remainder has the sign of the dividend.
    have hsign := tmod_neg_iff hr
    by_cases hsame : a < 0 ↔ b < 0
    · have hq : correctedQuotient a b = a.tdiv b := if_neg fun h => h.2 hsame
      have hr' : correctedRemainder a b = a.tmod b := if_neg fun h => h.2 (hsign.trans hsame)
      rw [hq, hr']
      exact ⟨hdivision.symm, by omega⟩
    · have hq : correctedQuotient a b = a.tdiv b - 1 := if_pos ⟨hr, hsame⟩
      have hr' : correctedRemainder a b = a.tmod b + b :=
        if_pos ⟨hr, fun h => hsame (hsign.symm.trans h)⟩
      rw [hq, hr']
      refine ⟨?_, by omega⟩
      calc a = b * a.tdiv b + a.tmod b := hdivision.symm
        _ = b * (a.tdiv b - 1) + (a.tmod b + b) := by ring

namespace RoundsDown

variable {a b q r : ℤ}

theorem ne_zero (h : RoundsDown a b q r) : b ≠ 0 := by
  rcases h.between with ⟨hlow, hhigh⟩ | ⟨hlow, hhigh⟩ <;> omega

/-- The quotient is the largest integer that is not greater than the fraction. -/
theorem floor_eq (h : RoundsDown a b q r) : ⌊(a : ℚ) / b⌋ = q := by
  have hb : (b : ℚ) ≠ 0 := Int.cast_ne_zero.mpr h.ne_zero
  have hfraction : (a : ℚ) / b = q + r / b := by
    rw [h.division]
    push_cast
    field_simp
  rw [Int.floor_eq_iff, hfraction]
  rcases h.between with ⟨hlow, hhigh⟩ | ⟨hlow, hhigh⟩
  · have hpos : (0 : ℚ) < b := by exact_mod_cast lt_of_le_of_lt hlow hhigh
    have hnonneg : (0 : ℚ) ≤ r / b := div_nonneg (by exact_mod_cast hlow) hpos.le
    have hless : (r : ℚ) / b < 1 := (div_lt_one hpos).mpr (by exact_mod_cast hhigh)
    constructor <;> linarith
  · have hneg : (b : ℚ) < 0 := by exact_mod_cast lt_of_lt_of_le hlow hhigh
    have hnonneg : (0 : ℚ) ≤ r / b := div_nonneg_of_nonpos (by exact_mod_cast hhigh) hneg.le
    have hless : (r : ℚ) / b < 1 := (div_lt_one_of_neg hneg).mpr (by exact_mod_cast hlow)
    constructor <;> linarith

theorem sign_eq (h : RoundsDown a b q r) (hr : r ≠ 0) : r.sign = b.sign := by
  rcases h.between with ⟨hlow, hhigh⟩ | ⟨hlow, hhigh⟩
  · rw [Int.sign_eq_one_of_pos (by omega), Int.sign_eq_one_of_pos (by omega)]
  · rw [Int.sign_eq_neg_one_of_neg (by omega), Int.sign_eq_neg_one_of_neg (by omega)]

theorem abs_lt (h : RoundsDown a b q r) : |r| < |b| := by
  rcases h.between with ⟨hlow, hhigh⟩ | ⟨hlow, hhigh⟩
  · rw [abs_of_nonneg hlow, abs_of_nonneg (by omega)]
    exact hhigh
  · rw [abs_of_nonpos hhigh, abs_of_neg (by omega)]
    omega

theorem isWord_remainder (h : RoundsDown a b q r) (hb : IsWord b) : IsWord r := by
  obtain ⟨hlow, hhigh⟩ := hb
  rcases h.between with hr | hr
  · exact ⟨by omega, by omega⟩
  · exact ⟨by omega, by omega⟩

/-- Only the quotient of the least word by minus one is no word. -/
theorem isWord_quotient (h : RoundsDown a b q r) (ha : IsWord a) (hne : ¬(a = -2 ^ 63 ∧ b = -1)) :
    IsWord q := by
  obtain ⟨hlow, hhigh⟩ := ha
  have hdivision : a = b * q + r := h.division
  have hnext : b * (q + 1) = b * q + b := by ring
  -- Otherwise the product with the divisor, and so the dividend, would be out of range too.
  constructor
  · by_contra hq
    rcases h.between with ⟨hr, hrb⟩ | ⟨hbr, hr⟩
    · have hproduct : b * (q + 1) ≤ q + 1 := by nlinarith
      omega
    · have hproduct : -(q + 1) ≤ b * (q + 1) := by nlinarith
      omega
  · by_contra hq
    rcases h.between with ⟨hr, hrb⟩ | ⟨hbr, hr⟩
    · have hproduct : q ≤ b * q := by nlinarith
      omega
    · by_cases hb : b = -1
      · subst hb
        omega
      · have hless : b ≤ -2 := by omega
        have hproduct : b * q ≤ -2 * q := by nlinarith
        omega

end RoundsDown

/-! ### Division of words -/

variable {a b q : Int64}

theorem toInt_ne_zero (hb : b ≠ 0) : b.toInt ≠ 0 := by
  intro h
  exact hb (Int64.toInt_inj.mp h)

theorem lt_zero_iff : a < 0 ↔ a.toInt < 0 := Int64.lt_iff_toInt_lt

theorem not_least_by_minus_one (h : ¬(a = Int64.minValue ∧ b = -1)) :
    ¬(a.toInt = -2 ^ 63 ∧ b.toInt = -1) := by
  rintro ⟨ha, hb⟩
  exact h ⟨Int64.toInt_inj.mp ha, Int64.toInt_inj.mp hb⟩

theorem quotient?_eq_none_iff : quotient? a b = none ↔ b = 0 ∨ a = Int64.minValue ∧ b = -1 := by
  simp [quotient?, or_iff_not_imp_left]

/-- Where there is a quotient, the division of words is that of the integers, and there is a
remainder. -/
theorem exact_of_quotient? (h : quotient? a b = some q) :
    q.toInt = a.toInt.tdiv b.toInt ∧ remainder? a b = some (a % b) ∧ b ≠ 0 ∧
      ¬(a = Int64.minValue ∧ b = -1) := by
  rw [quotient?] at h
  split at h
  · cases h
  · next hne =>
    obtain ⟨hb, hleast⟩ := not_or.mp hne
    cases h
    refine ⟨?_, if_neg hne, hb, hleast⟩
    by_cases ha : a = Int64.minValue
    · exact Int64.toInt_div_of_ne_right a b fun hb => hleast ⟨ha, hb⟩
    · exact Int64.toInt_div_of_ne_left a b ha

theorem mod_ne_zero_iff : a % b ≠ 0 ↔ a.toInt.tmod b.toInt ≠ 0 := by
  rw [← Int64.toInt_mod]
  exact not_congr Int64.toInt_inj.symm

/-- The quotient is corrected under the same condition as over the integers. -/
theorem corrects_quotient_iff :
    a % b ≠ 0 ∧ ¬(a < 0 ↔ b < 0) ↔
      a.toInt.tmod b.toInt ≠ 0 ∧ ¬(a.toInt < 0 ↔ b.toInt < 0) := by
  rw [mod_ne_zero_iff, lt_zero_iff, lt_zero_iff]

/-- One less than a quotient that has to be corrected is a word. -/
theorem toInt_pred_quotient (h : quotient? a b = some q)
    (hcorrects : a % b ≠ 0 ∧ ¬(a < 0 ↔ b < 0)) : (q - 1).toInt = q.toInt - 1 := by
  obtain ⟨hq, -, hb, hleast⟩ := exact_of_quotient? h
  have hcorrected : correctedQuotient a.toInt b.toInt = q.toInt - 1 := by
    rw [hq]
    exact if_pos (corrects_quotient_iff.mp hcorrects)
  refine toInt_sub_of_isWord ?_
  show IsWord (q.toInt - 1)
  rw [← hcorrected]
  exact (roundsDown_corrected _ (toInt_ne_zero hb)).isWord_quotient (isWord_toInt a)
    (not_least_by_minus_one hleast)

theorem floorDiv_zero (a : Int64) : floorDiv a 0 = .error .divisionByZero := if_pos rfl

theorem floorDiv_least : floorDiv Int64.minValue (-1) = .error (.overflow .div) := by
  simp [floorDiv, quotient?]

theorem floorDiv_of_quotient? (h : quotient? a b = some q) :
    ∃ q' : Int64, floorDiv a b = .ok q' ∧ q'.toInt = correctedQuotient a.toInt b.toInt := by
  obtain ⟨hq, -, hb, -⟩ := exact_of_quotient? h
  refine ⟨_, by rw [floorDiv, if_neg hb, h], ?_⟩
  rw [correctedQuotient, ← hq]
  by_cases hcorrects : a % b ≠ 0 ∧ ¬(a < 0 ↔ b < 0)
  · rw [if_pos hcorrects, if_pos (corrects_quotient_iff.mp hcorrects)]
    exact toInt_pred_quotient h hcorrects
  · rw [if_neg hcorrects, if_neg fun h' => hcorrects (corrects_quotient_iff.mpr h')]

/-! ### Remainders of words -/

/-- The remainder of the division that rounds towards zero is exact for every divisor but zero. -/
theorem toInt_remainder? (hb : b ≠ 0) :
    ((remainder? a b).getD 0).toInt = a.toInt.tmod b.toInt := by
  rw [remainder?]
  split
  · next h =>
    rcases h with hzero | ⟨rfl, rfl⟩
    · exact absurd hzero hb
    · rfl
  · exact Int64.toInt_mod a b

theorem corrects_remainder_iff (hb : b ≠ 0) :
    (remainder? a b).getD 0 ≠ 0 ∧ ¬((remainder? a b).getD 0 < 0 ↔ b < 0) ↔
      a.toInt.tmod b.toInt ≠ 0 ∧ ¬(a.toInt.tmod b.toInt < 0 ↔ b.toInt < 0) := by
  rw [lt_zero_iff, lt_zero_iff, toInt_remainder? hb, ← toInt_remainder? hb]
  refine and_congr_left fun _ => ?_
  exact not_congr Int64.toInt_inj.symm

/-- A remainder that has to be corrected is a word with the divisor added. -/
theorem toInt_remainder_add (hb : b ≠ 0)
    (hcorrects : (remainder? a b).getD 0 ≠ 0 ∧ ¬((remainder? a b).getD 0 < 0 ↔ b < 0)) :
    ((remainder? a b).getD 0 + b).toInt = ((remainder? a b).getD 0).toInt + b.toInt := by
  have hcorrected : correctedRemainder a.toInt b.toInt =
      ((remainder? a b).getD 0).toInt + b.toInt := by
    rw [toInt_remainder? hb]
    exact if_pos ((corrects_remainder_iff hb).mp hcorrects)
  refine toInt_add_of_isWord ?_
  rw [← hcorrected]
  exact (roundsDown_corrected _ (toInt_ne_zero hb)).isWord_remainder (isWord_toInt b)

theorem floorRem_zero (a : Int64) : floorRem a 0 = .error .divisionByZero := if_pos rfl

theorem floorRem_of_ne_zero (hb : b ≠ 0) :
    ∃ r : Int64, floorRem a b = .ok r ∧ r.toInt = correctedRemainder a.toInt b.toInt := by
  refine ⟨_, if_neg hb, ?_⟩
  rw [correctedRemainder]
  by_cases hcorrects : (remainder? a b).getD 0 ≠ 0 ∧ ¬((remainder? a b).getD 0 < 0 ↔ b < 0)
  · rw [if_pos hcorrects, if_pos ((corrects_remainder_iff hb).mp hcorrects),
      toInt_remainder_add hb hcorrects, toInt_remainder? hb]
  · rw [if_neg hcorrects, if_neg fun h => hcorrects ((corrects_remainder_iff hb).mpr h),
      toInt_remainder? hb]

/-! ### All integer operators -/

theorem floorDiv_eq_divisionByZero_iff : floorDiv a b = .error .divisionByZero ↔ b = 0 := by
  constructor
  · intro h
    by_contra hb
    rw [floorDiv, if_neg hb] at h
    split at h <;> simp at h
  · rintro rfl
    exact floorDiv_zero a

theorem floorDiv_eq_overflow_iff :
    floorDiv a b = .error (.overflow .div) ↔ a = Int64.minValue ∧ b = -1 := by
  constructor
  · intro h
    by_cases hb : b = 0
    · subst hb
      simp [floorDiv_zero] at h
    · cases hq : quotient? a b with
      | none => exact (quotient?_eq_none_iff.mp hq).resolve_left hb
      | some q =>
        obtain ⟨q', hok, -⟩ := floorDiv_of_quotient? hq
        simp [hok] at h
  · rintro ⟨rfl, rfl⟩
    exact floorDiv_least

theorem exists_quotient? (hb : b ≠ 0) (hleast : ¬(a = Int64.minValue ∧ b = -1)) :
    ∃ q, quotient? a b = some q :=
  ⟨a / b, if_neg (not_or.mpr ⟨hb, hleast⟩)⟩

/-- The quotient is the fraction rounded down. -/
theorem exists_floorDiv (hb : b ≠ 0) (hleast : ¬(a = Int64.minValue ∧ b = -1)) :
    ∃ q : Int64, floorDiv a b = .ok q ∧ q.toInt = ⌊(a.toInt : ℚ) / b.toInt⌋ := by
  obtain ⟨q, hq⟩ := exists_quotient? hb hleast
  obtain ⟨q', hok, hvalue⟩ := floorDiv_of_quotient? hq
  refine ⟨q', hok, ?_⟩
  rw [hvalue, (roundsDown_corrected _ (toInt_ne_zero hb)).floor_eq]

/-- The remainder is what the quotient rounded down leaves, and it goes with the divisor. -/
theorem exists_floorRem (hb : b ≠ 0) :
    ∃ r : Int64, floorRem a b = .ok r ∧
      a.toInt = b.toInt * ⌊(a.toInt : ℚ) / b.toInt⌋ + r.toInt ∧
      (r = 0 ∨ r.toInt.sign = b.toInt.sign) ∧ |r.toInt| < |b.toInt| ∧
      (a = Int64.minValue ∧ b = -1 → r = 0) := by
  obtain ⟨r, hok, hvalue⟩ := floorRem_of_ne_zero (a := a) hb
  have hdown := roundsDown_corrected a.toInt (toInt_ne_zero hb)
  rw [← hvalue] at hdown
  refine ⟨r, hok, ?_, ?_, hdown.abs_lt, ?_⟩
  · rw [hdown.floor_eq]
    exact hdown.division
  · by_cases hr : r = 0
    · exact .inl hr
    · exact .inr (hdown.sign_eq (toInt_ne_zero hr))
  · rintro ⟨rfl, rfl⟩
    exact Int64.toInt_inj.mp hvalue

/-- Integer operators are exact or fail. A sum, a difference or a product is the exact one if that
is a word, and an overflow if it is not. A quotient is the fraction rounded down; there is none by
zero, and there is an overflow for the least word by minus one only. A remainder is what this
quotient leaves, and fails for the divisor zero only. On the way no operation on words leaves
their range: wherever the quotient is found, so is the remainder that it is tested with, and both
corrections are exact. -/
theorem integers_exact_or_fail (a b : Int64) :
    (ExactOrOverflow .add (a.toInt + b.toInt) (binary .add (.int a) (.int b)) ∧
      ExactOrOverflow .sub (a.toInt - b.toInt) (binary .sub (.int a) (.int b)) ∧
      ExactOrOverflow .mul (a.toInt * b.toInt) (binary .mul (.int a) (.int b))) ∧
    (binary .div (.int a) (.int b) = (floorDiv a b).map .int ∧
      (floorDiv a b = .error .divisionByZero ↔ b = 0) ∧
      (floorDiv a b = .error (.overflow .div) ↔ a = Int64.minValue ∧ b = -1) ∧
      (b ≠ 0 → ¬(a = Int64.minValue ∧ b = -1) →
        ∃ q : Int64, floorDiv a b = .ok q ∧ q.toInt = ⌊(a.toInt : ℚ) / b.toInt⌋)) ∧
    (binary .rem (.int a) (.int b) = (floorRem a b).map .int ∧
      (b = 0 → floorRem a b = .error .divisionByZero) ∧
      (b ≠ 0 → ∃ r : Int64, floorRem a b = .ok r ∧
        a.toInt = b.toInt * ⌊(a.toInt : ℚ) / b.toInt⌋ + r.toInt ∧
        (r = 0 ∨ r.toInt.sign = b.toInt.sign) ∧ |r.toInt| < |b.toInt| ∧
        (a = Int64.minValue ∧ b = -1 → r = 0))) ∧
    (∀ q, quotient? a b = some q →
      q.toInt = a.toInt.tdiv b.toInt ∧ remainder? a b = some (a % b) ∧
      (a % b).toInt = a.toInt.tmod b.toInt ∧
      (a % b ≠ 0 ∧ ¬(a < 0 ↔ b < 0) → (q - 1).toInt = q.toInt - 1)) ∧
    (∀ r, r = (remainder? a b).getD 0 → b ≠ 0 →
      r.toInt = a.toInt.tmod b.toInt ∧
      (r ≠ 0 ∧ ¬(r < 0 ↔ b < 0) → (r + b).toInt = r.toInt + b.toInt)) := by
  refine ⟨⟨exactOrOverflow_fit _ _, exactOrOverflow_fit _ _, exactOrOverflow_fit _ _⟩,
    ⟨rfl, floorDiv_eq_divisionByZero_iff, floorDiv_eq_overflow_iff, exists_floorDiv⟩,
    ⟨rfl, ?_, exists_floorRem⟩, ?_, ?_⟩
  · rintro rfl
    exact floorRem_zero a
  · intro q hq
    obtain ⟨hexact, hremainder, -⟩ := exact_of_quotient? hq
    exact ⟨hexact, hremainder, Int64.toInt_mod a b, toInt_pred_quotient hq⟩
  · rintro r rfl hb
    exact ⟨toInt_remainder? hb, toInt_remainder_add hb⟩

/-- Minus seven by two is minus four and leaves one. The least word by minus one has no quotient,
but it has the remainder zero. -/
theorem integers_exact_or_fail_corners :
    (∃ q : Int64, floorDiv (-7) 2 = .ok q ∧ q.toInt = -4) ∧
    (∃ r : Int64, floorRem (-7) 2 = .ok r ∧ -7 = 2 * (-4) + r.toInt) ∧
    binary .add (.int Int64.maxValue) (.int 1) = .error (.overflow .add) ∧
    floorDiv Int64.minValue (-1) = .error (.overflow .div) ∧
    floorRem Int64.minValue (-1) = .ok 0 := by
  obtain ⟨-, ⟨-, -, -, hquotient⟩, ⟨-, -, hremainder⟩, -⟩ := integers_exact_or_fail (-7) 2
  obtain ⟨⟨hsum, -⟩, -⟩ := integers_exact_or_fail Int64.maxValue 1
  obtain ⟨-, ⟨-, -, hoverflow, -⟩, ⟨-, -, hleast⟩, -⟩ := integers_exact_or_fail Int64.minValue (-1)
  have hfloor : ⌊(((-7 : Int64).toInt : ℤ) : ℚ) / ((2 : Int64).toInt : ℤ)⌋ = -4 := by
    rw [Int.floor_eq_iff]
    have h7 : (-7 : Int64).toInt = -7 := rfl
    have h2 : (2 : Int64).toInt = 2 := rfl
    rw [h7, h2]
    norm_num
  refine ⟨?_, ?_, ?_, ?_, ?_⟩
  · obtain ⟨q, hok, hvalue⟩ := hquotient (by decide) (by decide)
    exact ⟨q, hok, hvalue.trans hfloor⟩
  · obtain ⟨r, hok, hvalue, -⟩ := hremainder (by decide)
    rw [hfloor] at hvalue
    exact ⟨r, hok, hvalue⟩
  · refine hsum.overflow ?_
    rintro ⟨-, hless⟩
    exact absurd hless (by decide)
  · exact hoverflow.mpr ⟨rfl, rfl⟩
  · obtain ⟨r, hok, -, -, -, hzero⟩ := hleast (by decide)
    rw [hok, hzero ⟨rfl, rfl⟩]

end Arithmetic
end LineScript
