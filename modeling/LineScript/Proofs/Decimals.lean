/-
Numbers and their decimal texts.

`Denotes` says what integer a row of digits stands for, with or without a minus sign. Reading goes
from left to right and looks at the range after each digit. The number only grows away from zero
on the way, so a number that leaves the range at some digit is out of range at the last one, too:

* `readDecimal_of_denotes`: digits are read as the integer they denote, if that is a word, and
  refused as out of range otherwise;
* `denotes_decimal`: the decimal text of a word denotes the word.

So a word is read back from its text (`readDecimal_decimal`).
-/
import LineScript.Proofs.FloorDivision

namespace LineScript.Text
open Arithmetic (IsWord fits_iff_isWord isWord_toInt)

variable {cs : List Char} {c : Char} {negative : Bool} {m n : Nat} {z : ℤ}

/-- The text is written in digits, perhaps with a minus sign before them, and denotes the
integer. -/
inductive Denotes : List Char → ℤ → Prop
  | positive {cs : List Char} (hne : cs ≠ []) (hdigits : ∀ c ∈ cs, c.isDigit = true) :
    Denotes cs (Nat.ofDigitChars 10 cs 0)
  | negative {cs : List Char} (hne : cs ≠ []) (hdigits : ∀ c ∈ cs, c.isDigit = true) :
    Denotes ('-' :: cs) (-(Nat.ofDigitChars 10 cs 0))

/-! ### Reading digits -/

/-- The integer that is so far away from zero. -/
def signed (negative : Bool) (m : Nat) : ℤ := if negative then -m else m

/-- What is nearer to zero than a word is a word. -/
theorem isWord_signed_of_le (hle : m ≤ n) (h : IsWord (signed negative n)) :
    IsWord (signed negative m) := by
  cases negative <;> simp only [IsWord, signed, if_true, if_false, Bool.false_eq_true] at h ⊢ <;>
    omega

/-- More digits do not lead back to zero. -/
theorem le_ofDigitChars (cs : List Char) (m : Nat) : m ≤ Nat.ofDigitChars 10 cs m := by
  rw [Nat.ofDigitChars_eq_ofDigitChars_zero]
  have hpow : m ≤ 10 ^ cs.length * m := Nat.le_mul_of_pos_left m (by positivity)
  omega

theorem signed_digit (negative : Bool) (m d : Nat) :
    (if negative then signed negative m * 10 - d else signed negative m * 10 + d) =
      signed negative (10 * m + d) := by
  cases negative <;> simp only [signed, if_true, if_false, Bool.false_eq_true] <;> push_cast <;> ring

theorem readDigits_eq (hdigits : ∀ c ∈ cs, c.isDigit = true)
    (hm : IsWord (signed negative m)) :
    readDigits negative (signed negative m) cs =
      if fits (signed negative (Nat.ofDigitChars 10 cs m)) then
        .ok (signed negative (Nat.ofDigitChars 10 cs m)) else .error .outOfRange := by
  induction cs generalizing m with
  | nil => simp [readDigits, Nat.ofDigitChars, fits_iff_isWord.mpr hm]
  | cons c cs ih =>
    obtain ⟨hc, hcs⟩ := List.forall_mem_cons.mp hdigits
    simp only [readDigits, digit?, hc, if_true, signed_digit, Nat.ofDigitChars_cons]
    split
    · next hfits => exact ih hcs (fits_iff_isWord.mp hfits)
    · next hfits =>
      -- The range is left for good.
      rw [if_neg]
      intro hlast
      refine hfits (fits_iff_isWord.mpr (isWord_signed_of_le ?_ (fits_iff_isWord.mp hlast)))
      exact le_ofDigitChars cs _

theorem readMagnitude_eq (hne : cs ≠ []) (hdigits : ∀ c ∈ cs, c.isDigit = true) :
    readMagnitude negative cs =
      if fits (signed negative (Nat.ofDigitChars 10 cs 0)) then
        .ok (Int64.ofInt (signed negative (Nat.ofDigitChars 10 cs 0))) else .error .outOfRange := by
  match cs, hne with
  | c :: cs, _ =>
    have hzero : signed negative 0 = 0 := by cases negative <;> rfl
    have hword : IsWord (signed negative 0) := hzero ▸ isWord_toInt 0
    have hread := readDigits_eq hdigits hword
    rw [hzero] at hread
    rw [readMagnitude, hread]
    split <;> rfl

/-- Digits are read as the integer they denote, or refused if it is no word. -/
theorem readDecimal_of_denotes (h : Denotes cs z) :
    readDecimal cs = if fits z then .ok (Int64.ofInt z) else .error .outOfRange := by
  cases h with
  | positive hne hdigits =>
    rw [readDecimal.eq_def]
    split
    · exact absurd (hdigits '-' List.mem_cons_self) (by decide)
    · exact absurd (hdigits '+' List.mem_cons_self) (by decide)
    · exact readMagnitude_eq hne hdigits
  | negative hne hdigits => exact readMagnitude_eq hne hdigits

/-! ### The text of a word -/

theorem fits_toInt (n : Int64) : fits n.toInt = true := fits_iff_isWord.mpr (isWord_toInt n)

theorem denotes_decimal (n : Int64) : Denotes (decimal n).toList n.toInt := by
  have hdigits : ∀ m : Nat, ∀ c ∈ Nat.toDigits 10 m, c.isDigit = true := fun m c hc =>
    Nat.isDigit_of_mem_toDigits (by decide) (by decide) hc
  rw [decimal]
  split
  · next m hm =>
    have hvalue := Denotes.positive Nat.toDigits_ne_nil (hdigits m)
    rw [Nat.ofDigitChars_ten_toDigits] at hvalue
    rw [hm, String.toList_ofList]
    exact hvalue
  · next m hm =>
    have hvalue := Denotes.negative Nat.toDigits_ne_nil (hdigits (m + 1))
    rw [Nat.ofDigitChars_ten_toDigits] at hvalue
    rw [hm, String.toList_ofList, Int.negSucc_eq]
    exact hvalue

theorem readDecimal_decimal (n : Int64) : readDecimal (decimal n).toList = .ok n := by
  rw [readDecimal_of_denotes (denotes_decimal n), if_pos (fits_toInt n), Int64.ofInt_toInt]

end LineScript.Text
