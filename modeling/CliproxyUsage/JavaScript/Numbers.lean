import CliproxyUsage.Calendar.Digits
import Mathlib.Algebra.Order.Field.Basic
import Mathlib.Data.List.TakeWhile
import Mathlib.Data.Nat.Log
import Mathlib.Data.Rat.Floor

/-! # Numbers and their decimal texts

Numbers are rationals, so `Math.round` and `toFixed` round halves up exactly. What `toFixed` prints of a
nonnegative number reads back as the rounded number.
-/

namespace JavaScript

/-- `Math.round(x)`. -/
def mathRound (x : ℚ) : ℤ := ⌊x + 1 / 2⌋

/-- The decimal digits of a natural number. -/
def decimal (n : ℕ) : List Char := Digits.pad (Nat.log 10 n + 1) n

/-- `x.toFixed(digits)`; the sign stands before the rounded absolute value. -/
def toFixed (digits : ℕ) (x : ℚ) : String :=
  let n := (mathRound (|x| * 10 ^ digits)).toNat
  let fraction := if digits = 0 then [] else '.' :: Digits.pad digits (n % 10 ^ digits)
  String.ofList ((if x < 0 then ['-'] else []) ++ decimal (n / 10 ^ digits) ++ fraction)

/-- The text of a whole number. -/
def integerText (n : ℤ) : String := String.ofList ((if n < 0 then ['-'] else []) ++ decimal n.natAbs)

/-- `Number(text)` of an unsigned decimal literal with digits on both sides of its point, the only kind of text
that it is given; NaN is none. -/
def numberOf (text : String) : Option ℚ :=
  let whole := Digits.value? (text.toList.takeWhile Char.isDigit)
  match text.toList.dropWhile Char.isDigit with
  | [] => whole.map fun v : ℕ => (v : ℚ)
  | '.' :: fraction => do
    let whole ← whole
    let part ← Digits.value? fraction
    some (whole + part / 10 ^ fraction.length)
  | _ => none

/-- The multiple of `1 / 10 ^ digits` that is nearest, the larger one of two. -/
def roundTo (digits : ℕ) (x : ℚ) : ℚ := mathRound (x * 10 ^ digits) / 10 ^ digits

section Rounding

variable {x y : ℚ} {digits : ℕ}

theorem le_mathRound {n : ℤ} : n ≤ mathRound x ↔ n - 1 / 2 ≤ x := by
  rw [mathRound, Int.le_floor, sub_le_iff_le_add]

theorem mathRound_mono (order : x ≤ y) : mathRound x ≤ mathRound y :=
  Int.floor_le_floor (by linarith)

theorem roundTo_mono (digits : ℕ) (order : x ≤ y) : roundTo digits x ≤ roundTo digits y := by
  have positive : (0 : ℚ) < 10 ^ digits := by positivity
  apply div_le_div_of_nonneg_right ?_ positive.le
  exact_mod_cast mathRound_mono (mul_le_mul_of_nonneg_right order positive.le)

/-- Rounding reaches a number of so many digits from half a unit of the last one below it on. -/
theorem le_roundTo {a : ℚ} {n : ℤ} (printed : a * 10 ^ digits = n) :
    a ≤ roundTo digits x ↔ a - 1 / (2 * 10 ^ digits) ≤ x := by
  have positive : (0 : ℚ) < 10 ^ digits := by positivity
  have half : a - 1 / (2 * 10 ^ digits) = (n - 1 / 2) / 10 ^ digits := by
    rw [← printed]
    field_simp
  rw [roundTo, le_div_iff₀ positive, printed, Int.cast_le, le_mathRound, half, div_le_iff₀ positive]

end Rounding

section Texts

variable {x : ℚ} {n : ℕ}

private theorem value?_decimal (n : ℕ) : Digits.value? (decimal n) = some n :=
  Digits.value?_pad (Nat.succ_ne_zero _) (Nat.lt_pow_succ_log_self (by decide) n)

private theorem isDigit_decimal : ∀ c ∈ decimal n, c.isDigit = true := fun _ => Digits.isDigit_of_mem_pad

theorem isDigit_of_mem_integerText {c : Char} (member : c ∈ (integerText n).toList) : c.isDigit = true := by
  rw [integerText, String.toList_ofList, if_neg (by omega), List.nil_append, Int.natAbs_natCast] at member
  exact isDigit_decimal c member

/-- The text of a natural number reads back. -/
theorem numberOf_integerText (n : ℕ) : numberOf (integerText n) = some (n : ℚ) := by
  have sign : ¬(n : ℤ) < 0 := by omega
  have whole : (decimal n).takeWhile Char.isDigit = decimal n := List.takeWhile_eq_self_iff.mpr isDigit_decimal
  have none_ : (decimal n).dropWhile Char.isDigit = [] := List.dropWhile_eq_nil_iff.mpr isDigit_decimal
  simp only [numberOf, integerText, if_neg sign, List.nil_append, Int.natAbs_natCast, String.toList_ofList, whole, none_,
    value?_decimal, Option.map_some]

/-- The text of a rounded number reads back. -/
theorem numberOf_toFixed {digits : ℕ} (some_ : digits ≠ 0) (nonneg : 0 ≤ x) :
    numberOf (toFixed digits x) = some (roundTo digits x) := by
  have positive : 0 < 10 ^ digits := by positivity
  have scaled : 0 ≤ x * 10 ^ digits := by positivity
  have rounded : 0 ≤ mathRound (x * 10 ^ digits) := le_mathRound.mpr (by push_cast; linarith)
  obtain ⟨n, units⟩ := Int.eq_ofNat_of_zero_le rounded
  have part := Digits.value?_pad some_ (Nat.mod_lt n positive)
  have point : (decimal (n / 10 ^ digits) ++ '.' :: Digits.pad digits (n % 10 ^ digits)).takeWhile Char.isDigit =
        decimal (n / 10 ^ digits) ∧
      (decimal (n / 10 ^ digits) ++ '.' :: Digits.pad digits (n % 10 ^ digits)).dropWhile Char.isDigit =
        '.' :: Digits.pad digits (n % 10 ^ digits) := by
    rw [List.takeWhile_append_of_pos isDigit_decimal, List.dropWhile_append_of_pos isDigit_decimal]
    simp
  have whole : ((n / 10 ^ digits : ℕ) : ℚ) + ((n % 10 ^ digits : ℕ) : ℚ) / 10 ^ digits = n / 10 ^ digits := by
    have split := Nat.div_add_mod n (10 ^ digits)
    rw [eq_div_iff (by positivity), add_mul, div_mul_cancel₀ _ (by positivity), mul_comm]
    exact_mod_cast split
  simp only [numberOf, toFixed, abs_of_nonneg nonneg, if_neg (not_lt.mpr nonneg), if_neg some_, List.nil_append, units,
    Int.toNat_natCast, String.toList_ofList, point.1, point.2, value?_decimal, part, Option.bind_eq_bind,
    Option.bind_some, Digits.length_pad, whole, roundTo, Int.cast_natCast]

end Texts

end JavaScript
