import CliproxyUsage.Frontend.Format
import Mathlib.Tactic.IntervalCases

/-! # Compact numbers keep their order

A printed number is a mantissa and a unit. The loop settles on the first unit whose mantissa rounds below a
thousand, so a larger number never has a smaller unit, and a mantissa that carries over starts the next unit at one.
-/

namespace CliproxyUsage.Frontend

open JavaScript

/-- A printed number, read back. -/
structure Reading where
  mantissa : ℚ
  div : ℚ
deriving DecidableEq, Repr

def Reading.value (r : Reading) : ℚ := r.mantissa * r.div

/-- The number before the unit of a text, and that unit. -/
def readCompact (text : String) : Option Reading :=
  match compactUnits.find? fun unit => text.toList.getLast? = some unit.suffix with
  | some unit => (numberOf (String.ofList text.toList.dropLast)).map fun mantissa => ⟨mantissa, unit.div⟩
  | none => (numberOf text).map fun mantissa => ⟨mantissa, 1⟩

/-- What `scaled` prints. -/
def scaledValue (x : ℚ) : ℚ := if 10 ≤ roundTo 2 x then roundTo 1 x else roundTo 2 x

section Scaled

variable {x y : ℚ}

private theorem numberOf_scaled (nonneg : 0 ≤ x) : numberOf (scaled x) = some (scaledValue x) := by
  have two : numberOf (toFixed 2 x) = some (roundTo 2 x) := numberOf_toFixed (by decide) nonneg
  rw [scaled, scaledValue, two, Option.any_some]
  by_cases carried : 10 ≤ roundTo 2 x
  · rw [if_pos (decide_eq_true carried), if_pos carried]
    exact numberOf_toFixed (by decide) nonneg
  · rw [if_neg (by simpa using carried), if_neg carried, two]

/-- From a ten that `toFixed(2)` prints on, `toFixed(1)` prints at least that ten. -/
private theorem ten_le_roundTo_one (carried : 10 ≤ roundTo 2 x) : 10 ≤ roundTo 1 x := by
  rw [le_roundTo (n := 1000) (by norm_num)] at carried
  rw [le_roundTo (n := 100) (by norm_num)]
  norm_num at carried ⊢
  linarith

/-- The two precisions agree in order where one takes over. -/
private theorem scaledValue_mono (order : x ≤ y) : scaledValue x ≤ scaledValue y := by
  have two := roundTo_mono 2 order
  have one := roundTo_mono 1 order
  rw [scaledValue, scaledValue]
  split
  · next carried => rwa [if_pos (carried.trans two)]
  · next under =>
    split
    · next carried => exact (not_le.mp under).le.trans (ten_le_roundTo_one carried)
    · exact two

/-- A mantissa of at least one is printed from just below one on. -/
private theorem one_le_scaledValue (least : 199 / 200 ≤ x) : 1 ≤ scaledValue x := by
  rw [scaledValue]
  split
  · next carried => exact le_trans (by norm_num) (ten_le_roundTo_one carried)
  · rw [le_roundTo (n := 100) (by norm_num)]
    norm_num
    exact least

/-- A mantissa reaches a thousand where one decimal rounds up to it. -/
private theorem thousand_le_scaledValue : 1000 ≤ scaledValue x ↔ 19999 / 20 ≤ x := by
  have one := @le_roundTo x 1 1000 10000 (by norm_num)
  norm_num at one
  rw [scaledValue]
  split
  · exact one
  · next under =>
    have small : x < 1999 / 200 := by
      rw [le_roundTo (n := 1000) (by norm_num), not_le] at under
      norm_num at under
      exact under
    exact ⟨fun reached => absurd reached (by linarith), fun past => absurd past (by linarith)⟩

end Scaled

section Units

variable {v w : ℚ}

/-- The mantissa of a number in the unit at a position. -/
def mantissa (v : ℚ) (i : ℕ) : ℚ := scaledValue (v / 1000 ^ (i + 1))

/-- A unit fits when its mantissa rounds below a thousand, but for the last one, and no smaller unit fits. -/
structure Fits (v : ℚ) (i : ℕ) : Prop where
  last : i ≤ 2
  below : ∀ k < i, 1000 ≤ mantissa v k
  under : mantissa v i < 1000 ∨ i = 2

private theorem mantissa_mono (order : v ≤ w) (i : ℕ) : mantissa v i ≤ mantissa w i := by
  apply scaledValue_mono
  exact div_le_div_of_nonneg_right order (by positivity)

/-- Where a mantissa carries over, the next one starts at one. -/
private theorem one_le_mantissa_succ {i : ℕ} (carried : 1000 ≤ mantissa v i) : 1 ≤ mantissa v (i + 1) := by
  rw [mantissa, thousand_le_scaledValue] at carried
  apply one_le_scaledValue
  rw [pow_succ (1000 : ℚ) (i + 1), ← div_div, le_div_iff₀ (by norm_num)]
  linarith

/-- From 999.5 on, every unit up to the one that fits has a mantissa of at least one. -/
private theorem Fits.one_le {i : ℕ} (fits : Fits v i) (large : 1000 ≤ mathRound v) : 1 ≤ mantissa v i := by
  cases i with
  | zero =>
    rw [le_mathRound] at large
    push_cast at large
    apply one_le_scaledValue
    rw [zero_add, pow_one, le_div_iff₀ (by norm_num)]
    linarith
  | succ k => exact one_le_mantissa_succ (fits.below k (Nat.lt_succ_self k))

/-- The unit at a position, when there is one. -/
private theorem compactUnits_get {i : ℕ} (last : i ≤ 2) :
    ∃ unit, compactUnits[i]? = some unit ∧ unit.div = 1000 ^ (i + 1) := by
  interval_cases i
  · exact ⟨_, rfl, by norm_num⟩
  · exact ⟨_, rfl, by norm_num⟩
  · exact ⟨_, rfl, by norm_num⟩

/-- From a unit below which none fits, the loop ends with the one that fits. -/
private theorem compactFrom_eq {sign : String} (nonneg : 0 ≤ v) {fuel i : ℕ} (last : i ≤ 2) (enough : 3 - i ≤ fuel)
    (below : ∀ k < i, 1000 ≤ mantissa v k) : ∃ j unit, Fits v j ∧ compactUnits[j]? = some unit ∧
      compactFrom sign v fuel i = some (sign ++ (scaled (v / unit.div)).push unit.suffix) := by
  induction fuel generalizing i with
  | zero => omega
  | succ fuel ih =>
    obtain ⟨unit, here, div⟩ := compactUnits_get last
    have read : numberOf (scaled (v / unit.div)) = some (mantissa v i) := by
      rw [div]
      exact numberOf_scaled (by positivity)
    rw [compactFrom, here]
    simp only [Option.bind_eq_bind, Option.bind_some, read, Option.any_some]
    by_cases under : mantissa v i < 1000 ∨ i = 2
    · refine ⟨i, unit, ⟨last, below, under⟩, here, ?_⟩
      rw [if_pos]
      simpa [compactUnits] using under
    · rw [if_neg (by simpa [compactUnits] using under)]
      rw [not_or, not_lt] at under
      apply ih (by omega) (by omega)
      intro k inside
      rcases Nat.lt_succ_iff_lt_or_eq.mp inside with less | rfl
      · exact below k less
      · exact under.1

/-- The units below the largest one that a number reaches do not fit it. -/
private theorem start_below (v : ℚ) : ∃ i ≤ 2,
    (findLastIndex (fun unit => unit.div ≤ v) compactUnits).getD 0 = i ∧ ∀ k < i, 1000 ≤ mantissa v k := by
  cases found : findLastIndex (fun unit => decide (unit.div ≤ v)) compactUnits with
  | none => exact ⟨0, by decide, rfl, fun k none_ => absurd none_ (Nat.not_lt_zero k)⟩
  | some i =>
    obtain ⟨inside, reached⟩ := List.mem_filter.mp (List.mem_of_getLast? found)
    have last : i ≤ 2 := Nat.le_of_lt_succ (List.mem_range.mp inside)
    obtain ⟨unit, here, div⟩ := compactUnits_get last
    rw [here, Option.any_some, decide_eq_true_eq, div] at reached
    refine ⟨i, last, rfl, fun k less => thousand_le_scaledValue.mpr ?_⟩
    rw [le_div_iff₀ (by positivity)]
    have power : (1000 : ℚ) ^ (k + 1 + 1) ≤ 1000 ^ (i + 1) := pow_le_pow_right₀ (by norm_num) (by omega)
    have positive : (0 : ℚ) < 1000 ^ (k + 1) := by positivity
    rw [pow_succ (1000 : ℚ) (k + 1)] at power
    linarith

private theorem readCompact_push {unit : CompactUnit} {i : ℕ} (here : compactUnits[i]? = some unit) (text : String) :
    readCompact (text.push unit.suffix) = (numberOf text).map fun number => ⟨number, unit.div⟩ := by
  have listed : compactUnits.find? (fun other => unit.suffix = other.suffix) = some unit := by
    have member := List.mem_of_getElem? here
    simp only [compactUnits, List.mem_cons, List.not_mem_nil, or_false] at member
    rcases member with rfl | rfl | rfl <;> rfl
  rw [readCompact]
  simp only [String.toList_push, List.getLast?_concat, Option.some.injEq, List.dropLast_concat, String.ofList_toList,
    listed]

private theorem readCompact_integerText (n : ℕ) : readCompact (integerText n) = some ⟨n, 1⟩ := by
  have unitless : compactUnits.find? (fun unit => (integerText n).toList.getLast? = some unit.suffix) = none := by
    rw [List.find?_eq_none]
    intro unit member ends
    rw [decide_eq_true_eq] at ends
    have digit := isDigit_of_mem_integerText (List.mem_of_getLast? ends)
    simp only [compactUnits, List.mem_cons, List.not_mem_nil, or_false] at member
    rcases member with rfl | rfl | rfl <;> exact absurd digit (by decide)
  rw [readCompact, unitless, numberOf_integerText, Option.map_some]

/-- What a nonnegative number reads back as: rounded below a thousand, and else its mantissa in the unit that fits. -/
private theorem reading_cases (nonneg : 0 ≤ v) :
    (mathRound v < 1000 ∧ (fmtCompact v).bind readCompact = some ⟨mathRound v, 1⟩) ∨
      1000 ≤ mathRound v ∧ ∃ i, Fits v i ∧ (fmtCompact v).bind readCompact = some ⟨mantissa v i, 1000 ^ (i + 1)⟩ := by
  have sign : ¬v < 0 := not_lt.mpr nonneg
  rw [fmtCompact, abs_of_nonneg nonneg]
  by_cases small : mathRound v < 1000
  · obtain ⟨n, rounded⟩ := Int.eq_ofNat_of_zero_le (le_mathRound.mpr (by push_cast; linarith) : 0 ≤ mathRound v)
    refine .inl ⟨small, ?_⟩
    rw [if_pos small, Option.bind_some, rounded, readCompact_integerText, Int.cast_natCast]
  · obtain ⟨start, last, found, below⟩ := start_below v
    obtain ⟨i, unit, fits, here, printed⟩ := @compactFrom_eq v "" nonneg 3 start last (by omega) below
    obtain ⟨_, there, div⟩ := compactUnits_get fits.last
    rw [here, Option.some.injEq] at there
    subst there
    refine .inr ⟨not_lt.mp small, i, fits, ?_⟩
    rw [if_neg small]
    simp only [if_neg sign, found, show compactUnits.length = 3 from rfl, printed, Option.bind_some, String.empty_append]
    rw [readCompact_push here, div, numberOf_scaled (by positivity)]
    rfl

end Units

variable {v w : ℚ}

/-- A larger number has no smaller unit, so it reads back as no smaller number. -/
private theorem value_mono (order : v ≤ w) (large : 1000 ≤ mathRound v) {i j : ℕ} (fits : Fits v i) (fits' : Fits w j) :
    mantissa v i * 1000 ^ (i + 1) ≤ mantissa w j * 1000 ^ (j + 1) := by
  have positive : (0 : ℚ) < 1000 ^ (i + 1) := by positivity
  rcases lt_trichotomy i j with less | rfl | more
  · have last := fits'.last
    have under := fits.under.resolve_right (by omega)
    have one := fits'.one_le (large.trans (mathRound_mono order))
    calc mantissa v i * 1000 ^ (i + 1) ≤ 1000 * 1000 ^ (i + 1) := mul_le_mul_of_nonneg_right under.le positive.le
      _ = 1000 ^ (i + 1 + 1) := by ring
      _ ≤ 1000 ^ (j + 1) := pow_le_pow_right₀ (by norm_num) (by omega)
      _ ≤ mantissa w j * 1000 ^ (j + 1) := le_mul_of_one_le_left (by positivity) one
  · exact mul_le_mul_of_nonneg_right (mantissa_mono order i) positive.le
  · have last := fits.last
    have under := fits'.under.resolve_right (by omega)
    have carried := (fits.below j more).trans (mantissa_mono order j)
    exact absurd under (not_lt.mpr carried)

/-- A printed number reads back, larger numbers as no smaller ones, with a mantissa from 1 to below 1000 before K or M. -/
theorem compact_numbers_ordered (nonneg : 0 ≤ v) (order : v ≤ w) : ∃ first second,
    (fmtCompact v).bind readCompact = some first ∧ (fmtCompact w).bind readCompact = some second ∧
      first.value ≤ second.value ∧
      (first.div = 1000 ∨ first.div = 1000000 → 1 ≤ first.mantissa ∧ first.mantissa < 1000) := by
  have rounded := mathRound_mono order
  rcases reading_cases nonneg with ⟨small, read⟩ | ⟨large, i, fits, read⟩
  · have whole : ¬((1 : ℚ) = 1000 ∨ (1 : ℚ) = 1000000) := by norm_num
    rcases reading_cases (nonneg.trans order) with ⟨_, read'⟩ | ⟨large', j, fits', read'⟩
    · refine ⟨_, _, read, read', ?_, fun unit => absurd unit whole⟩
      simpa [Reading.value] using rounded
    · refine ⟨_, _, read, read', ?_, fun unit => absurd unit whole⟩
      have one := fits'.one_le large'
      have power : (1000 : ℚ) ^ 1 ≤ 1000 ^ (j + 1) := pow_le_pow_right₀ (by norm_num) (by omega)
      calc (mathRound v : ℚ) * 1 ≤ 1000 ^ 1 := by
            rw [mul_one, pow_one]
            exact_mod_cast small.le
        _ ≤ 1000 ^ (j + 1) := power
        _ ≤ mantissa w j * 1000 ^ (j + 1) := le_mul_of_one_le_left (by positivity) one
  · rcases reading_cases (nonneg.trans order) with ⟨small', _⟩ | ⟨_, j, fits', read'⟩
    · omega
    · refine ⟨_, _, read, read', value_mono order large fits fits', fun unit => ⟨fits.one_le large, ?_⟩⟩
      refine fits.under.resolve_right ?_
      rintro rfl
      norm_num at unit

/-- 999,949 and 999,950, on the two sides of a carry into the next unit. -/
theorem compact_numbers_ordered_carry : fmtCompact 999949 = some "999.9K" ∧ fmtCompact 999950 = some "1.00M" ∧
    ∃ first second, (fmtCompact 999949).bind readCompact = some first ∧
      (fmtCompact 999950).bind readCompact = some second ∧ first.value ≤ second.value ∧
      (first.div = 1000 ∨ first.div = 1000000 → 1 ≤ first.mantissa ∧ first.mantissa < 1000) :=
  ⟨by decide +kernel, by decide +kernel, compact_numbers_ordered (by norm_num) (by norm_num)⟩

end CliproxyUsage.Frontend
