import CliproxyUsage.Proofs.AxisRange

/-! # The range of window arithmetic

A window is checked for its order and its offsets only. Its previous window and its axis may leave
the years 1 to 9999, and the query raises exactly where they do.
-/

namespace CliproxyUsage

open Python

variable {start end_ : ℤ} {requested : Option Bucket} {tz : Zone}

/-- The mirrored start is in range, and so is every axis that the search for a granularity lists. -/
structure ArithmeticFits (start end_ : ℤ) (requested : Option Bucket) (tz : Zone) : Prop where
  previous : InRange (start - (end_ - start))
  search : SearchFits start end_ tz (requested.getD (autoBucket start end_))

theorem previous_ok_iff :
    (∃ previous, (Window.mk (some start) end_).previous = .ok previous) ↔ InRange (start - (end_ - start)) := by
  simp only [Window.previous]
  split
  · next fits => exact ⟨fun _ => fits, fun _ => ⟨_, rfl⟩⟩
  · next leaves => exact ⟨nofun, fun fits => absurd fits leaves⟩

/-- The arithmetic of a window raises nothing exactly where the mirrored window and the listed axes stay in the
years 1 to 9999. -/
theorem window_arithmetic_iff (start end_ : ℤ) (requested : Option Bucket) (tz : Zone) :
    (∃ previous axis, (Window.mk (some start) end_).previous = .ok previous ∧
      axisFrom start end_ requested tz = .ok axis) ↔ ArithmeticFits start end_ requested tz := by
  constructor
  · rintro ⟨previous, axis, mirrored, found⟩
    exact ⟨previous_ok_iff.mp ⟨previous, mirrored⟩, axisFrom_ok_iff.mp ⟨axis, found⟩⟩
  · rintro ⟨inside, searched⟩
    obtain ⟨previous, mirrored⟩ := previous_ok_iff.mpr inside
    obtain ⟨axis, found⟩ := axisFrom_ok_iff.mpr searched
    exact ⟨previous, axis, mirrored, found⟩

/-- From the year 100 to 2026 the mirrored window starts before the year 1, and on the last day of the range no
midnight comes after the end. -/
theorem window_arithmetic_raises :
    (InRange (-59011459200000000) ∧ InRange 1767225600000000 ∧ (-59011459200000000 : ℤ) ≤ 1767225600000000 ∧
      (Window.mk (some (-59011459200000000)) 1767225600000000).previous = .error .overflowError) ∧
    InRange 253402214400000000 ∧ InRange 253402257600000000 ∧ (253402214400000000 : ℤ) ≤ 253402257600000000 ∧
      axisFrom 253402214400000000 253402257600000000 (some .day) .utc = .error .overflowError := by
  decide +kernel

end CliproxyUsage
