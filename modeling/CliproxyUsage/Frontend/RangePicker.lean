import CliproxyUsage.Frontend.WindowQuery

/-! # The range picker

The popover that picks a preset or a custom range. It opens on the minutes of the current window, a click on the
calendar writes whole days into both fields, and only fields that make a range can be applied.
-/

namespace CliproxyUsage.Frontend

open JavaScript

structure DayPick where
  anchor : Option ℤ
  first : ℤ
  last : ℤ
deriving DecidableEq, Repr

/-- A first click starts a new range on that day, the next one completes it. -/
def pickDay (anchor : Option ℤ) (day : ℤ) : DayPick :=
  match anchor with
  | none => ⟨some day, day, day⟩
  | some anchor => if day < anchor then ⟨none, day, anchor⟩ else ⟨none, anchor, day⟩

structure RangePicker where
  isOpen : Bool := false
  custom : Bool := false
  from_ : String := ""
  to_ : String := ""
  anchor : Option ℤ := none
  /-- Read when the picker opens. -/
  now : ℤ := 0
deriving DecidableEq, Repr

def RangeSel.isCustom : RangeSel → Bool
  | .custom _ _ => true
  | .preset _ => false

inductive PickerEvent where
  /-- The picker opens on the shown range and the window that it names, whose texts `Date.parse` reads. -/
  | opened (now : ℤ) (value : RangeSel) (win : RangeWindow)
  | closed
  | preset (id : PresetId)
  /-- The last row of the presets. -/
  | customRange
  /-- Back to the presets. -/
  | presets
  | day (day : ℤ)
  | typedFrom (text : String)
  | typedTo (text : String)
  | apply
deriving DecidableEq

/-- The picker, and the ranges that it has passed to `onChange`. -/
structure Picking where
  picker : RangePicker := {}
  changes : List RangeSel := []
deriving DecidableEq

section Handlers

variable (clock : LocalClock)

/-- `handleOpen(true)`; a window of all time shows its last 30 days. -/
def handleOpen (now : ℤ) (value : RangeSel) (win : RangeWindow) : RangePicker where
  isOpen := true
  custom := value.isCustom
  from_ := toLocalInput clock (win.start.getD (win.end_ - 30 * msPerDay))
  to_ := toLocalInput clock win.end_
  anchor := none
  now

/-- Throws where the days have no texts. -/
def onCalendar (p : RangePicker) (day : ℤ) : Option RangePicker := do
  let pick := pickDay p.anchor day
  let (start, end_) ← dayRange clock pick.first pick.last p.now
  some { p with anchor := pick.anchor, from_ := start, to_ := end_ }

/-- What the picker shows decides which events it has: a list of presets, or the calendar up to today with the two
fields. A click that throws changes nothing, and is no event. -/
def Picking.step (s : Picking) : PickerEvent → Option Picking
  | .opened now value win => if s.picker.isOpen then none else some { s with picker := handleOpen clock now value win }
  | .closed => if s.picker.isOpen then some { s with picker := { s.picker with isOpen := false } } else none
  | .preset id =>
    if s.picker.isOpen ∧ ¬s.picker.custom then
      some { picker := { s.picker with isOpen := false }, changes := s.changes ++ [.preset id] }
    else none
  | .customRange =>
    if s.picker.isOpen ∧ ¬s.picker.custom then some { s with picker := { s.picker with custom := true } } else none
  | .presets =>
    if s.picker.isOpen ∧ s.picker.custom then some { s with picker := { s.picker with custom := false } } else none
  | .day day =>
    if s.picker.isOpen ∧ s.picker.custom ∧ clock.day day ≤ clock.day s.picker.now then
      (onCalendar clock s.picker day).map fun picker => { s with picker }
    else none
  | .typedFrom text =>
    if s.picker.isOpen ∧ s.picker.custom then some { s with picker := { s.picker with from_ := text } } else none
  | .typedTo text =>
    if s.picker.isOpen ∧ s.picker.custom then some { s with picker := { s.picker with to_ := text } } else none
  | .apply =>
    if s.picker.isOpen ∧ s.picker.custom ∧ isValidCustomRange clock s.picker.from_ s.picker.to_ then
      some { picker := { s.picker with isOpen := false }
             changes := s.changes ++ [.custom s.picker.from_ s.picker.to_] }
    else none

end Handlers

end CliproxyUsage.Frontend
