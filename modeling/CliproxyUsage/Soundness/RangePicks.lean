import CliproxyUsage.Frontend.RangePicker
import CliproxyUsage.Machine.Core.Run
import CliproxyUsage.Proofs.LocalInput

/-! # What the range picker applies

Whatever is opened, clicked, typed and closed, only ranges that name a window are applied, the clicks on the calendar
pair up from the opening on, and a range that is applied after a click is that of the last pair, or of the single day.
A range that is opened again and applied as it stands names the same window, if its minutes do.
-/

namespace CliproxyUsage.Frontend

open JavaScript Machine

/-- The days clicked since the picker was last opened. -/
def clickedDays (es : List PickerEvent) : List ℤ :=
  es.foldl (fun days e =>
    match e with
    | .opened _ _ _ => []
    | .day day => days ++ [day]
    | _ => days) []

/-- The first and the last day of the last pick: two clicks in either order, or the one that starts a pick. -/
def lastPick (days : List ℤ) : Option (ℤ × ℤ) :=
  if Odd days.length then days.getLast?.map fun day => (day, day)
  else
    match days.reverse with
    | second :: first :: _ => some (min first second, max first second)
    | _ => none

/-- The events that write into the fields. -/
def PickerEvent.Writes : PickerEvent → Prop
  | .opened _ _ _ | .day _ | .typedFrom _ | .typedTo _ => True
  | _ => False

/-- The minute that shows a time value denotes that time value. -/
def OnItsMinute (clock : LocalClock) (t : ℤ) : Prop := clock.utc (minuteWall clock t) = t

instance (clock : LocalClock) (t : ℤ) : Decidable (OnItsMinute clock t) := inferInstanceAs (Decidable (_ = _))

/-- Opened on a range, the picker applies one that names the same window. -/
def Reapplies (clock : LocalClock) (s : Picking) (later : ℤ) (value : RangeSel) (win : RangeWindow) : Prop :=
  ∃ t start end_, run (Picking.step clock) s [.opened later value win, .apply] = some t ∧
    t.changes = s.changes ++ [.custom start end_] ∧ ∀ now, resolveWindow clock now (.custom start end_) = some win

/-- What holds after any events of the picker. -/
structure PicksApply (clock : LocalClock) (es : List PickerEvent) (s : Picking) : Prop where
  anchor : s.picker.anchor = if Odd (clickedDays es).length then (clickedDays es).getLast? else none
  picked : ∀ before day after, es = before ++ .day day :: after → (∀ e ∈ after, ¬e.Writes) →
    ∃ first last, lastPick (clickedDays (before ++ [.day day])) = some (first, last) ∧
      dayRange clock first last s.picker.now = some (s.picker.from_, s.picker.to_)
  applied : ∀ before, es = before ++ [.apply] →
    s.changes.getLast? = some (.custom s.picker.from_ s.picker.to_)
  windows : ∀ start end_, .custom start end_ ∈ s.changes → ∀ now, ∃ from_ to_,
    resolveWindow clock now (.custom start end_) = some ⟨some from_, to_⟩ ∧ from_ < to_

/-- What holds of each range that the picker has applied, when it is closed. -/
structure Reopens (clock : LocalClock) (s : Picking) : Prop where
  iff : ∀ start end_ now from_ to_, .custom start end_ ∈ s.changes →
    resolveWindow clock now (.custom start end_) = some ⟨some from_, to_⟩ → ∀ later,
      Reapplies clock s later (.custom start end_) ⟨some from_, to_⟩ ↔ OnItsMinute clock from_ ∧ OnItsMinute clock to_

section Steps

variable {clock : LocalClock} {es : List PickerEvent} {e : PickerEvent} {s t : Picking}

/-- A step that writes nothing into the fields. -/
structure Quiet (s t : Picking) : Prop where
  anchor : t.picker.anchor = s.picker.anchor
  now : t.picker.now = s.picker.now
  from_ : t.picker.from_ = s.picker.from_
  to_ : t.picker.to_ = s.picker.to_

private theorem of_guard {α : Type} {c : Prop} [Decidable c] {a b : α} (kept : (if c then some a else none) = some b) :
    c ∧ a = b := by
  split at kept
  · next holds => exact ⟨holds, Option.some.inj kept⟩
  · cases kept

private theorem quiet_of_step (stepped : s.step clock e = some t) (silent : ¬e.Writes) : Quiet s t := by
  cases e with
  | opened | day | typedFrom | typedTo => exact absurd trivial silent
  | closed | preset | customRange | presets | apply =>
    obtain ⟨-, rfl⟩ := of_guard stepped
    exact ⟨rfl, rfl, rfl, rfl⟩

/-- What a step passes to `onChange`. -/
private theorem changes_of_step (stepped : s.step clock e = some t) :
    t.changes = s.changes ∨ (∃ id, t.changes = s.changes ++ [.preset id]) ∨
      e = .apply ∧ isValidCustomRange clock s.picker.from_ s.picker.to_ = true ∧
        t.changes = s.changes ++ [.custom s.picker.from_ s.picker.to_] := by
  cases e with
  | opened now value win =>
    rw [Picking.step] at stepped
    split at stepped
    · cases stepped
    · exact .inl (Option.some.inj stepped ▸ rfl)
  | closed | customRange | presets | typedFrom | typedTo =>
    obtain ⟨-, rfl⟩ := of_guard stepped
    exact .inl rfl
  | day day =>
    rw [Picking.step] at stepped
    split at stepped
    · obtain ⟨picker, -, rfl⟩ := Option.map_eq_some_iff.mp stepped
      exact .inl rfl
    · cases stepped
  | preset id =>
    obtain ⟨-, rfl⟩ := of_guard stepped
    exact .inr (.inl ⟨id, rfl⟩)
  | apply =>
    obtain ⟨⟨-, -, valid⟩, rfl⟩ := of_guard stepped
    exact .inr (.inr ⟨rfl, valid, rfl⟩)

private theorem clickedDays_concat : clickedDays (es ++ [e]) =
    match e with
    | .opened _ _ _ => []
    | .day day => clickedDays es ++ [day]
    | _ => clickedDays es := by
  rw [clickedDays, List.foldl_append]
  rfl

private theorem onCalendar_some {p after : RangePicker} {day : ℤ} (clicked : onCalendar clock p day = some after) :
    after.anchor = (pickDay p.anchor day).anchor ∧ after.now = p.now ∧
      dayRange clock (pickDay p.anchor day).first (pickDay p.anchor day).last p.now = some (after.from_, after.to_) := by
  rw [onCalendar] at clicked
  obtain ⟨⟨start, end_⟩, ranged, shown⟩ := Option.bind_eq_some_iff.mp clicked
  obtain rfl := Option.some.inj shown
  exact ⟨rfl, rfl, ranged⟩

private theorem pickDay_some (first day : ℤ) : pickDay (some first) day = ⟨none, min first day, max first day⟩ := by
  rw [pickDay]
  split
  · next before => rw [min_eq_right before.le, max_eq_left before.le]
  · next after => rw [min_eq_left (not_lt.mp after), max_eq_right (not_lt.mp after)]

/-- A click pairs up with the one before it, unless that one is paired already. -/
private theorem pickDay_clicked {days : List ℤ} {anchor : Option ℤ} (day : ℤ)
    (paired : anchor = if Odd days.length then days.getLast? else none) :
    (pickDay anchor day).anchor = (if Odd (days ++ [day]).length then (days ++ [day]).getLast? else none) ∧
      lastPick (days ++ [day]) = some ((pickDay anchor day).first, (pickDay anchor day).last) := by
  have next : Odd (days ++ [day]).length ↔ ¬Odd days.length := by
    rw [List.length_append, List.length_singleton, Nat.odd_add_one]
  rw [lastPick, List.getLast?_concat, List.reverse_append, List.reverse_singleton]
  by_cases odd : Odd days.length
  · have second : ¬Odd (days ++ [day]).length := fun other => next.mp other odd
    rcases List.eq_nil_or_concat days with rfl | ⟨earlier, first, rfl⟩
    · exact absurd odd (by decide)
    · rw [List.concat_eq_append] at *
      rw [if_pos odd, List.getLast?_concat] at paired
      rw [if_neg second, if_neg second, paired, List.reverse_append, pickDay_some]
      exact ⟨rfl, rfl⟩
  · rw [if_neg odd] at paired
    rw [if_pos (next.mpr odd), if_pos (next.mpr odd), paired]
    exact ⟨rfl, rfl⟩

private theorem anchor_step (held : PicksApply clock es s) (stepped : s.step clock e = some t) :
    t.picker.anchor = if Odd (clickedDays (es ++ [e])).length then (clickedDays (es ++ [e])).getLast? else none := by
  rw [clickedDays_concat]
  cases e with
  | opened now value win =>
    rw [Picking.step] at stepped
    split at stepped
    · cases stepped
    · exact Option.some.inj stepped ▸ rfl
  | day day =>
    rw [Picking.step] at stepped
    split at stepped
    · obtain ⟨picker, clicked, rfl⟩ := Option.map_eq_some_iff.mp stepped
      exact (onCalendar_some clicked).1.trans (pickDay_clicked day held.anchor).1
    · cases stepped
  | typedFrom | typedTo =>
    obtain ⟨-, rfl⟩ := of_guard stepped
    exact held.anchor
  | closed | preset | customRange | presets | apply => exact (quiet_of_step stepped id).anchor.trans held.anchor

private theorem picked_step (held : PicksApply clock es s) (stepped : s.step clock e = some t)
    {before after : List PickerEvent} {day : ℤ} (split : es ++ [e] = before ++ .day day :: after)
    (silent : ∀ e ∈ after, ¬e.Writes) :
    ∃ first last, lastPick (clickedDays (before ++ [.day day])) = some (first, last) ∧
      dayRange clock first last t.picker.now = some (t.picker.from_, t.picker.to_) := by
  rcases List.eq_nil_or_concat after with rfl | ⟨rest, last, rfl⟩
  · obtain ⟨rfl, same⟩ := List.append_inj' split rfl
    obtain rfl := List.singleton_inj.mp same
    rw [Picking.step] at stepped
    split at stepped
    · obtain ⟨picker, clicked, rfl⟩ := Option.map_eq_some_iff.mp stepped
      obtain ⟨-, now, ranged⟩ := onCalendar_some clicked
      have pair := (pickDay_clicked day held.anchor).2
      rw [← now] at ranged
      exact ⟨_, _, (congrArg lastPick clickedDays_concat).trans pair, ranged⟩
    · cases stepped
  · rw [List.concat_eq_append] at split silent
    rw [← List.cons_append, ← List.append_assoc] at split
    obtain ⟨earlier, same⟩ := List.append_inj' split rfl
    obtain rfl := List.singleton_inj.mp same
    have quiet := quiet_of_step stepped (silent e (List.mem_append_right _ (List.mem_singleton_self e)))
    rw [quiet.now, quiet.from_, quiet.to_]
    exact held.picked before day rest earlier fun e member => silent e (List.mem_append_left _ member)

/-- A valid range names a window, whenever it is resolved. -/
private theorem resolveWindow_valid {start end_ : String} (valid : isValidCustomRange clock start end_ = true) (now : ℤ) :
    ∃ from_ to_, resolveWindow clock now (.custom start end_) = some ⟨some from_, to_⟩ ∧ from_ < to_ := by
  rw [isValidCustomRange] at valid
  split at valid
  · next from_ to_ first last =>
    have order := of_decide_eq_true valid
    refine ⟨from_, to_, ?_, order⟩
    simp only [resolveWindow, first, last, Option.bind_eq_bind, Option.bind_some]
    exact if_neg (not_le.mpr order)
  · cases valid

private theorem windows_step (held : PicksApply clock es s) (stepped : s.step clock e = some t) :
    ∀ start end_, .custom start end_ ∈ t.changes → ∀ now, ∃ from_ to_,
      resolveWindow clock now (.custom start end_) = some ⟨some from_, to_⟩ ∧ from_ < to_ := by
  intro start end_ applied
  rcases changes_of_step stepped with same | ⟨id, preset⟩ | ⟨-, valid, custom⟩
  · exact held.windows start end_ (same ▸ applied)
  · rw [preset, List.mem_append, List.mem_singleton] at applied
    rcases applied with earlier | last
    · exact held.windows start end_ earlier
    · cases last
  · rw [custom, List.mem_append, List.mem_singleton] at applied
    rcases applied with earlier | last
    · exact held.windows start end_ earlier
    · cases last
      exact resolveWindow_valid valid

private theorem applied_step (stepped : s.step clock .apply = some t) :
    t.changes.getLast? = some (.custom t.picker.from_ t.picker.to_) := by
  obtain ⟨-, rfl⟩ := of_guard stepped
  exact List.getLast?_concat

end Steps

section Reopened

variable {clock : LocalClock} {s : Picking} {start end_ : String} {t from_ to_ now : ℤ}

private theorem resolveWindow_custom : resolveWindow clock now (.custom start end_) = some ⟨some from_, to_⟩ ↔
    parseLocalInput clock start = some from_ ∧ parseLocalInput clock end_ = some to_ ∧ from_ < to_ := by
  simp only [resolveWindow, Option.bind_eq_bind, Option.bind_eq_some_iff]
  constructor
  · rintro ⟨first, started, last, ended, kept⟩
    split at kept
    · cases kept
    · next order =>
      cases kept
      exact ⟨started, ended, not_le.mp order⟩
  · rintro ⟨started, ended, order⟩
    exact ⟨from_, started, to_, ended, if_neg (not_le.mpr order)⟩

private theorem reads_back_iff (zoned : clock.Zoned) (read : parseLocalInput clock start = some t) :
    parseLocalInput clock (toLocalInput clock t) = some t ↔ OnItsMinute clock t := by
  obtain ⟨early, late⟩ := years_of_input zoned read
  rw [parse_toLocalInput zoned early late, OnItsMinute]
  constructor
  · intro back
    exact (of_guard back).2
  · intro same
    rw [same]
    exact if_pos rfl

/-- An open picker of a custom range applies what its fields say. -/
private theorem step_apply (isOpen : s.picker.isOpen = true) (custom : s.picker.custom = true) :
    s.step clock .apply =
      if isValidCustomRange clock s.picker.from_ s.picker.to_ = true then
        some ⟨{ s.picker with isOpen := false }, s.changes ++ [.custom s.picker.from_ s.picker.to_]⟩
      else none := by
  rw [Picking.step, isOpen, custom]
  simp only [true_and]

private theorem run_reopened (closed : s.picker.isOpen = false) (later : ℤ) : ∃ p : RangePicker,
    p.from_ = toLocalInput clock from_ ∧ p.to_ = toLocalInput clock to_ ∧
      run (Picking.step clock) s [.opened later (.custom start end_) ⟨some from_, to_⟩, .apply] =
        if isValidCustomRange clock p.from_ p.to_ = true then
          some ⟨{ p with isOpen := false }, s.changes ++ [.custom p.from_ p.to_]⟩
        else none := by
  have opened : s.step clock (.opened later (.custom start end_) ⟨some from_, to_⟩) =
      some { s with picker := handleOpen clock later (.custom start end_) ⟨some from_, to_⟩ } := by
    rw [Picking.step, closed]
    exact if_neg Bool.false_ne_true
  have last (t : Option Picking) : (t.bind fun next => run (Picking.step clock) next []) = t := by cases t <;> rfl
  refine ⟨handleOpen clock later (.custom start end_) ⟨some from_, to_⟩, rfl, rfl, ?_⟩
  rw [run, opened, Option.bind_some, run, last, step_apply rfl rfl]

private theorem reapplies_iff (zoned : clock.Zoned) (closed : s.picker.isOpen = false)
    (shown : resolveWindow clock now (.custom start end_) = some ⟨some from_, to_⟩) (later : ℤ) :
    Reapplies clock s later (.custom start end_) ⟨some from_, to_⟩ ↔ OnItsMinute clock from_ ∧ OnItsMinute clock to_ := by
  obtain ⟨started, ended, order⟩ := resolveWindow_custom.mp shown
  obtain ⟨p, first, last, applied⟩ := @run_reopened clock s start end_ from_ to_ closed later
  rw [← reads_back_iff zoned started, ← reads_back_iff zoned ended, Reapplies, applied, ← first, ← last]
  constructor
  · rintro ⟨t, again, until_, ran, changes, named⟩
    obtain ⟨-, rfl⟩ := of_guard ran
    cases List.singleton_inj.mp (List.append_cancel_left changes)
    obtain ⟨back, back', -⟩ := resolveWindow_custom.mp (named now)
    exact ⟨back, back'⟩
  · rintro ⟨back, back'⟩
    have valid : isValidCustomRange clock p.from_ p.to_ = true := by
      rw [isValidCustomRange, back, back']
      exact decide_eq_true order
    rw [if_pos valid]
    exact ⟨_, _, _, rfl, rfl, fun _ => resolveWindow_custom.mpr ⟨back, back', order⟩⟩

end Reopened

/-- Over every run of the picker, on every clock of a zone. -/
theorem range_picks_apply {tz : Python.Zone} (whole : tz.WholeSeconds) {es : List PickerEvent} {s : Picking}
    (ran : run (Picking.step (.ofZone tz)) {} es = some s) :
    PicksApply (.ofZone tz) es s ∧ (s.picker.isOpen = false → Reopens (.ofZone tz) s) := by
  constructor
  · refine run_trace (PicksApply (.ofZone tz)) ?_ (fun es middle e t _ held stepped => ?_) ran
    · refine ⟨rfl, ?_, ?_, ?_⟩
      · intro before day after split
        exact absurd split (by simp)
      · intro before split
        exact absurd split (by simp)
      · intro start end_ applied
        exact absurd applied List.not_mem_nil
    · refine ⟨anchor_step held stepped, ?_, ?_, windows_step held stepped⟩
      · intro before day after split silent
        exact picked_step held stepped split silent
      · intro before split
        obtain ⟨-, same⟩ := List.append_inj' split rfl
        obtain rfl := List.singleton_inj.mp same
        exact applied_step stepped
  · intro closed
    have zoned := LocalClock.zoned_ofZone whole
    exact ⟨fun _ _ _ _ _ _ shown later => reapplies_iff zoned closed shown later⟩

/-- Two days in August, the later one first. -/
def augustPick : List PickerEvent :=
  [.opened 1787184030000 (.preset .last7d) ⟨some 1786579230000, 1787184030000⟩, .customRange, .day 1786320000000,
    .day 1785888000000, .apply]

def augustPicking : Picking where
  picker :=
    { custom := true, from_ := "2026-08-05T00:00", to_ := "2026-08-11T00:00", anchor := none, now := 1787184030000 }
  changes := [.custom "2026-08-05T00:00" "2026-08-11T00:00"]

theorem range_picks_apply_august :
    PicksApply (.ofZone .utc) augustPick augustPicking ∧ Reopens (.ofZone .utc) augustPicking ∧
      OnItsMinute (.ofZone .utc) 1785888000000 := by
  have whole : Python.Zone.utc.WholeSeconds := ⟨⟨by decide, by decide⟩, by decide⟩
  have ran : run (Picking.step (.ofZone .utc)) {} augustPick = some augustPicking := by decide +kernel
  obtain ⟨picks, reopens⟩ := range_picks_apply whole ran
  exact ⟨picks, reopens rfl, by decide +kernel⟩

end CliproxyUsage.Frontend
