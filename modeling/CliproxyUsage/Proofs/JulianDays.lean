import CliproxyUsage.Proofs.Readings

/-! # Dates without dashes

`datetime.fromisoformat` reads `YYYYMMDD` as a date, and SQLite as a Julian day number. No number is the
day number of its date, and none comes close.
-/

namespace CliproxyUsage

open Python Sqlite Digits

/-- SQLite reads a text that Python reads as a date with dashes, or as a number. -/
private theorem timeValue_of_year {text : String} {t : TimeValue} {year : ℕ} {rest : List Char}
    (readYear : fixed 4 text.toList = some (year, rest)) (sql : timeValue text = some t) :
    (text.toList[4]? = some '-' ∧ parseYyyyMmDd (cString text) = some t) ∨
      text.toList[4]? ≠ some 'W' ∧ text.toList[4]? ≠ some '-' ∧
        ∃ number, parseNumber (cString text) = some number ∧ ofJulianDay number = some t := by
  obtain ⟨a, b, c, d, written, first, second, third, fourth⟩ := fixed_four readYear
  have read : cString text = a :: b :: c :: d :: rest.takeWhile fun c => c ≠ '\x00' := by
    have kept {e : Char} (digit : e.isDigit = true) (others : List Char) : (e :: others).takeWhile (fun c => c ≠ '\x00') =
        e :: others.takeWhile fun c => c ≠ '\x00' :=
      List.takeWhile_cons_of_pos (by simpa using ne_of_isDigit digit (show '\x00'.isDigit = false by decide))
    rw [cString, written, kept first, kept second, kept third, kept fourth]
  have fifth : text.toList[4]? = rest.head? := by
    rw [written, List.head?_eq_getElem?]
    rfl
  have start {e : Char} {others : List Char} (cut : rest.takeWhile (fun c => c ≠ '\x00') = e :: others) :
      text.toList[4]? = some e := by
    have front := List.takeWhile_prefix (fun c => decide (c ≠ '\x00')) (l := rest)
    rw [cut] at front
    obtain ⟨more, same⟩ := front
    rw [fifth, ← same]
    rfl
  have noTime : parseHhMmSs (cString text) = none := by
    rw [read]
    exact parseHhMmSs_digit third _
  simp only [timeValue, Option.filter_eq_some_iff, noTime, Option.map_none] at sql
  cases date : parseYyyyMmDd (cString text) with
  | some t' =>
    rw [date] at sql
    have positive : (cString text).head? ≠ some '-' := by
      rw [read]
      simpa using ne_of_isDigit first (show '-'.isDigit = false by decide)
    obtain ⟨_, _, _, _, _, _, year, _⟩ := parseYyyyMmDd_eq_some positive date
    obtain ⟨_, _, _, _, same, _⟩ := fixed_four year
    rw [read] at same
    simp only [List.cons.injEq] at same
    exact .inl ⟨start same.2.2.2.2, sql.1⟩
  | none =>
    rw [date] at sql
    obtain ⟨number, numeric, julian⟩ := Option.bind_eq_some_iff.mp sql.1
    have stops {e : Char} (solid : e.isDigit = false) (nul : e ≠ '\x00')
        (other : ¬(e = 'e' ∨ e = 'E' ∨ e = '.' ∨ Sqlite.isSpace e = true)) : text.toList[4]? ≠ some e := by
      intro next
      rw [fifth] at next
      obtain ⟨others, rfl⟩ := List.head?_eq_some_iff.mp next
      rw [List.takeWhile_cons_of_pos (by simpa using nul)] at read
      rw [read] at numeric
      have tail : (a :: b :: c :: d :: e :: others.takeWhile fun c => c ≠ '\x00').dropWhile Char.isDigit =
          e :: others.takeWhile fun c => c ≠ '\x00' := by
        simp [first, second, third, fourth, solid]
      exact other (mark_of_parseNumber rfl first numeric tail)
    exact .inr ⟨stops (by decide) (by decide) (by decide), stops (by decide) (by decide) (by decide), number, numeric,
      julian⟩

/-- What SQLite reads after eight digits, where Python reads nothing or a separator and a time. -/
private theorem tail_of_python {tail : List Char} {time : ℤ} {offset : Option ℤ}
    (python : tail = [] ∨ ∃ c others, tail = c :: others ∧ parseIsoTime others = some (time, offset)) :
    tail.takeWhile (fun c => c ≠ '\x00') = [] ∨ ∃ c a b others, tail.takeWhile (fun c => c ≠ '\x00') = c :: a :: b :: others ∧
      a.isDigit = true ∧ b.isDigit = true ∧ ∀ d ∈ a :: b :: others, d ≠ 'e' ∧ d ≠ 'E' := by
  rcases python with rfl | ⟨c, others, rfl, timed⟩
  · exact .inl rfl
  · obtain ⟨⟨a, b, others', rfl, first, second⟩, known, _⟩ := parseIsoTime_eq_some timed
    by_cases nul : c = '\x00'
    · subst nul
      exact .inl rfl
    · refine .inr ⟨c, a, b, others', ?_, first, second, fun d member => ?_⟩
      · rw [List.takeWhile_cons_of_pos (by simpa using nul), List.takeWhile_eq_self_iff.mpr fun d member => ?_]
        simpa using ne_of_timeChar (known d member) (by decide)
      · exact ⟨ne_of_timeChar (known d member) (by decide), ne_of_timeChar (known d member) (by decide)⟩

/-- The number that SQLite reads of eight digits and what Python reads as a time. -/
private theorem parseNumber_basic {text : String} {v : ℕ} {tail : List Char} {number : ℚ} {time : ℤ} {offset : Option ℤ}
    (read : fixed 8 text.toList = some (v, tail)) (large : 10101 ≤ v)
    (python : tail = [] ∨ ∃ c others, tail = c :: others ∧ parseIsoTime others = some (time, offset))
    (numeric : parseNumber (cString text) = some number) (within : number < 10746969 / 2) :
    ∃ k : ℕ, (k = v ∨ k = v * 10 ∨ k = v * 100) ∧ k ≤ number ∧ number < k + 1 := by
  obtain ⟨digits, written, value⟩ := fixed_value (by decide) read
  have front : cString text = digits ++ tail.takeWhile fun c => c ≠ '\x00' := by
    rw [cString, written, List.takeWhile_append_of_pos]
    intro c member
    simpa using ne_of_isDigit ((value?_eq_some value).2.1 c member) (show '\x00'.isDigit = false by decide)
  have python := tail_of_python python
  generalize tail.takeWhile (fun c => decide (c ≠ '\x00')) = tail at front python
  rw [front] at numeric
  -- A number of three more digits is past the last day.
  have past {n : ℕ} (three : 3 ≤ n) (least : ((v * 10 ^ n : ℕ) : ℚ) ≤ number) : False := by
    have most : 10101 * 10 ^ 3 ≤ v * 10 ^ n := Nat.mul_le_mul large (Nat.pow_le_pow_right (by decide) three)
    have least' : ((10101 * 10 ^ 3 : ℕ) : ℚ) ≤ number := le_trans (by exact_mod_cast most) least
    norm_num at least'
    linarith
  rcases python with rfl | ⟨c, a, b, others, rfl, digitA, digitB, noLetter⟩
  · obtain ⟨w, x, rfl, bound, near⟩ := parseNumber_plain value (by simp) numeric
    obtain rfl : x = 0 := by simpa using bound
    exact ⟨v, .inl rfl, by simpa using near⟩
  · by_cases letter : c = 'e' ∨ c = 'E'
    · obtain ⟨n, rfl⟩ := parseNumber_exponent value letter digitA numeric
      have small : n < 3 := by
        by_contra three
        exact past (not_lt.mp three) (by push_cast; exact le_rfl)
      refine ⟨v * 10 ^ n, ?_, ?_⟩
      · obtain rfl | rfl | rfl : n = 0 ∨ n = 1 ∨ n = 2 := by omega
        · exact .inl (by rw [pow_zero, mul_one])
        · exact .inr (.inl rfl)
        · exact .inr (.inr rfl)
      · push_cast
        exact ⟨le_rfl, lt_add_one _⟩
    · have plain : ∀ d ∈ c :: a :: b :: others, d ≠ 'e' ∧ d ≠ 'E' :=
        List.forall_mem_cons.mpr ⟨not_or.mp letter, noLetter⟩
      obtain ⟨w, x, rfl, bound, near⟩ := parseNumber_plain value plain numeric
      cases digit : c.isDigit with
      | true =>
        rw [List.takeWhile_cons_of_pos digit, List.takeWhile_cons_of_pos digitA, List.takeWhile_cons_of_pos digitB] at near
        have long : 3 ≤ (c :: a :: b :: others.takeWhile Char.isDigit).length := by simp
        have least : ((v * 10 ^ (c :: a :: b :: others.takeWhile Char.isDigit).length : ℕ) : ℚ) ≤ number :=
          le_trans (by exact_mod_cast Nat.le_add_right _ x) near.1
        exact (past long least).elim
      | false =>
        rw [List.takeWhile_cons_of_neg (by simp [digit])] at bound near
        obtain rfl : x = 0 := by simpa using bound
        exact ⟨v, .inl rfl, by simpa using near⟩

/-- The days of these numbers are years away from the date. -/
private theorem julian_apart {year month day k : ℕ} {number seconds : ℤ} (dated : calendarDay year month day = some number)
    (scaled : k = year * 10000 + month * 100 + day ∨ k = (year * 10000 + month * 100 + day) * 10 ∨
      k = (year * 10000 + month * 100 + day) * 100)
    (julian : (k : ℤ) * 86400 - julianEpoch ≤ seconds ∧ seconds ≤ (k + 1) * 86400 - julianEpoch)
    (near : (number - 1) * 86400 ≤ seconds ∧ seconds ≤ (number + 2) * 86400) : False := by
  obtain ⟨rfl, _, _, _, _, _, late⟩ := calendarDay_eq_some dated
  have days := late.trans (Gregorian.daysInMonth_le _ _)
  have months := Gregorian.daysBeforeMonth_le year month
  rw [Gregorian.dayNumber, Gregorian.daysBeforeYear] at near
  rw [julianEpoch] at julian
  generalize Gregorian.daysBeforeMonth year month = before at months near
  -- The numbers overtake the dates after the years 178, 17 and 1.
  rcases scaled with rfl | rfl | rfl
  · push_cast at julian
    rcases le_or_gt year 178 with below | above <;> omega
  · push_cast at julian
    rcases le_or_gt year 17 with below | above <;> omega
  · push_cast at julian
    rcases le_or_gt year 1 with below | above <;> omega

/-- Both parsers read a text with a dash after its year as a date with dashes. -/
theorem alike {text : String} {t : TimeValue} {dt : DateTime} (dashed : text.toList[4]? = some '-')
    (sql : timeValue text = some t) (python : fromIsoFormat text = some dt) : Alike text t dt := by
  obtain ⟨year, rest, readYear⟩ := year_of_fromIsoFormat python
  rcases timeValue_of_year readYear sql with ⟨_, date⟩ | ⟨_, noDash, _⟩
  · obtain ⟨a, b, c, d, written, first, _⟩ := fixed_four readYear
    refine alike_of_dashed ?_ date python
    rw [written]
    simpa using ne_of_isDigit first (show '-'.isDigit = false by decide)
  · exact absurd dashed noDash

/-- The second that SQLite reads of a date without dashes is none within a day of Python's wall clock. -/
theorem undashed_apart {text : String} {t : TimeValue} {dt : DateTime} {u : ℤ} (noDash : text.toList[4]? ≠ some '-')
    (sql : timeValue text = some t) (python : fromIsoFormat text = some dt)
    (near : dt.wall - microsPerDay < u ∧ u < dt.wall + microsPerDay) : t.seconds ≠ u / microsPerSecond := by
  obtain ⟨year, rest, readYear⟩ := year_of_fromIsoFormat python
  rcases timeValue_of_year readYear sql with ⟨dashed, _⟩ | ⟨noWeek, _, number, numeric, julian⟩
  · exact absurd dashed noDash
  · obtain ⟨year, month, day, tail, date, time, read, dated, wall, after⟩ := fromIsoFormat_basic noDash noWeek python
    obtain ⟨_, first, _, month', _, day', _⟩ := calendarDay_eq_some dated
    have within : number < 10746969 / 2 := by
      rw [ofJulianDay] at julian
      split at julian
      · next fits => exact fits.2
      · cases julian
    have clock : 0 ≤ time ∧ time ≤ microsPerDay := by
      rcases after with ⟨_, rfl, _⟩ | ⟨_, _, _, timed⟩
      · decide
      · obtain ⟨_, _, least, most, _⟩ := parseIsoTime_eq_some timed
        exact ⟨least, most⟩
    have after' : tail = [] ∨ ∃ c others, tail = c :: others ∧ parseIsoTime others = some (time, dt.offset) := by
      rcases after with ⟨ends, _⟩ | more
      · exact .inl ends
      · exact .inr more
    obtain ⟨k, scaled, least, most⟩ := parseNumber_basic read (by omega) after' numeric within
    intro same
    refine julian_apart dated scaled (seconds_of_julian julian least most) ?_
    rw [same]
    simp only [microsPerDay, microsPerSecond] at *
    omega

end CliproxyUsage
