import CliproxyUsage.Sqlite.DateTime
import Mathlib.Data.List.TakeWhile

/-! # What the date functions accept

The form of a text that `datetime` and `strftime` accept, and the value that it spells: a date with
dashes and its time, and a Julian day number.
-/

namespace Sqlite

open Digits

theorem isSpace_digit {c : Char} (digit : c.isDigit = true) : isSpace c = false := by
  rw [Char.isDigit, Bool.and_eq_true, decide_eq_true_eq, decide_eq_true_eq] at digit
  have lower : 48 ≤ c.val.toNat := UInt32.le_iff_toNat_le.mp digit.1
  have same : c.toNat = c.val.toNat := rfl
  have blank : c ≠ ' ' := by
    rintro rfl
    simp at lower
  simp only [isSpace, blank, false_or, decide_eq_false_iff_not]
  omega

/-- A time alone has a colon after its first two characters. -/
theorem parseHhMmSs_digit {a b c : Char} (digit : c.isDigit = true) (rest : List Char) :
    parseHhMmSs (a :: b :: c :: rest) = none := by
  have colon : c ≠ ':' := ne_of_isDigit digit (by decide)
  cases read : field 2 0 24 (a :: b :: c :: rest) with
  | none => simp [parseHhMmSs, read]
  | some hour =>
    have after : hour.2 = c :: rest := by
      simp only [field, fixed, fixedFrom, Option.bind_eq_bind, Option.bind_eq_some_iff] at read
      obtain ⟨⟨v, others⟩, front, read⟩ := read
      grind
    simp [parseHhMmSs, read, after, expect, colon]

private theorem field_eq_some {n low high v : ℕ} {chars rest : List Char}
    (read : field n low high chars = some (v, rest)) : fixed n chars = some (v, rest) ∧ low ≤ v ∧ v ≤ high := by
  simp only [field, Option.bind_eq_bind, Option.bind_eq_some_iff] at read
  obtain ⟨⟨w, others⟩, front, read⟩ := read
  dsimp only at read
  split at read
  · next fits =>
    cases read
    exact ⟨front, fits⟩
  · cases read

private theorem expect_eq_some {c : Char} {chars rest : List Char} (read : expect c chars = some rest) :
    chars = c :: rest := by
  unfold expect at read
  split at read
  · split at read
    · next same =>
      cases read
      rw [same]
    · cases read
  · cases read

/-- The texts of offsets that SQLite knows. -/
theorem parseTimezone_eq_some {first : Char} {rest : List Char} {offset : ℤ} (sign : first = '+' ∨ first = '-')
    (parsed : parseTimezone (first :: rest) = some offset) :
    ∃ hour minute tail tail', fixed 2 rest = some (hour, ':' :: tail) ∧ fixed 2 tail = some (minute, tail') ∧
      skipSpaces tail' = [] ∧
      offset = if first = '-' then -((hour * 60 + minute : ℕ) : ℤ) else ((hour * 60 + minute : ℕ) : ℤ) := by
  have solid : skipSpaces (first :: rest) = first :: rest := by rcases sign with rfl | rfl <;> rfl
  have letter : ¬(first = 'Z' ∨ first = 'z') := by rcases sign with rfl | rfl <;> decide
  rw [parseTimezone, solid] at parsed
  simp only [if_neg letter, if_pos sign, Option.bind_eq_bind, Option.bind_eq_some_iff] at parsed
  obtain ⟨⟨hour, after⟩, readHour, tail, colon, ⟨minute, tail'⟩, readMinute, parsed⟩ := parsed
  dsimp only at parsed colon readMinute
  cases expect_eq_some colon
  split at parsed
  · next ends =>
    cases parsed
    exact ⟨hour, minute, tail, tail', (field_eq_some readHour).1, (field_eq_some readMinute).1, ends, rfl⟩
  · cases parsed

/-- A time has a colon after its hour, and ends with its minutes or its seconds. -/
theorem parseHhMmSs_eq_some {chars : List Char} {clock offset : ℤ}
    (parsed : parseHhMmSs chars = some (clock, offset)) :
    ∃ hour minute second tail rest, fixed 2 chars = some (hour, ':' :: tail) ∧ fixed 2 tail = some (minute, rest) ∧
      clock = (hour * 3600 + minute * 60 + second : ℕ) ∧
      ((second = 0 ∧ rest.head? ≠ some ':' ∧ parseTimezone rest = some offset) ∨
        ∃ tail' rest', rest = ':' :: tail' ∧ fixed 2 tail' = some (second, rest') ∧
          parseTimezone (skipFraction rest') = some offset) := by
  simp only [parseHhMmSs, Option.bind_eq_bind, Option.bind_eq_some_iff] at parsed
  obtain ⟨⟨hour, after⟩, readHour, tail, colon, ⟨minute, rest⟩, readMinute, parsed⟩ := parsed
  dsimp only at colon readMinute parsed
  cases expect_eq_some colon
  refine ⟨hour, minute, ?_⟩
  split at parsed
  · next tail' =>
    obtain ⟨_, seconds, parsed⟩ := Option.bind_eq_some_iff.mp parsed
    obtain ⟨_, zone, same⟩ := Option.bind_eq_some_iff.mp parsed
    obtain ⟨⟨second, rest'⟩, read, rfl⟩ := Option.map_eq_some_iff.mp seconds
    cases same
    exact ⟨second, tail, _, (field_eq_some readHour).1, (field_eq_some readMinute).1, rfl,
      .inr ⟨tail', rest', rfl, (field_eq_some read).1, zone⟩⟩
  · next other =>
    rw [Option.bind_some] at parsed
    obtain ⟨_, zone, same⟩ := Option.bind_eq_some_iff.mp parsed
    cases same
    refine ⟨0, tail, rest, (field_eq_some readHour).1, (field_eq_some readMinute).1, rfl, .inl ⟨rfl, fun starts => ?_, zone⟩⟩
    obtain ⟨tail', same⟩ := List.head?_eq_some_iff.mp starts
    exact other tail' same

/-- Blanks and `T`s between a date and its time. -/
def isSeparator (c : Char) : Bool := isSpace c || c = 'T'

/-- A text goes on with a NUL where SQLite stops reading. -/
theorem cString_split (text : String) : ∃ cutOff, cString text ++ cutOff = text.toList ∧ '\x00' ∉ cString text ∧
    ∀ c others, cutOff = c :: others → c = '\x00' := by
  refine ⟨text.toList.dropWhile fun c => c ≠ '\x00', List.takeWhile_append_dropWhile, fun member => ?_, ?_⟩
  · simpa using List.mem_takeWhile_imp member
  · intro c others cut
    have some_ : text.toList.dropWhile (fun c => c ≠ '\x00') ≠ [] := by
      rw [cut]
      exact List.cons_ne_nil c others
    have starts := List.head_dropWhile_not (fun c => decide (c ≠ '\x00')) some_
    simp only [cut, List.head_cons, decide_eq_false_iff_not, not_not] at starts
    exact starts

/-- A date with dashes, alone or before a time. -/
theorem parseYyyyMmDd_eq_some {chars : List Char} {t : TimeValue} (positive : chars.head? ≠ some '-')
    (parsed : parseYyyyMmDd chars = some t) :
    ∃ year month day afterYear afterMonth rest, fixed 4 chars = some (year, '-' :: afterYear) ∧
      fixed 2 afterYear = some (month, '-' :: afterMonth) ∧ fixed 2 afterMonth = some (day, rest) ∧
      t.day = Gregorian.dayNumber year month day ∧ t.recompute = decide (day > 28) ∧
      ((rest.dropWhile isSeparator = [] ∧ t.clock = 0 ∧ t.offset = 0) ∨
        ∃ offset, parseHhMmSs (rest.dropWhile isSeparator) = some (t.clock, offset) ∧ t.offset = offset * 60) := by
  have sign : parseSign chars = (false, chars) := by
    unfold parseSign
    split
    · exact absurd rfl positive
    · rfl
  simp only [parseYyyyMmDd, sign, Option.bind_eq_bind, Option.bind_eq_some_iff] at parsed
  obtain ⟨⟨year, _⟩, readYear, afterYear, dash, ⟨month, _⟩, readMonth, afterMonth, dash', ⟨day, rest⟩, readDay, parsed⟩ :=
    parsed
  dsimp only at dash readMonth dash' readDay parsed
  cases expect_eq_some dash
  cases expect_eq_some dash'
  refine ⟨year, month, day, afterYear, afterMonth, rest, (field_eq_some readYear).1, (field_eq_some readMonth).1,
    (field_eq_some readDay).1, ?_⟩
  split at parsed
  · next ends =>
    cases parsed
    exact ⟨rfl, rfl, .inl ⟨ends, rfl, rfl⟩⟩
  · obtain ⟨⟨clock, offset⟩, time, same⟩ := Option.bind_eq_some_iff.mp parsed
    cases same
    exact ⟨rfl, rfl, .inr ⟨offset, time, rfl⟩⟩

/-- The digits of a fraction add less than one. -/
private theorem fraction_bounds (w : ℕ) {x n : ℕ} (bound : x < 10 ^ n) :
    (w : ℚ) ≤ 1 * ((w * 10 ^ n + x : ℕ) : ℚ) * 10 ^ (0 - (n : ℤ)) ∧
      1 * ((w * 10 ^ n + x : ℕ) : ℚ) * 10 ^ (0 - (n : ℤ)) < w + 1 := by
  have power : (0 : ℚ) < 10 ^ n := by positivity
  have least : (0 : ℚ) ≤ x := Nat.cast_nonneg x
  have most : (x : ℚ) < 10 ^ n := by exact_mod_cast bound
  rw [one_mul, zero_sub, zpow_neg, zpow_natCast, ← div_eq_mul_inv, le_div_iff₀ power, div_lt_iff₀ power]
  push_cast
  constructor <;> linarith

/-- The digits in front of a number, and what may follow them: an exponent, blanks, or a fraction. -/
theorem parseNumber_eq_some {chars : List Char} {c : Char} {number : ℚ} (head : chars.head? = some c)
    (digit : c.isDigit = true) (parsed : parseNumber chars = some number) :
    ∃ w : ℕ, value? (chars.takeWhile Char.isDigit) = some w ∧
      ((∃ e others, chars.dropWhile Char.isDigit = e :: others ∧ (e = 'e' ∨ e = 'E') ∧
          (∀ d others', others = d :: others' → d.isDigit = true → ∃ k : ℕ, number = w * 10 ^ k)) ∨
        skipSpaces (chars.dropWhile Char.isDigit) = [] ∧ number = w ∨
        ∃ others, chars.dropWhile Char.isDigit = '.' :: others ∧
          ((∀ d ∈ others, d ≠ 'e' ∧ d ≠ 'E') → w ≤ number ∧ number < w + 1)) := by
  obtain ⟨rest, rfl⟩ := List.head?_eq_some_iff.mp head
  have solid : skipSpaces (c :: rest) = c :: rest := by
    rw [skipSpaces, List.dropWhile_cons, if_neg (by simp [isSpace_digit digit])]
  have signs {d : Char} (digit : d.isDigit = true) (after : List Char) :
      (∀ others, d :: after = '-' :: others → False) ∧ ∀ others, d :: after = '+' :: others → False :=
    ⟨fun _ same => ne_of_isDigit digit (show '-'.isDigit = false by decide) (List.cons.inj same).1,
      fun _ same => ne_of_isDigit digit (show '+'.isDigit = false by decide) (List.cons.inj same).1⟩
  -- With these the matches on a sign reduce.
  have minus := (signs digit rest).1
  have plus := (signs digit rest).2
  simp only [parseNumber, solid, Option.bind_eq_bind, Option.bind_eq_some_iff] at parsed
  obtain ⟨mantissa, read, parsed⟩ := parsed
  have front : (c :: rest).takeWhile Char.isDigit ≠ [] := by simp [digit]
  obtain ⟨w, value, _⟩ := value?_digits front fun d member => List.mem_takeWhile_imp member
  generalize (c :: rest).takeWhile Char.isDigit = whole at *
  generalize (c :: rest).dropWhile Char.isDigit = tail at *
  refine ⟨w, value, ?_⟩
  split at read
  · next others =>
    refine .inr (.inr ⟨others, rfl, fun none_ => ?_⟩)
    have noExponent : ∀ e after, (e = 'e' ∨ e = 'E') → others.dropWhile Char.isDigit = e :: after → False := by
      intro e after letter same
      have inside : e ∈ others := (List.dropWhile_suffix _).subset (same ▸ List.mem_cons_self ..)
      rcases letter with rfl | rfl
      · exact (none_ _ inside).1 rfl
      · exact (none_ _ inside).2 rfl
    have lower := fun after => noExponent 'e' after (.inl rfl)
    have upper := fun after => noExponent 'E' after (.inr rfl)
    simp only at read parsed
    obtain ⟨some_, fixed_⟩ := value?_fixed value
    obtain ⟨x, bound, rfl⟩ := value?_split read (fixed_append fixed_ _)
    rw [List.nil_append] at bound parsed
    generalize (others.takeWhile Char.isDigit).length = n at bound parsed
    rw [Option.bind_some] at parsed
    split at parsed
    · cases parsed
      exact fraction_bounds w bound
    · cases parsed
  · next noPoint =>
    rw [List.append_nil, value, Option.some.injEq] at read
    subst read
    simp only at parsed
    split at parsed
    case h_3 =>
      rw [Option.bind_some] at parsed
      split at parsed
      · next blank =>
        cases parsed
        exact .inr (.inl ⟨blank, by simp⟩)
      · cases parsed
    all_goals
      rename_i others
      refine .inl ⟨_, others, rfl, by decide, fun d others' same digit' => ?_⟩
      have minus' := (signs digit' others').1
      have plus' := (signs digit' others').2
      subst same
      simp only [Option.bind_eq_some_iff, Option.map_eq_some_iff] at parsed
      obtain ⟨_, ⟨k, _, rfl⟩, parsed⟩ := parsed
      split at parsed
      · cases parsed
        refine ⟨min k 10000, ?_⟩
        rw [one_mul, one_mul, List.length_nil, Nat.cast_zero, sub_zero, zpow_natCast]
      · cases parsed

/-- What goes on after the digits of a number. -/
theorem mark_of_parseNumber {c e : Char} {chars others : List Char} {number : ℚ} (head : chars.head? = some c)
    (digit : c.isDigit = true) (parsed : parseNumber chars = some number)
    (tail : chars.dropWhile Char.isDigit = e :: others) :
    e = 'e' ∨ e = 'E' ∨ e = '.' ∨ isSpace e = true := by
  obtain ⟨_, _, ⟨e', _, same, letter, _⟩ | ⟨blank, _⟩ | ⟨_, same, _⟩⟩ := parseNumber_eq_some head digit parsed
  · rw [tail] at same
    cases same
    tauto
  · rw [tail] at blank
    exact .inr (.inr (.inr (List.dropWhile_eq_nil_iff.mp blank e (List.mem_cons_self ..))))
  · rw [tail] at same
    cases same
    exact .inr (.inr (.inl rfl))

private theorem head_of_value {digits tail : List Char} {v : ℕ} (value : value? digits = some v) :
    ∃ c, (digits ++ tail).head? = some c ∧ c.isDigit = true := by
  obtain ⟨some_, all, _⟩ := value?_eq_some value
  obtain ⟨c, rest, rfl⟩ := List.exists_cons_of_ne_nil some_
  exact ⟨c, rfl, all c (List.mem_cons_self ..)⟩

/-- Without an exponent, a number is that of the digits in front, up to its fraction. -/
theorem parseNumber_plain {digits tail : List Char} {v : ℕ} {number : ℚ} (value : value? digits = some v)
    (plain : ∀ d ∈ tail, d ≠ 'e' ∧ d ≠ 'E') (parsed : parseNumber (digits ++ tail) = some number) :
    ∃ w x : ℕ, w = v * 10 ^ (tail.takeWhile Char.isDigit).length + x ∧
      x < 10 ^ (tail.takeWhile Char.isDigit).length ∧ w ≤ number ∧ number < w + 1 := by
  obtain ⟨_, all, _⟩ := value?_eq_some value
  obtain ⟨c, head, digit⟩ := head_of_value value
  obtain ⟨w, whole, follows⟩ := parseNumber_eq_some head digit parsed
  rw [List.dropWhile_append_of_pos all] at follows
  rw [List.takeWhile_append_of_pos all] at whole
  have front := fixed_append (value?_fixed value).2 (tail.takeWhile Char.isDigit)
  rw [List.nil_append] at front
  obtain ⟨x, bound, same⟩ := value?_split whole front
  refine ⟨w, x, same, bound, ?_⟩
  have inside {e : Char} {others : List Char} (same : tail.dropWhile Char.isDigit = e :: others) : e :: others ⊆ tail :=
    same ▸ (List.dropWhile_suffix _).subset
  rcases follows with ⟨e, others, tail', letter, _⟩ | ⟨_, rfl⟩ | ⟨others, tail', near⟩
  · have both := plain e (inside tail' (List.mem_cons_self ..))
    tauto
  · exact ⟨le_rfl, lt_add_one _⟩
  · exact near fun d member => plain d (inside tail' (List.mem_cons_of_mem _ member))

/-- An exponent without a sign multiplies by a power of ten. -/
theorem parseNumber_exponent {digits others : List Char} {v : ℕ} {e d : Char} {number : ℚ} (value : value? digits = some v)
    (letter : e = 'e' ∨ e = 'E') (digit : d.isDigit = true) (parsed : parseNumber (digits ++ e :: d :: others) = some number) :
    ∃ k : ℕ, number = v * 10 ^ k := by
  obtain ⟨_, all, _⟩ := value?_eq_some value
  obtain ⟨c, head, digit'⟩ := head_of_value value
  obtain ⟨w, whole, follows⟩ := parseNumber_eq_some head digit' parsed
  have solid : e.isDigit = false ∧ isSpace e = false ∧ e ≠ '.' := by rcases letter with rfl | rfl <;> decide
  rw [List.dropWhile_append_of_pos all, List.dropWhile_cons_of_neg (by simp [solid.1])] at follows
  rw [List.takeWhile_append_of_pos all, List.takeWhile_cons_of_neg (by simp [solid.1]), List.append_nil, value] at whole
  cases whole
  rcases follows with ⟨_, _, same, _, powers⟩ | ⟨blank, _⟩ | ⟨_, same, _⟩
  · cases same
    exact powers d others rfl digit
  · rw [skipSpaces, List.dropWhile_cons_of_neg (by simp [solid.2.1])] at blank
    cases blank
  · cases same
    exact absurd rfl solid.2.2

theorem seconds_of_julian {number : ℚ} {t : TimeValue} {k : ℕ} (julian : ofJulianDay number = some t)
    (least : k ≤ number) (most : number < k + 1) :
    (k : ℤ) * 86400 - julianEpoch ≤ t.seconds ∧ t.seconds ≤ (k + 1) * 86400 - julianEpoch := by
  rw [ofJulianDay] at julian
  split at julian
  · cases julian
    have lower : (k : ℤ) * 86400000 ≤ ⌊number * 86400000 + 1 / 2⌋ := by
      rw [Int.le_floor]
      push_cast
      linarith
    have upper : ⌊number * 86400000 + 1 / 2⌋ < ((k : ℤ) + 1) * 86400000 + 1 := by
      rw [Int.floor_lt]
      push_cast
      linarith
    simp only [TimeValue.seconds]
    omega
  · cases julian

end Sqlite
