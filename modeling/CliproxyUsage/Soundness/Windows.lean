import CliproxyUsage.Proofs.Totals

/-! # Windows that meet

Two windows that meet count each request of their union once, whichever part of a second or of a
slice the instant between them falls into. So what the cells of a window add up to splits at any
instant, and a period with the one before it adds up to the doubled window.
-/

namespace CliproxyUsage

open Python Machine

variable {host : Host} {pricing : PricingMap} {filters : Filters} {table : Requests}

private theorem tsParam_mono {earlier later : ℤ} (order : earlier ≤ later) : tsParam earlier ≤ tsParam later := by
  rw [tsParam, tsParam, Prod.Lex.le_iff]
  simp only [ofLex_toLex, microsPerSecond]
  omega

/-- At every instant a window splits into two that share no request. -/
private theorem counted_split {a b c : ℤ} (first : a ≤ b) (second : b ≤ c) (row : RequestRow) :
    counted (some ⟨some a, c⟩) filters row =
        (counted (some ⟨some a, b⟩) filters row || counted (some ⟨some b, c⟩) filters row) ∧
      ¬(counted (some ⟨some a, b⟩) filters row ∧ counted (some ⟨some b, c⟩) filters row) := by
  have lower := tsParam_mono first
  have upper := tsParam_mono second
  simp only [counted, Option.all_some, Window.admits]
  cases Sqlite.datetime row.timestamp with
  | none => simp
  | some at_ =>
    constructor
    · rw [Bool.eq_iff_iff]
      simp only [Bool.and_eq_true, Bool.or_eq_true, decide_eq_true_eq]
      constructor
      · rintro ⟨⟨⟨⟨from_, until_⟩, key⟩, model⟩, source⟩
        rcases lt_or_ge at_ (tsParam b) with before | after
        · exact .inl ⟨⟨⟨⟨from_, before⟩, key⟩, model⟩, source⟩
        · exact .inr ⟨⟨⟨⟨after, until_⟩, key⟩, model⟩, source⟩
      · rintro (⟨⟨⟨⟨from_, until_⟩, key⟩, model⟩, source⟩ | ⟨⟨⟨⟨from_, until_⟩, key⟩, model⟩, source⟩)
        · exact ⟨⟨⟨⟨from_, until_.trans_le upper⟩, key⟩, model⟩, source⟩
        · exact ⟨⟨⟨⟨lower.trans from_, until_⟩, key⟩, model⟩, source⟩
    · simp only [Bool.and_eq_true, decide_eq_true_eq]
      rintro ⟨⟨⟨⟨⟨_, before⟩, _⟩, _⟩, _⟩, ⟨⟨⟨after, _⟩, _⟩, _⟩, _⟩
      exact absurd before (not_lt.mpr after)

/-- A sum over a list splits over two selections that are exclusive and exhaust a third. -/
private theorem sum_filter_or {α : Type} {whole left right : α → Bool}
    (split : ∀ a, whole a = (left a || right a) ∧ ¬(left a ∧ right a)) (f : α → ℚ) (items : List α) :
    ((items.filter whole).map f).sum = ((items.filter left).map f).sum + ((items.filter right).map f).sum := by
  induction items with
  | nil => simp
  | cons a rest ih =>
    obtain ⟨exhaust, exclusive⟩ := split a
    rw [List.filter_cons, List.filter_cons, List.filter_cons, exhaust]
    cases inLeft : left a <;> cases inRight : right a
    · simp [ih]
    · simp [ih, add_left_comm]
    · simp [ih, add_assoc]
    · exact absurd ⟨inLeft, inRight⟩ exclusive

private theorem cells_split {a b c : ℤ} (first : a ≤ b) (second : b ≤ c) {whole earlier later : List Cell}
    (fetched : (fetchCells host (some ⟨some a, c⟩) filters pricing).run table = .ok whole)
    (before : (fetchCells host (some ⟨some a, b⟩) filters pricing).run table = .ok earlier)
    (after : (fetchCells host (some ⟨some b, c⟩) filters pricing).run table = .ok later) (m : Measure) :
    (whole.map (·.measure m)).sum = (earlier.map (·.measure m)).sum + (later.map (·.measure m)).sum := by
  rw [sum_cells fetched, sum_cells before, sum_cells after]
  exact sum_filter_or (counted_split first second) _ _

/-- The previous period of a bounded window has the same length. -/
private theorem previousCells_ok {start end_ : ℤ} {previous : Option (List Cell)}
    (ran : (previousCells host ⟨some start, end_⟩ filters pricing).run table = .ok previous) :
    ∃ cells, (fetchCells host (some ⟨some (start - (end_ - start)), start⟩) filters pricing).run table = .ok cells ∧
      previous = some cells := by
  simp only [previousCells, Script.run_bind, Script.run_lift, Except.bind_eq_ok, Window.previous] at ran
  obtain ⟨window, made, ran⟩ := ran
  split at made
  · cases made
    simp only [Script.run_bind, Script.run_pure, Except.bind_eq_ok, Except.ok.injEq] at ran
    obtain ⟨cells, fetched, rfl⟩ := ran
    exact ⟨cells, fetched, rfl⟩
  · cases made

/-- A window is counted once by its two parts, its cells add up as theirs do, and a period adds up with
the one before it to the doubled window. -/
theorem windows_add {a b c : ℤ} (first : a ≤ b) (second : b ≤ c) :
    (∀ row ∈ table.rows,
      counted (some ⟨some a, c⟩) filters row =
          (counted (some ⟨some a, b⟩) filters row || counted (some ⟨some b, c⟩) filters row) ∧
        ¬(counted (some ⟨some a, b⟩) filters row ∧ counted (some ⟨some b, c⟩) filters row)) ∧
    (∀ whole earlier later,
      (fetchCells host (some ⟨some a, c⟩) filters pricing).run table = .ok whole →
      (fetchCells host (some ⟨some a, b⟩) filters pricing).run table = .ok earlier →
      (fetchCells host (some ⟨some b, c⟩) filters pricing).run table = .ok later →
      ∀ m, (whole.map (·.measure m)).sum = (earlier.map (·.measure m)).sum + (later.map (·.measure m)).sum) ∧
    ∀ requested tz summary requested' tz' doubled,
      (querySummary host ⟨some b, c⟩ requested tz filters pricing).run table = .ok summary →
      (querySummary host ⟨some (b - (c - b)), c⟩ requested' tz' filters pricing).run table = .ok doubled →
      ∃ previous, summary.previous = some previous ∧
        ∀ m, doubled.current.measure m = summary.current.measure m + previous.measure m := by
  refine ⟨fun row _ => counted_split first second row, ?_, ?_⟩
  · intro whole earlier later fetched before after m
    exact cells_split first second fetched before after m
  · intro requested tz summary requested' tz' doubled summed summed'
    obtain ⟨_, _, later, after, previous, previously, rfl⟩ := run_querySummary_ok_iff.mp summed
    obtain ⟨_, _, whole, fetched, _, _, rfl⟩ := run_querySummary_ok_iff.mp summed'
    obtain ⟨earlier, before, rfl⟩ := previousCells_ok previously
    refine ⟨_, rfl, fun m => ?_⟩
    rw [totals_measure fun c member => priced_of_mem fetched member,
      totals_measure fun c member => priced_of_mem after member,
      totals_measure fun c member => priced_of_mem before member, add_comm]
    exact cells_split (by omega) second fetched before after m

def halvedRow (timestamp : String) : RequestRow :=
  ⟨timestamp, "sk-a-0001", "m", "dev@example.com", "0", 1200, 150000, 10, 0, 0, 150010, 0⟩

/-- Requests of one slice, two of them in the second in which the windows below meet. -/
def halvedTable : Requests :=
  ⟨[halvedRow "2026-03-01T10:00:00Z", halvedRow "2026-03-01T10:05:00.4Z", halvedRow "2026-03-01T11:05:00.9+01:00"],
    by decide⟩

def halvedPricing : PricingMap := ⟨[("m", { inputCostPerToken := 2 / 1000, outputCostPerToken := 0 })], by decide⟩

/-- The windows meet half a second after five past ten. -/
theorem windows_add_slice :
    (∀ row ∈ halvedTable.rows,
      counted (some ⟨some 1772359200000000, 1772359801000000⟩) {} row =
          (counted (some ⟨some 1772359200000000, 1772359500500000⟩) {} row ||
            counted (some ⟨some 1772359500500000, 1772359801000000⟩) {} row) ∧
        ¬(counted (some ⟨some 1772359200000000, 1772359500500000⟩) {} row ∧
          counted (some ⟨some 1772359500500000, 1772359801000000⟩) {} row)) ∧
    (∃ whole earlier later,
      (fetchCells .utc (some ⟨some 1772359200000000, 1772359801000000⟩) {} halvedPricing).run halvedTable = .ok whole ∧
      (fetchCells .utc (some ⟨some 1772359200000000, 1772359500500000⟩) {} halvedPricing).run halvedTable = .ok earlier ∧
      (fetchCells .utc (some ⟨some 1772359500500000, 1772359801000000⟩) {} halvedPricing).run halvedTable = .ok later ∧
      ∀ m, (whole.map (·.measure m)).sum = (earlier.map (·.measure m)).sum + (later.map (·.measure m)).sum) ∧
    ∃ summary doubled previous,
      (querySummary .utc ⟨some 1772359500500000, 1772359801000000⟩ none .utc {} halvedPricing).run halvedTable =
        .ok summary ∧
      (querySummary .utc ⟨some 1772359200000000, 1772359801000000⟩ none .utc {} halvedPricing).run halvedTable =
        .ok doubled ∧
      summary.previous = some previous ∧
        ∀ m, doubled.current.measure m = summary.current.measure m + previous.measure m := by
  obtain ⟨counts, adds, doubles⟩ := @windows_add .utc halvedPricing {} halvedTable 1772359200000000 1772359500500000
    1772359801000000 (by decide) (by decide)
  have fetches (window : Window) (returns : ((fetchCells .utc (some window) {} halvedPricing).run
      halvedTable).toOption.isSome) := Except.exists_ok returns
  obtain ⟨whole, fetched⟩ := fetches ⟨some 1772359200000000, 1772359801000000⟩ (by decide +kernel)
  obtain ⟨earlier, before⟩ := fetches ⟨some 1772359200000000, 1772359500500000⟩ (by decide +kernel)
  obtain ⟨later, after⟩ := fetches ⟨some 1772359500500000, 1772359801000000⟩ (by decide +kernel)
  have summarises (window : Window) (returns : ((querySummary .utc window none .utc {} halvedPricing).run
      halvedTable).toOption.isSome) := Except.exists_ok returns
  obtain ⟨summary, summed⟩ := summarises ⟨some 1772359500500000, 1772359801000000⟩ (by decide +kernel)
  obtain ⟨doubled, summed'⟩ := summarises ⟨some 1772359200000000, 1772359801000000⟩ (by decide +kernel)
  obtain ⟨previous, shown, sums⟩ := doubles none .utc summary none .utc doubled summed summed'
  exact ⟨counts, ⟨whole, earlier, later, fetched, before, after, adds _ _ _ fetched before after⟩,
    summary, doubled, previous, summed, summed', shown, sums⟩

end CliproxyUsage
