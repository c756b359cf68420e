import CliproxyUsage.Proofs.SameCells
import CliproxyUsage.Proofs.Serving
import CliproxyUsage.ToMathlib.ExceptAgree

/-! # What a response shows of the secrets

Two tables that differ only in API keys and sources of the same redacted forms give the same responses, up
to the times of the last uses. The raw values split the rows into other cells and order them differently,
but every response is a function of the redacted rows.
-/

namespace CliproxyUsage

open Python Machine

/-- A row as far as its secrets may be shown. -/
def RequestRow.redacted (row : RequestRow) : RequestRow :=
  { row with apiKey := redactKey row.apiKey, source := redactSource row.source }

/-- The label of a redacted row. -/
def RequestRow.shownLabel (row : RequestRow) : CellLabel := ⟨row.sliceNo, row.apiKey, modelKey row.model, row.source⟩

/-- The display keys of a redacted row. -/
def RequestRow.shown (row : RequestRow) : FilterColumn → String
  | .apiKey => row.apiKey
  | .model => modelKey row.model
  | .source => row.source

variable {host : Host} {pricing : PricingMap} {aliases : List (String × String)}

section Cells

variable {window : Option Window} {filters : Filters} {table : Requests} {cells : List Cell}

/-- What the counted rows may show, when counting looks at what may be shown only. -/
private theorem filter_redacted {select : RequestRow → Bool}
    (counts : ∀ row ∈ table.rows, counted window filters row = select row.redacted) :
    (table.rows.filter (counted window filters)).map RequestRow.redacted =
      (table.rows.map RequestRow.redacted).filter select := by
  rw [List.filter_map, List.filter_congr counts]
  rfl

end Cells

/-- Tables whose rows may show the same. -/
def Requests.Alike (first second : Requests) : Prop :=
  first.rows.map RequestRow.redacted = second.rows.map RequestRow.redacted

instance (first second : Requests) : Decidable (first.Alike second) := inferInstanceAs (Decidable (_ = _))

section Pairs

variable {window : Option Window} {filters filters' : Filters} {first second : Requests} {cells cells' : List Cell}
  {select : RequestRow → Bool}

/-- The cells of alike tables agree. -/
private theorem fetchCells_same (alike : first.Alike second)
    (counts : ∀ row ∈ first.rows, counted window filters row = select row.redacted)
    (counts' : ∀ row ∈ second.rows, counted window filters' row = select row.redacted)
    (fetched : (fetchCells host window filters pricing).run first = .ok cells)
    (fetched' : (fetchCells host window filters' pricing).run second = .ok cells') :
    SameCells host pricing cells cells' := by
  have rows : (first.rows.filter (counted window filters)).map RequestRow.redacted =
      (second.rows.filter (counted window filters')).map RequestRow.redacted := by
    rw [filter_redacted counts, filter_redacted counts', alike]
  constructor
  · intro label
    have shown (rows : List RequestRow) : (∃ row ∈ rows, row.cellKey.label = label) ↔
        label ∈ (rows.map RequestRow.redacted).map RequestRow.shownLabel := by
      simp only [List.map_map, List.mem_map]
      rfl
    rw [exists_label_iff fetched, exists_label_iff fetched', shown, shown, rows]
  · intro keep m
    have shown (rows : List RequestRow) :
        ((rows.filter fun row => keep row.cellKey.label).map (·.measure host pricing m)).sum =
          (((rows.map RequestRow.redacted).filter fun row => keep row.shownLabel).map
            (·.measure host pricing m)).sum := by
      rw [List.filter_map, List.map_map]
      rfl
    rw [sum_cells_filter fetched, sum_cells_filter fetched', shown, shown, rows]
  · rintro c (member | member)
    · exact resolved_of_mem fetched member
    · exact resolved_of_mem fetched' member

end Pairs

/-- The display keys that a request selects in each column. -/
def RangeParams.keys (rng : RangeParams) : FilterColumn → Option (List String)
  | .apiKey => rng.people
  | .model => rng.models
  | .source => rng.credentials

/-- The clauses of a request on what a row may show. -/
def selected (window : Option Window) (keys : FilterColumn → Option (List String)) (row : RequestRow) : Bool :=
  (window.all fun window => window.admits row) &&
    ((keys .apiKey).all fun target => decide (row.shown .apiKey ∈ target)) &&
    ((keys .model).all fun target => decide (row.shown .model ∈ target)) &&
    ((keys .source).all fun target => decide (row.shown .source ∈ target))

/-- Filters that are resolved on the table look at what its rows may show only. -/
private theorem counted_resolved {rng : RangeParams} {filters : Filters} {table : Requests}
    (resolved : rng.filters.run table = .ok filters) (window : Option Window) :
    ∀ row ∈ table.rows, counted window filters row = selected window rng.keys row.redacted := by
  intro row stored
  simp only [RangeParams.filters, Script.run_bind, Script.run_pure, Except.bind_eq_ok, Except.ok.injEq] at resolved
  obtain ⟨apiKeys, first, models, second, sources, third, rfl⟩ := resolved
  rw [counted, admitsColumn_resolved first rfl stored, admitsColumn_resolved second rfl stored,
    admitsColumn_resolved third rfl stored]
  rfl

section Axis

variable {first second : Requests}

private theorem argmin_map {α β γ : Type} [Preorder γ] [DecidableLT γ] (f : α → β) (g : β → γ) (items : List α) :
    (items.map f).argmin g = (items.argmin fun a => g (f a)).map f := by
  rw [List.argmin, List.argmin, List.foldl_map]
  apply @List.foldl_hom _ _ _ (Option.map f) _ _ items none
  intro best a
  cases best with
  | none => rfl
  | some b =>
    simp only [List.argAux, Option.map_some]
    split <;> rfl

private theorem dataStartText_alike (alike : first.Alike second) : dataStartText first = dataStartText second := by
  have shown (table : Requests) : dataStartText table =
      ((table.rows.map RequestRow.redacted).argmin RequestRow.startKey).map RequestRow.timestamp := by
    rw [argmin_map, Option.map_map]
    rfl
  rw [shown, shown, alike]

private theorem axis_alike (alike : first.Alike second) (window : Window) (requested : Option Bucket) (tz : Zone) :
    (axis host window requested tz).run first = (axis host window requested tz).run second := by
  have start : (dataStart host).run first = (dataStart host).run second := by
    simp only [dataStart, Script.run_bind, Script.run_query, Except.bind_ok, dataStartText_alike alike]
    cases dataStartText second with
    | none => rfl
    | some text => simp only [Script.run_bind, Script.run_lift, Script.run_pure]
  rw [axis]
  cases window.start with
  | some start => simp only [Script.run_bind, Script.run_pure, Except.bind_ok, Script.run_lift]
  | none => simp only [Script.run_bind, Script.run_pure, Except.bind_ok, Script.run_lift, start]

end Axis

/-- Both tables are served without an overflow, and SQLite binds the values that the range selects in each. -/
structure RangeParams.Exact (rng : RangeParams) (host : Host) (pricing : PricingMap) (first second : Requests) : Prop
    where
  table : CliproxyUsage.Exact host first
  binds : ∀ filters, rng.filters.run first = .ok filters → Binds host pricing (some rng.window) filters first
  binds' : ∀ filters, rng.filters.run second = .ok filters → Binds host pricing (some rng.window) filters second

section Queries

variable {first second : Requests} {filters filters' : Filters}

private theorem summedColumns_redacted {column : RequestRow → ℤ} (summed : column ∈ summedColumns) (row : RequestRow) :
    column row.redacted = column row := by
  simp only [summedColumns, List.mem_cons, List.not_mem_nil, or_false] at summed
  rcases summed with rfl | rfl | rfl | rfl | rfl | rfl | rfl | rfl <;> rfl

/-- What makes arithmetic exact may be shown. -/
private theorem Exact.alike (exact_ : Exact host first) (alike : first.Alike second) : Exact host second where
  parses row stored := by
    have shown : row.redacted ∈ first.rows.map RequestRow.redacted := alike ▸ List.mem_map_of_mem stored
    obtain ⟨other, also, same⟩ := List.mem_map.mp shown
    have text : other.redacted.timestamp = row.redacted.timestamp := congrArg RequestRow.timestamp same
    change other.timestamp = row.timestamp at text
    rw [← text]
    exact exact_.parses other also
  fits column summed := by
    have shown (rows : List RequestRow) : (rows.map fun row => |column row|) =
        (rows.map RequestRow.redacted).map fun row => |column row| := by
      rw [List.map_map]
      exact List.map_congr_left fun row _ => by rw [Function.comp_apply, summedColumns_redacted summed]
    have bound := exact_.fits column summed
    rwa [shown, alike, ← shown] at bound

private theorem fetchCells_agree {total : Prop} (alike : first.Alike second) {window : Option Window}
    {select : RequestRow → Bool} (counts : ∀ row ∈ first.rows, counted window filters row = select row.redacted)
    (counts' : ∀ row ∈ second.rows, counted window filters' row = select row.redacted)
    (returns : total → Exact host first ∧ Binds host pricing window filters first ∧
      Binds host pricing window filters' second) :
    ((fetchCells host window filters pricing).run first).Agree total (SameCells host pricing)
      ((fetchCells host window filters' pricing).run second) where
  values _ _ fetched fetched' := fetchCells_same alike counts counts' fetched fetched'
  together holds := by
    obtain ⟨exact_, binds, binds'⟩ := returns holds
    obtain ⟨cells, fetched⟩ := fetchCells_returns exact_.parses exact_.fits binds
    have other := exact_.alike alike
    obtain ⟨cells', fetched'⟩ := fetchCells_returns other.parses other.fits binds'
    exact .inl ⟨cells, cells', fetched, fetched'⟩

private theorem previousCells_agree {total : Prop} (alike : first.Alike second) (window : Window)
    {select : Option Window → RequestRow → Bool}
    (counts : ∀ window, ∀ row ∈ first.rows, counted window filters row = select window row.redacted)
    (counts' : ∀ window, ∀ row ∈ second.rows, counted window filters' row = select window row.redacted)
    (returns : total → Exact host first ∧ Binds host pricing (some window) filters first ∧
      Binds host pricing (some window) filters' second) :
    ((previousCells host window filters pricing).run first).Agree total
      (Option.Rel (SameCells host pricing)) ((previousCells host window filters' pricing).run second) := by
  simp only [previousCells, Script.run_bind, Script.run_lift]
  cases shifted : window.previous with
  | error e => exact .error e
  | ok period =>
    simp only [Except.bind_ok]
    cases period with
    | none => exact .ok .none
    | some period =>
      simp only [Script.run_bind, Script.run_pure]
      have both : total → Exact host first ∧ Binds host pricing (some period) filters first ∧
          Binds host pricing (some period) filters' second := by
        intro holds
        obtain ⟨exact_, binds, binds'⟩ := returns holds
        exact ⟨exact_, binds.previous shifted, binds'.previous shifted⟩
      apply (fetchCells_agree alike (counts period) (counts' period) both).bind
      intro cells cells' same
      exact .ok (.some same)

/-- Both tables resolve the selected keys. -/
private theorem filters_agree {total : Prop} (rng : RangeParams) : (rng.filters.run first).Agree total
    (fun a b => rng.filters.run first = .ok a ∧ rng.filters.run second = .ok b) (rng.filters.run second) where
  values _ _ resolved resolved' := ⟨resolved, resolved'⟩
  together _ := by
    obtain ⟨a, resolved⟩ := @filters_total first rng
    obtain ⟨b, resolved'⟩ := @filters_total second rng
    exact .inl ⟨a, b, resolved, resolved'⟩

end Queries

def SummaryResponse.withoutLastUsed (response : SummaryResponse) : SummaryResponse :=
  { response with
    current := response.current.withoutLastUsed, previous := response.previous.map Totals.withoutLastUsed }

def BreakdownResponse.withoutLastUsed (response : BreakdownResponse) : BreakdownResponse :=
  { response with rows := response.rows.map BreakdownRow.withoutLastUsed }

/-- Where a label stands on an axis. -/
def Axis.place (axis : Axis) (label : CellLabel) : Option ℕ := label.sliceNo.bind (slicePosition axis.edges)

section Agreement

variable {first second : Requests}

/-- A request whose response is built from its axis, its cells, and those of the previous period. -/
private def windowed {γ : Type} (host : Host) (pricing : PricingMap) (rng : RangeParams) (bucket : Option Bucket)
    (build : Axis → List Cell → Option (List Cell) → γ) : Script Requests PyError γ := do
  let filters ← rng.filters
  let ax ← axis host rng.window bucket rng.tz
  let cells ← fetchCells host (some rng.window) filters pricing
  let previous ← previousCells host rng.window filters pricing
  pure (build ax cells previous)

/-- Alike tables agree on such a response when cells that agree give related ones. -/
private theorem windowed_agree (alike : first.Alike second) {γ : Type} {S : γ → γ → Prop}
    {build : Axis → List Cell → Option (List Cell) → γ}
    (built : ∀ ax cells cells' before before', SameCells host pricing cells cells' →
      Option.Rel (SameCells host pricing) before before' → S (build ax cells before) (build ax cells' before'))
    (rng : RangeParams) (bucket : Option Bucket) :
    ((windowed host pricing rng bucket build).run first).Agree (rng.Exact host pricing first second) S
      ((windowed host pricing rng bucket build).run second) := by
  simp only [windowed, Script.run_bind, Script.run_pure]
  apply (filters_agree rng).bind
  rintro filters filters' ⟨resolved, resolved'⟩
  have returns (exact_ : rng.Exact host pricing first second) : Exact host first ∧
      Binds host pricing (some rng.window) filters first ∧ Binds host pricing (some rng.window) filters' second :=
    ⟨exact_.table, exact_.binds filters resolved, exact_.binds' filters' resolved'⟩
  rw [axis_alike alike]
  apply (Except.Agree.refl _).bind
  rintro ax _ rfl
  apply (fetchCells_agree alike (counted_resolved resolved _) (counted_resolved resolved' _) returns).bind
  intro cells cells' same
  apply (previousCells_agree alike rng.window (counted_resolved resolved) (counted_resolved resolved') returns).bind
  intro before before' previous
  exact .ok (built ax cells cells' before before' same previous)

private theorem summary_agree (alike : first.Alike second) (rng : RangeParams) (bucket : Option Bucket) :
    ((summary host pricing rng bucket).run first).Agree (rng.Exact host pricing first second)
      (fun a b => a.withoutLastUsed = b.withoutLastUsed) ((summary host pricing rng bucket).run second) := by
  apply windowed_agree alike
  intro ax cells cells' before before' same previous
  have earlier : (before.map fun cells => (cells.foldl Acc.add {}).totals pricing.nonEmpty).map Totals.withoutLastUsed =
      (before'.map fun cells => (cells.foldl Acc.add {}).totals pricing.nonEmpty).map Totals.withoutLastUsed := by
    cases previous with
    | none => rfl
    | some both => exact congrArg some (both.totals pricing.nonEmpty)
  have series : cells.foldl (Series.add ax.position) (Series.zero ax.starts.length) =
      cells'.foldl (Series.add ax.position) (Series.zero ax.starts.length) := same.series _ ax.place
  rw [SummaryResponse.withoutLastUsed, SummaryResponse.withoutLastUsed, SummaryResponse.mk.injEq]
  exact ⟨rfl, rfl, same.totals pricing.nonEmpty, earlier, series⟩

private theorem breakdown_agree (alike : first.Alike second) (dim : Dimension) (rng : RangeParams)
    (bucket : Option Bucket) :
    ((breakdown host pricing aliases dim rng bucket).run first).Agree (rng.Exact host pricing first second)
      (fun a b => a.withoutLastUsed = b.withoutLastUsed)
      ((breakdown host pricing aliases dim rng bucket).run second) := by
  apply windowed_agree alike
  intro ax cells cells' before before' same previous
  rw [BreakdownResponse.withoutLastUsed, BreakdownResponse.withoutLastUsed, BreakdownResponse.mk.injEq]
  exact ⟨rfl, rfl, rfl, same.rows previous dim aliases pricing.nonEmpty ax.starts.length ax.place⟩

private theorem options_agree (alike : first.Alike second) :
    ((queryOptions host pricing aliases).run first).Agree
      (Exact host first ∧ Binds host pricing none {} first ∧ Binds host pricing none {} second) (fun a b => a = b)
      ((queryOptions host pricing aliases).run second) := by
  have unfiltered (table : Requests) : ∀ row ∈ table.rows,
      counted none {} row = selected none (fun _ => none) row.redacted := fun _ _ => rfl
  simp only [queryOptions, Script.run_bind, Script.run_pure]
  apply (fetchCells_agree alike (unfiltered first) (unfiltered second) id).bind
  intro cells cells' same
  apply Except.Agree.ok
  rw [same.entities, same.entities, same.entities]

end Agreement

/-- Alike tables give the same responses but for the last uses, and where arithmetic is exact and SQLite binds the
values of both queries, they return or fail together. -/
theorem secrets_do_not_show (host : Host) (pricing : PricingMap) (aliases : List (String × String))
    {first second : Requests} (alike : first.Alike second) (rng : RangeParams) (bucket : Option Bucket) :
    ((summary host pricing rng bucket).run first).Agree (rng.Exact host pricing first second)
        (fun a b => a.withoutLastUsed = b.withoutLastUsed) ((summary host pricing rng bucket).run second) ∧
      (∀ dim, ((breakdown host pricing aliases dim rng bucket).run first).Agree (rng.Exact host pricing first second)
        (fun a b => a.withoutLastUsed = b.withoutLastUsed)
        ((breakdown host pricing aliases dim rng bucket).run second)) ∧
      ((queryOptions host pricing aliases).run first).Agree
        (Exact host first ∧ Binds host pricing none {} first ∧ Binds host pricing none {} second) (fun a b => a = b)
        ((queryOptions host pricing aliases).run second) :=
  ⟨summary_agree alike rng bucket, fun dim => breakdown_agree alike dim rng bucket, options_agree alike⟩

def secretRow (timestamp apiKey source : String) : RequestRow :=
  ⟨timestamp, apiKey, "claude-t", source, "0", 850, 120, 14, 0, 0, 134, 0⟩

/-- Two requests of one key and source, in one slice. -/
def oneSecret : Requests :=
  ⟨[secretRow "2026-03-01T10:01:00Z" "sk-ops-0042" "vault-7-prod",
    secretRow "2026-03-01T10:02:00Z" "sk-ops-0042" "vault-7-prod"], by decide⟩

/-- The same requests of two keys and sources, which look like the others. -/
def twoSecrets : Requests :=
  ⟨[secretRow "2026-03-01T10:01:00Z" "sk-dev-0042" "vault-9-prod",
    secretRow "2026-03-01T10:02:00Z" "sk-ops-0042" "vault-8-prod"], by decide⟩

/-- From 9:00 to 11:00, seen in UTC, for the one person that the tables show. -/
def secretRange : RangeParams := ⟨⟨some 1772355600000000, 1772362800000000⟩, .utc, some ["sk-*******-0042"], none, none⟩

theorem secrets_do_not_show_split :
    oneSecret.Alike twoSecrets ∧ secretRange.Exact .utc .empty oneSecret twoSecrets ∧
      ((breakdown .utc .empty [] .person secretRange (some .hour)).run oneSecret).Agree
        (secretRange.Exact .utc .empty oneSecret twoSecrets) (fun a b => a.withoutLastUsed = b.withoutLastUsed)
        ((breakdown .utc .empty [] .person secretRange (some .hour)).run twoSecrets) := by
  have alike : oneSecret.Alike twoSecrets := by decide +kernel
  obtain ⟨_, breakdowns, _⟩ := secrets_do_not_show .utc .empty [] alike secretRange (some .hour)
  have resolved : secretRange.filters.run oneSecret = .ok { apiKeys := some ["sk-ops-0042"] } := by decide +kernel
  have resolved' : secretRange.filters.run twoSecrets = .ok { apiKeys := some ["sk-dev-0042", "sk-ops-0042"] } := by
    decide +kernel
  refine ⟨alike, ⟨⟨?_, by decide +kernel⟩, ?_, ?_⟩, breakdowns .person⟩
  · intro row stored
    simp only [oneSecret, List.mem_cons, List.not_mem_nil, or_false] at stored
    rcases stored with rfl | rfl <;> exact Except.exists_ok (by decide +kernel)
  · intro filters found
    cases resolved.symm.trans found
    decide +kernel
  · intro filters found
    cases resolved'.symm.trans found
    decide +kernel

end CliproxyUsage
