import CliproxyUsage.Machine.Core.Session
import CliproxyUsage.Model.Collector
import CliproxyUsage.Model.Routes
import CliproxyUsage.Proofs.Serving
import CliproxyUsage.Proofs.Usage

/-! # Requests among commits of the collector

A summary or a breakdown runs several statements outside a transaction. When no commit that adds a
row falls between the first and the last of them, and the committed tables can be served, the
response is that of one committed table. The sessions at the end show a commit in between.
-/

namespace CliproxyUsage

open Python Machine Collect

/-- A batch of `insert_records`, which commits or is rolled back. -/
def commitBatch (table : Requests) (records : List RequestRecord) : Requests :=
  match insertRecords table records with
  | .ok (_, after) => after
  | .error _ => table

variable {host : Host} {pricing : PricingMap} {aliases : List (String × String)} {table : Requests}

/-- The table can be served, and SQLite binds the values that a request for the range selects in it. -/
structure RangeParams.Servable (rng : RangeParams) (host : Host) (pricing : PricingMap) (table : Requests) : Prop
    extends CliproxyUsage.Servable host table where
  binds : ∀ filters, rng.filters.run table = .ok filters → Binds host pricing (some rng.window) filters table

theorem summary_total {rng : RangeParams} (fair : rng.window.Fair) (bucket : Option Bucket)
    (servable : rng.Servable host pricing table) :
    ∃ response, (summary host pricing rng bucket).run table = .ok response := by
  obtain ⟨filters, resolved⟩ := @filters_total table rng
  obtain ⟨response, returned⟩ :=
    querySummary_total servable.toServable fair bucket rng.tz (servable.binds filters resolved)
  exact ⟨response, by simp [summary, resolved, returned, Except.bind_ok]⟩

theorem breakdown_total {rng : RangeParams} (fair : rng.window.Fair) (dim : Dimension) (bucket : Option Bucket)
    (servable : rng.Servable host pricing table) :
    ∃ response, (breakdown host pricing aliases dim rng bucket).run table = .ok response := by
  obtain ⟨filters, resolved⟩ := @filters_total table rng
  obtain ⟨response, returned⟩ := @queryBreakdown_total host pricing aliases table servable.toServable dim rng.window fair
    bucket rng.tz filters (servable.binds filters resolved)
  exact ⟨response, by simp [breakdown, resolved, returned, Except.bind_ok]⟩

/-- In every session whose commits keep the table servable and add no row between the first and the
last statement, the request raises nothing and its response is that of one committed table. -/
theorem responses_read_one_state {rng : RangeParams} (fair : rng.window.Fair) (bucket : Option Bucket)
    (servable : rng.Servable host pricing table) :
    (∀ turns session,
      StepsMeet (Session.step commitBatch) (Session.Quiet commitBatch (rng.Servable host pricing))
        (Session.start table (summary host pricing rng bucket)) turns →
      run (Session.step commitBatch) (Session.start table (summary host pricing rng bucket)) turns = some session →
      session.Serial (summary host pricing rng bucket)) ∧
    ∀ dim turns session,
      StepsMeet (Session.step commitBatch) (Session.Quiet commitBatch (rng.Servable host pricing))
        (Session.start table (breakdown host pricing aliases dim rng bucket)) turns →
      run (Session.step commitBatch) (Session.start table (breakdown host pricing aliases dim rng bucket)) turns =
        some session →
      session.Serial (breakdown host pricing aliases dim rng bucket) := by
  constructor
  · intro turns session quiet ran
    exact Session.serial_of_quiet (fun _ => summary_total fair bucket) servable quiet ran
  · intro dim turns session quiet ran
    exact Session.serial_of_quiet (fun _ => breakdown_total fair dim bucket) servable quiet ran

def usageRecord (timestamp model : String) : RequestRecord :=
  ⟨timestamp, "sk-team-0001", model, "dev@example.com", "0", 1200, 100, 10, 0, 0, 110, false⟩

/-- From 10:00 to 12:00, seen in UTC. -/
def noonRange : RangeParams := ⟨⟨some 1772359200000000, 1772366400000000⟩, .utc, none, none, none⟩

def noonSummary : Script Requests PyError SummaryResponse := summary .utc .empty noonRange (some .hour)

def noonTable : Requests := ⟨[(usageRecord "2026-03-01T10:00:00Z" "gpt-5").row], by decide⟩

/-- A commit before the first statement. -/
theorem responses_read_one_state_commit :
    ∃ session, run (Session.step commitBatch) (Session.start .empty noonSummary)
        (.commit [usageRecord "2026-03-01T10:00:00Z" "gpt-5"] :: List.replicate 4 .select) = some session ∧
      session.script.result?.isSome ∧ session.Serial noonSummary := by
  have fair : noonRange.window.Fair := ⟨by decide, by
    intro start same
    cases same
    decide⟩
  have unfiltered {table : Requests} (binds : Binds .utc .empty (some noonRange.window) {} table) : ∀ filters,
      noonRange.filters.run table = .ok filters → Binds .utc .empty (some noonRange.window) filters table := by
    rintro _ ⟨⟩
    exact binds
  have servable : noonRange.Servable .utc .empty .empty :=
    ⟨⟨by simp [Requests.empty], by decide⟩, unfiltered (by decide +kernel)⟩
  have served : noonRange.Servable .utc .empty (commitBatch .empty [usageRecord "2026-03-01T10:00:00Z" "gpt-5"]) := by
    rw [show commitBatch .empty [usageRecord "2026-03-01T10:00:00Z" "gpt-5"] = noonTable by decide +kernel]
    refine ⟨⟨?_, by decide +kernel⟩, unfiltered (by decide +kernel)⟩
    intro row member
    rw [List.mem_singleton.mp member]
    exact ⟨1772359200000000, by decide +kernel, by decide⟩
  have ended : ((run (Session.step commitBatch) (Session.start .empty noonSummary)
      (.commit [usageRecord "2026-03-01T10:00:00Z" "gpt-5"] :: List.replicate 4 .select)).map fun session =>
        session.script.result?.isSome) = some true := by decide +kernel
  obtain ⟨session, ran, finished⟩ := Option.map_eq_some_iff.mp ended
  refine ⟨session, ran, finished, ?_⟩
  refine (@responses_read_one_state .utc .empty [] .empty noonRange fair (some .hour) servable).1 _ session ?_ ran
  rw [stepsMeet_cons]
  refine ⟨⟨.inl rfl, served⟩, ?_⟩
  intro next _ i turn middle here _
  rw [List.eq_of_mem_replicate (List.mem_of_getElem? here)]
  trivial

/-- The model that arrives between the two statements of `_fetch_cells`. -/
def lateModel : List (Turn (List RequestRecord)) :=
  [.select, .commit [usageRecord "2026-03-01T10:00:00Z" "gpt-5"], .select]

/-- Requests of both periods that arrive after the current one was read. -/
def lateRequests : List (Turn (List RequestRecord)) :=
  [.select, .select, .commit [usageRecord "2026-03-01T10:30:00Z" "gpt-5", usageRecord "2026-03-01T09:30:00Z" "gpt-5"],
    .select, .select]

def lateTable : Requests := commitBatch noonTable
  [usageRecord "2026-03-01T10:30:00Z" "gpt-5", usageRecord "2026-03-01T09:30:00Z" "gpt-5"]

/-- The requests of the current period, then those of the previous one. -/
def countsOf (result : Except PyError SummaryResponse) : List ℤ :=
  match result with
  | .ok response => response.current.requests :: (response.previous.map Totals.requests).toList
  | .error _ => []

/-- A model that is new to the second statement of `_fetch_cells` raises `KeyError`, and requests that
arrive between the periods give one of each period, which no committed table has. -/
theorem commits_break_responses :
    (∃ session, run (Session.step commitBatch) (Session.start .empty noonSummary) lateModel = some session ∧
      session.script.result? = some (.error .keyError) ∧ ¬session.Serial noonSummary) ∧
    ∃ session, run (Session.step commitBatch) (Session.start noonTable noonSummary) lateRequests = some session ∧
      session.script.result?.map countsOf = some [1, 1] ∧ ¬session.Serial noonSummary := by
  constructor
  · have raised : ((run (Session.step commitBatch) (Session.start .empty noonSummary) lateModel).map fun session =>
        session.script.result?) = some (some (.error .keyError)) := by decide +kernel
    obtain ⟨session, ran, raised⟩ := Option.map_eq_some_iff.mp raised
    refine ⟨session, ran, raised, ?_⟩
    intro serial
    cases left : session.script with
    | raise e => simp [Session.Serial, left] at serial
    | ret response => simp [left, Script.result?] at raised
    | select rest => simp [left, Script.result?] at raised
  · have mixed : ((run (Session.step commitBatch) (Session.start noonTable noonSummary) lateRequests).map fun session =>
        (session.store, session.seen, session.script.result?.map countsOf)) =
          some (lateTable, [noonTable, noonTable, lateTable, lateTable], some [1, 1]) := by decide +kernel
    obtain ⟨session, ran, same⟩ := Option.map_eq_some_iff.mp mixed
    obtain ⟨store, rest⟩ := Prod.mk.inj same
    obtain ⟨seen, counts⟩ := Prod.mk.inj rest
    refine ⟨session, ran, counts, ?_⟩
    intro serial
    obtain ⟨result, ended, counted⟩ := Option.map_eq_some_iff.mp counts
    obtain ⟨table, committed, rfl⟩ := serial.result ended
    rw [store, seen] at committed
    have either : table = noonTable ∨ table = lateTable := by
      simp only [List.mem_cons, List.not_mem_nil, or_false] at committed
      tauto
    rcases either with rfl | rfl
    · exact absurd counted (by decide +kernel)
    · exact absurd counted (by decide +kernel)

end CliproxyUsage
