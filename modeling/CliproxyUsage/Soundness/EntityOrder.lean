import CliproxyUsage.Proofs.SameCells
import CliproxyUsage.Proofs.Serving

/-! # Options list the all-time breakdown

The options rank the cells of every request, a breakdown of all time those of the requests before its end.
Where that is all of them, both list the same entities in one order, which does not depend on the order of
the rows, so that the color slots stay where they are until the sums change.
-/

namespace CliproxyUsage

open Python Machine

/-- The entities that the options list for a dimension. -/
def OptionsResponse.entities (options : OptionsResponse) : Dimension → List Entity
  | .person => options.people
  | .model => options.models
  | .credential => options.credentials

variable {host : Host} {pricing : PricingMap} {aliases : List (String × String)}

section Table

variable {table other : Requests}

/-- The summed columns of a table do not depend on the order of its rows. -/
private theorem Exact.perm (exact_ : Exact host table) (same : other.rows.Perm table.rows) : Exact host other where
  parses row stored := exact_.parses row (same.mem_iff.mp stored)
  fits column summed := (same.map fun row => |column row|).sum_eq.trans_le (exact_.fits column summed)

/-- A table with the same rows has as many priced models. -/
private theorem Binds.perm {window : Option Window} {filters : Filters}
    (binds : Binds host pricing window filters table) (same : other.rows.Perm table.rows) :
    Binds host pricing window filters other := by
  have models : (other.distinct .model).Perm (table.distinct .model) := by
    refine (List.perm_ext_iff_of_nodup (List.nodup_eraseDups _) (List.nodup_eraseDups _)).mpr fun model => ?_
    change model ∈ other.distinct .model ↔ model ∈ table.distinct .model
    simp only [Requests.mem_distinct, same.mem_iff]
  have plans := (models.filterMap fun model => (planFor host pricing model).map fun plan => (model, plan)).length_eq
  rw [Binds, boundValues, plansOf_resolveModels, plans, ← plansOf_resolveModels]
  exact binds

private theorem fetchCells_perm {window : Option Window} {filters : Filters} (same : other.rows.Perm table.rows)
    {cells cells' : List Cell} (fetched : (fetchCells host window filters pricing).run table = .ok cells)
    (fetched' : (fetchCells host window filters pricing).run other = .ok cells') :
    SameCells host pricing cells' cells where
  labels label := by
    rw [exists_label_iff fetched', exists_label_iff fetched]
    simp only [(same.filter _).mem_iff]
  sums keep m := by
    rw [sum_cells_filter fetched', sum_cells_filter fetched]
    exact (((same.filter _).filter _).map _).sum_eq
  resolved c member := by
    rcases member with member | member
    · exact resolved_of_mem fetched' member
    · exact resolved_of_mem fetched member

/-- A window that every row is in selects what no window does. -/
private theorem fetchCells_window {window : Window} (within : ∀ row ∈ table.rows, window.admits row = true)
    (binds : Binds host pricing none {} table) {cells : List Cell}
    (fetched : (fetchCells host (some window) {} pricing).run table = .ok cells) :
    (fetchCells host none {} pricing).run table = .ok cells := by
  have groups : cellGroups none {} table = cellGroups (some window) {} table := by
    rw [cellGroups, cellGroups, List.filter_congr fun row stored => ?_]
    simp only [counted, Option.all_some, Option.all_none, within row stored]
  rw [run_fetchCells_ok_iff] at fetched ⊢
  rw [groups]
  exact ⟨binds, fetched.2⟩

end Table

section Cells

variable {dim : Dimension} {cells : List Cell}

private theorem entities_listed :
    (entities aliases cells dim).map (fun e => (e.key, e.label)) =
      (ranked (group (·.key dim) cells)).map fun entry => (entry.1, label dim aliases entry.1) := by
  rw [entities, List.map_map]
  conv_rhs => rw [← List.zipIdx_map_fst 0 (ranked (group (·.key dim) cells)), List.map_map]
  rfl

private theorem entities_nodup : ((entities aliases cells dim).map Entity.key).Nodup := by
  have keys := congrArg (List.map Prod.fst) (@entities_listed aliases dim cells)
  rw [List.map_map, List.map_map] at keys
  change (entities aliases cells dim).map Entity.key = (ranked (group (·.key dim) cells)).map Prod.fst at keys
  rw [keys]
  apply ((ranked_perm _).map Prod.fst).nodup_iff.mpr
  rw [group, List.accumulate_eq_groupOn, List.map_map]
  exact List.groupOn_keys_nodup _ _

private theorem entities_slot {i : ℕ} {e : Entity} (listed : (entities aliases cells dim)[i]? = some e) :
    e.slot = if i < slotCount then some i else none := by
  rw [entities, List.getElem?_map, List.getElem?_zipIdx] at listed
  obtain ⟨_, found, rfl⟩ := Option.map_eq_some_iff.mp listed
  obtain ⟨entry, _, rfl⟩ := Option.map_eq_some_iff.mp found
  simp only [Nat.zero_add]

end Cells

/-- Options answer, list each entity of the breakdown of all requests once and in its order, and give the first
seven their slots; rows in another order change neither list. -/
theorem options_list_breakdown {table : Requests} {end_ : ℤ} (exact_ : Exact host table)
    (binds : Binds host pricing none {} table) (before : ∀ row ∈ table.rows, (Window.mk none end_).admits row = true) :
    ∃ options, (queryOptions host pricing aliases).run table = .ok options ∧
      (∀ other : Requests, other.rows.Perm table.rows →
        (queryOptions host pricing aliases).run other = .ok options ∧
          ∀ dim requested tz breakdown,
            (queryBreakdown host dim ⟨none, end_⟩ requested tz {} pricing aliases).run other = .ok breakdown →
              breakdown.rows.map (fun row => (row.key, row.label)) =
                (options.entities dim).map fun e => (e.key, e.label)) ∧
      ∀ dim, ((options.entities dim).map Entity.key).Nodup ∧
        ∀ i e, (options.entities dim)[i]? = some e → e.slot = if i < slotCount then some i else none := by
  obtain ⟨cells, fetched⟩ := fetchCells_returns exact_.parses exact_.fits binds
  have shown (dim : Dimension) (cells : List Cell) :
      (OptionsResponse.mk (entities aliases cells .person) (entities aliases cells .model)
        (entities aliases cells .credential)).entities dim = entities aliases cells dim := by
    cases dim <;> rfl
  refine ⟨_, run_queryOptions_ok_iff.mpr ⟨cells, fetched, rfl⟩, ?_, ?_⟩
  · intro other perm
    have also := exact_.perm perm
    obtain ⟨cells', fetched'⟩ := fetchCells_returns also.parses also.fits (binds.perm perm)
    have same := fetchCells_perm perm fetched fetched'
    refine ⟨run_queryOptions_ok_iff.mpr ⟨cells', fetched', ?_⟩, ?_⟩
    · simp only [same.entities]
    · intro dim requested tz breakdown answered
      obtain ⟨ax, _, windowed, inWindow, previous, _, rfl⟩ := run_queryBreakdown_ok_iff.mp answered
      have all := fetchCells_window (fun row stored => before row (perm.mem_iff.mp stored)) (binds.perm perm) inWindow
      rw [shown, ← same.entities, entities_listed, Except.ok.inj (all.symm.trans fetched')]
      simp only [breakdownRows, List.map_map, Function.comp_def]
  · intro dim
    rw [shown]
    exact ⟨entities_nodup, fun i e => entities_slot⟩

def tiedRow (timestamp apiKey : String) : RequestRow :=
  ⟨timestamp, apiKey, "m", "dev@example.com", "0", 1200, 100, 10, 0, 0, 110, 0⟩

/-- Two people of equal cost and tokens, the last in the order of keys first in the table. -/
def tiedTable : Requests :=
  ⟨[tiedRow "2024-01-02T10:00:00Z" "sk-b-0002", tiedRow "2024-01-01T10:00:00Z" "sk-a-0001"], by decide⟩

theorem options_list_breakdown_tied :
    ∃ options, (queryOptions .utc .empty []).run tiedTable = .ok options ∧
      (∀ other : Requests, other.rows.Perm tiedTable.rows →
        (queryOptions .utc .empty []).run other = .ok options ∧
          ∀ dim requested tz breakdown,
            (queryBreakdown .utc dim ⟨none, 1704240000000000⟩ requested tz {} .empty []).run other = .ok breakdown →
              breakdown.rows.map (fun row => (row.key, row.label)) =
                (options.entities dim).map fun e => (e.key, e.label)) ∧
      ∀ dim, ((options.entities dim).map Entity.key).Nodup ∧
        ∀ i e, (options.entities dim)[i]? = some e → e.slot = if i < slotCount then some i else none := by
  have exact_ : Exact .utc tiedTable := by
    refine ⟨fun row stored => ?_, by decide +kernel⟩
    rcases List.mem_pair.mp stored with rfl | rfl <;> exact Except.exists_ok (by decide +kernel)
  exact options_list_breakdown exact_ (by decide +kernel) (by decide +kernel)

end CliproxyUsage
