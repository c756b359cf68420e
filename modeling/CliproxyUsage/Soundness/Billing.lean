import CliproxyUsage.Proofs.Cells

/-! # Cells bill each request once

The cost of any union of cells is the sum, over exactly the requests in it, of what each request
costs on its own. Nothing is assumed of the table, so a sum that overflows shows only as a query
that does not return.
-/

namespace CliproxyUsage

open Python Machine

variable {host : Host} {pricing : PricingMap} {window : Option Window} {filters : Filters}
  {table : Requests} {cells : List Cell}

/-- The attributes by which cells are grouped agree with those of a request. -/
def Cell.Holds (cell : Cell) (row : RequestRow) : Prop :=
  row.sliceNo = cell.sliceNo ∧ redactKey row.apiKey = cell.person ∧ modelKey row.model = cell.model ∧
    redactSource row.source = cell.credential

/-- Each returned cell beside the requests of its group. -/
theorem exists_parts (fetched : (fetchCells host window filters pricing).run table = .ok cells) :
    ∃ parts : List (Cell × List RequestRow), parts.map Prod.fst = cells ∧
      (parts.flatMap Prod.snd).Perm (table.rows.filter (counted window filters)) ∧
      ∀ part ∈ parts, part.1.requests = part.2.length ∧ (∀ row ∈ part.2, part.1.Holds row) ∧
        part.1.cost = (part.2.map (requestCost host pricing)).sum := by
  have built := List.mapM_ok_iff.mp (run_fetchCells_ok_iff.mp fetched).2
  obtain ⟨length, each⟩ := List.forall₂_iff_zip.mp built
  refine ⟨((cellGroups window filters table).zip cells).map fun pair => (pair.2, pair.1.2), ?_, ?_, ?_⟩
  · rw [List.map_map]
    exact List.map_snd_zip length.ge
  · rw [List.flatMap_map]
    have groups : ((cellGroups window filters table).zip cells).flatMap (fun pair => pair.1.2) =
        (cellGroups window filters table).flatMap Prod.snd := by
      conv_rhs => rw [← List.map_fst_zip length.le, List.flatMap_map]
    exact groups ▸ List.groupOn_flatMap_perm _ _
  · intro part member
    obtain ⟨⟨group, cell⟩, paired, rfl⟩ := List.mem_map.mp member
    have grouped := (List.of_mem_zip paired).1
    obtain ⟨_, members⟩ := cellGroups_members grouped
    obtain ⟨_, _, rfl⟩ := cellOf_ok (model_of_cellGroups grouped) (each paired)
    refine ⟨rfl, fun row present => ?_, rfl⟩
    rw [Cell.Holds, summedCell, ← (members row present).2.2]
    exact ⟨rfl, rfl, rfl, rfl⟩

private theorem cost_flatMap {parts : List (Cell × List RequestRow)}
    (priced : ∀ part ∈ parts, part.1.cost = (part.2.map (requestCost host pricing)).sum) :
    (parts.map fun part => part.1.cost).sum =
      ((parts.flatMap Prod.snd).map (requestCost host pricing)).sum := by
  rw [List.map_flatMap, List.flatMap_def, List.sum_flatten, List.map_map]
  exact congrArg List.sum (List.map_congr_left priced)

private theorem flatMap_filter_parts {parts : List (Cell × List RequestRow)} {keep : Cell → Bool}
    {select : RequestRow → Bool}
    (same : ∀ part ∈ parts, ∀ row ∈ part.2, select row = keep part.1) :
    (parts.filter fun part => keep part.1).flatMap Prod.snd = (parts.flatMap Prod.snd).filter select := by
  induction parts with
  | nil => rfl
  | cons part rest ih =>
    have later := ih fun other member => same other (List.mem_cons_of_mem _ member)
    have here : part.2.filter select = if keep part.1 then part.2 else [] := by
      rw [List.filter_congr (same part (List.mem_cons_self ..))]
      cases keep part.1 <;> simp
    rw [List.filter_cons, List.flatMap_cons, List.filter_append, here]
    cases keep part.1 <;> simp [later]

/-- Any union of cells, and any group of cells chosen by slice, person, model and credential, costs
what its own requests cost one by one; the requests of all cells are the counted ones, each once. -/
theorem cells_bill_each_request
    (fetched : (fetchCells host window filters pricing).run table = .ok cells) :
    (∃ parts : List (Cell × List RequestRow), parts.map Prod.fst = cells ∧
      (parts.flatMap Prod.snd).Perm (table.rows.filter (counted window filters)) ∧
      (∀ part ∈ parts, part.1.requests = part.2.length ∧ ∀ row ∈ part.2, part.1.Holds row) ∧
      ∀ union : List (Cell × List RequestRow), union.Sublist parts →
        (union.map fun part => part.1.cost).sum =
          ((union.flatMap Prod.snd).map (requestCost host pricing)).sum) ∧
    ∀ keep : Option ℤ → String → String → String → Bool,
      ((cells.filter fun c => keep c.sliceNo c.person c.model c.credential).map Cell.cost).sum =
        (((table.rows.filter (counted window filters)).filter fun row =>
          keep row.sliceNo (redactKey row.apiKey) (modelKey row.model) (redactSource row.source)).map
            (requestCost host pricing)).sum := by
  obtain ⟨parts, rfl, complete, each⟩ := exists_parts fetched
  refine ⟨⟨parts, rfl, complete, fun part member => ⟨(each part member).1, (each part member).2.1⟩,
    fun union within => cost_flatMap fun part member => (each part (within.subset member)).2.2⟩,
    fun keep => ?_⟩
  let chosen := fun c : Cell => keep c.sliceNo c.person c.model c.credential
  let select := fun row : RequestRow =>
    keep row.sliceNo (redactKey row.apiKey) (modelKey row.model) (redactSource row.source)
  have same : ∀ part ∈ parts, ∀ row ∈ part.2, select row = chosen part.1 := by
    intro part member row present
    obtain ⟨slice, person, model, credential⟩ := (each part member).2.1 row present
    simp only [select, chosen, slice, person, model, credential]
  calc
    (((parts.map Prod.fst).filter chosen).map Cell.cost).sum =
        ((parts.filter fun part => chosen part.1).map fun part => part.1.cost).sum := by
      rw [List.filter_map, List.map_map]; rfl
    _ = ((((parts.filter fun part => chosen part.1)).flatMap Prod.snd).map (requestCost host pricing)).sum :=
      cost_flatMap fun part member => (each part (List.mem_filter.mp member).1).2.2
    _ = (((parts.flatMap Prod.snd).filter select).map (requestCost host pricing)).sum := by
      rw [flatMap_filter_parts same]
    _ = _ := ((complete.filter select).map (requestCost host pricing)).sum_eq

/-- A request of a model whose input costs more past 200k tokens. -/
def tieredRow (timestamp : String) : RequestRow :=
  ⟨timestamp, "sk-team-0001", "m", "dev@example.com", "0", 1200, 150000, 10, 0, 0, 150010, 0⟩

def tieredPrice : ModelPricing where
  inputCostPerToken := 1 / 1000000
  outputCostPerToken := 0
  inputCostPerTokenAbove200kTokens := some (2 / 1000000)

def tieredPricing : PricingMap := ⟨[("m", tieredPrice)], by decide⟩

def tieredTable : Requests :=
  ⟨[tieredRow "2026-03-01T10:00:00Z", tieredRow "2026-03-01T11:01:00+01:00"], by decide⟩

/-- Both requests stay below the threshold that their sum passes. -/
def tieredCell : Cell where
  sliceNo := some 1969288
  person := "sk-*******-0001"
  model := "m"
  credential := "dev@example.com"
  requests := 2
  failed := 0
  inputTokens := 300000
  outputTokens := 20
  cachedTokens := 0
  reasoningTokens := 0
  latencySum := 2400
  lastUsed := 1772359260000000
  cost := 3 / 10
  status := .live
  plan := some (costPlan asciiLower tieredPrice)

theorem cells_bill_each_request_tiered :
    (∃ parts : List (Cell × List RequestRow), parts.map Prod.fst = [tieredCell] ∧
      (parts.flatMap Prod.snd).Perm (tieredTable.rows.filter (counted none {})) ∧
      (∀ part ∈ parts, part.1.requests = part.2.length ∧ ∀ row ∈ part.2, part.1.Holds row) ∧
      ∀ union : List (Cell × List RequestRow), union.Sublist parts →
        (union.map fun part => part.1.cost).sum =
          ((union.flatMap Prod.snd).map (requestCost .utc tieredPricing)).sum) ∧
    ∀ keep : Option ℤ → String → String → String → Bool,
      (([tieredCell].filter fun c => keep c.sliceNo c.person c.model c.credential).map Cell.cost).sum =
        (((tieredTable.rows.filter (counted none {})).filter fun row =>
          keep row.sliceNo (redactKey row.apiKey) (modelKey row.model) (redactSource row.source)).map
            (requestCost .utc tieredPricing)).sum :=
  cells_bill_each_request (by decide +kernel)

end CliproxyUsage
