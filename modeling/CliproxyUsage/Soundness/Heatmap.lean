import CliproxyUsage.Frontend.Heatmap
import CliproxyUsage.ToMathlib.ListTally
import Mathlib.Algebra.Order.BigOperators.Group.List
import Mathlib.Algebra.Order.Field.Rat
import Mathlib.Data.List.SplitLengths

/-! # A heatmap loses nothing

The layout ranks, cuts, regroups and indexes its columns in separate passes. Whatever the cells, these stay
aligned: every positive cell is added once, where the row and the column that show its keys cross.
-/

namespace CliproxyUsage.Frontend

section Ranks

variable {cells : List HeatCellInput} {pick : HeatCellInput → String}

/-- A ranking lists the keys of some cells once, each with what its cells amount to. -/
structure Ranks (cells : List HeatCellInput) (pick : HeatCellInput → String) (ranked : List (String × ℚ)) : Prop where
  unique : (ranked.map Prod.fst).Nodup
  keys : ∀ k, k ∈ ranked.map Prod.fst ↔ ∃ c ∈ cells, pick c = k
  totals : ∀ entry ∈ ranked, entry.2 = ((cells.filter fun c => decide (pick c = entry.1)).map HeatCellInput.value).sum
  sum : (ranked.map Prod.snd).sum = (cells.map HeatCellInput.value).sum

private theorem foldl_value (cells : List HeatCellInput) (start : ℚ) :
    cells.foldl (fun total c => total + c.value) start = start + (cells.map HeatCellInput.value).sum := by
  induction cells generalizing start with
  | nil => simp
  | cons c rest ih => rw [List.foldl_cons, ih, List.map_cons, List.sum_cons, add_assoc]

private theorem sumBy_eq : sumBy cells pick = (List.groupOn pick cells).map fun group =>
    (group.1, (group.2.map HeatCellInput.value).sum) := by
  rw [sumBy, List.accumulate_eq_groupOn]
  refine List.map_congr_left fun group _ => ?_
  rw [foldl_value, zero_add]

private theorem sumBy_ranks : Ranks cells pick (sumBy cells pick) := by
  have keys : (sumBy cells pick).map Prod.fst = (List.groupOn pick cells).map Prod.fst := by
    rw [sumBy_eq, List.map_map]
    rfl
  constructor
  · rw [keys]
    exact List.groupOn_keys_nodup _ _
  · intro k
    rw [keys, List.groupOn_keys]
    simp
  · intro entry listed
    rw [sumBy_eq] at listed
    obtain ⟨group, grouped, rfl⟩ := List.mem_map.mp listed
    rw [(List.mem_groupOn.mp grouped).2]
  · rw [sumBy_eq, List.map_map]
    exact List.sum_groupOn pick cells HeatCellInput.value

private theorem Ranks.perm {ranked other : List (String × ℚ)} (ranks : Ranks cells pick ranked)
    (same : other.Perm ranked) : Ranks cells pick other where
  unique := (same.map Prod.fst).nodup_iff.mpr ranks.unique
  keys k := (same.map Prod.fst).mem_iff.trans (ranks.keys k)
  totals entry listed := ranks.totals entry (same.mem_iff.mp listed)
  sum := (same.map Prod.snd).sum_eq.trans ranks.sum

/-- No key of positive cells drops out of their ranking. -/
private theorem ranked_ranks (positive : ∀ c ∈ cells, 0 < c.value) :
    Ranks cells pick (rankedPositive (sumBy cells pick)) := by
  apply sumBy_ranks.perm
  have all : (sumBy cells pick).filter (fun entry => decide (0 < entry.2)) = sumBy cells pick := by
    refine List.filter_eq_self.mpr fun entry listed => decide_eq_true ?_
    rw [sumBy_ranks.totals entry listed]
    obtain ⟨c, member, own⟩ := (sumBy_ranks.keys entry.1).mp (List.mem_map_of_mem listed)
    refine List.sum_pos _ (fun value listed => ?_) ?_
    · obtain ⟨other, present, rfl⟩ := List.mem_map.mp listed
      exact positive other (List.mem_of_mem_filter present)
    · have present : c ∈ cells.filter fun c => decide (pick c = entry.1) :=
        List.mem_filter.mpr ⟨member, decide_eq_true own⟩
      exact List.ne_nil_of_mem (List.mem_map_of_mem present)
  rw [rankedPositive, all]
  exact List.perm_insertionSort _ _

/-- The rows of some keys amount to the cells of these keys. -/
private theorem Ranks.sum_part {ranked part : List (String × ℚ)} (ranks : Ranks cells pick ranked)
    (part_ : part.Sublist ranked) : (part.map Prod.snd).sum =
      ((cells.filter fun c => decide (pick c ∈ part.map Prod.fst)).map HeatCellInput.value).sum := by
  have unique := (part_.map Prod.fst).nodup ranks.unique
  have whole := (List.flatMap_filter_keys pick (part.map Prod.fst) cells unique).map HeatCellInput.value
  rw [← whole.sum_eq, List.map_flatMap, List.flatMap_def, List.sum_flatten, List.map_map, List.map_map]
  exact congrArg List.sum (List.map_congr_left fun entry listed => ranks.totals entry (part_.subset listed))

end Ranks

section Columns

variable {cells : List HeatCellInput} {family : String → String} {kept rest ranked : List (String × ℚ)}

/-- The entity columns of one family. -/
def familyColumns (family : String → String) (kept : List (String × ℚ)) (f : String) : List HeatColumn :=
  (familyMembers family kept f).map fun entry => .entity entry.1 entry.2

/-- The entity columns, family by family. -/
def keptColumns (family : String → String) (kept : List (String × ℚ)) : List HeatColumn :=
  (familiesOf family kept).flatMap (familyColumns family kept)

private theorem families_perm : ((familiesOf family kept).flatMap (familyMembers family kept)).Perm kept := by
  have groups := List.groupOn_flatMap_perm (fun entry : String × ℚ => family entry.1) kept
  rwa [List.groupOn, List.flatMap_map] at groups

/-- Every ranked key stands in one column. -/
private theorem columns_keys : ((keptColumns family kept ++ moreColumn rest).flatMap HeatColumn.keys).Perm
    ((kept ++ rest).map Prod.fst) := by
  have first : (keptColumns family kept).flatMap HeatColumn.keys =
      ((familiesOf family kept).flatMap (familyMembers family kept)).map Prod.fst := by
    rw [keptColumns, List.flatMap_assoc, List.map_flatMap]
    refine List.flatMap_congr fun f _ => ?_
    rw [familyColumns, List.flatMap_map]
    exact List.flatMap_pure_eq_map _ _
  have last : (moreColumn rest).flatMap HeatColumn.keys = rest.map Prod.fst := by
    rw [moreColumn]
    cases rest <;> simp [HeatColumn.keys]
  rw [List.flatMap_append, first, last, List.map_append]
  exact (families_perm.map Prod.fst).append_right _

/-- A column amounts to the cells of its keys. -/
private theorem total_of_column (ranks : Ranks cells HeatCellInput.col ranked) (cut : kept ++ rest = ranked)
    {column : HeatColumn} (listed : column ∈ keptColumns family kept ++ moreColumn rest) :
    column.total = ((cells.filter fun c => decide (c.col ∈ column.keys)).map HeatCellInput.value).sum := by
  rcases List.mem_append.mp listed with kept_ | more
  · obtain ⟨f, _, inFamily⟩ := List.mem_flatMap.mp kept_
    obtain ⟨entry, member, rfl⟩ := List.mem_map.mp inFamily
    have present : entry ∈ ranked := cut ▸ List.mem_append_left rest (List.mem_of_mem_filter member)
    simpa [HeatColumn.total, HeatColumn.keys] using ranks.totals entry present
  · rw [moreColumn] at more
    split at more
    · cases List.mem_singleton.mp more
      exact ranks.sum_part (cut ▸ List.sublist_append_right kept rest)
    · cases more

end Columns

section Index

variable {rows : List (String × ℚ)} {columns : List HeatColumn}

private theorem lookup_rowIndex (unique : (rows.map Prod.fst).Nodup) {key : String} {i : ℕ} :
    (rowIndex rows).lookup key = some i ↔ ∃ total, rows[i]? = some (key, total) := by
  have keys : ((rows.zipIdx.map fun entry => (entry.1.1, entry.2)).map Prod.fst) = rows.map Prod.fst := by
    conv_rhs => rw [← List.zipIdx_map_fst 0 rows]
    rw [List.map_map, List.map_map]
    rfl
  rw [rowIndex, List.accumulate_of_nodup (keys ▸ unique), List.lookup_eq_some_iff_mem (keys ▸ unique), List.mem_map]
  simp only [Prod.exists, Prod.mk.injEq, List.mk_mem_zipIdx_iff_getElem?]
  constructor
  · rintro ⟨_, total, _, found, rfl, rfl⟩
    exact ⟨total, found⟩
  · rintro ⟨total, found⟩
    exact ⟨key, total, i, found, rfl, rfl⟩

private theorem lookup_colIndex (unique : (columns.flatMap HeatColumn.keys).Nodup) {key : String} {j : ℕ} :
    (colIndex columns).lookup key = some j ↔ ∃ column, columns[j]? = some column ∧ key ∈ column.keys := by
  have keys : ((columns.zipIdx.flatMap fun entry => entry.1.keys.map fun key => (key, entry.2)).map Prod.fst) =
      columns.flatMap HeatColumn.keys := by
    conv_rhs => rw [← List.zipIdx_map_fst 0 columns, List.flatMap_map]
    rw [List.map_flatMap]
    refine List.flatMap_congr fun entry _ => ?_
    rw [List.map_map]
    exact List.map_id _
  rw [colIndex, List.accumulate_of_nodup (keys ▸ unique), List.lookup_eq_some_iff_mem (keys ▸ unique), List.mem_flatMap]
  simp only [Prod.exists, List.mk_mem_zipIdx_iff_getElem?, List.mem_map, Prod.mk.injEq]
  constructor
  · rintro ⟨column, _, found, _, own, rfl, rfl⟩
    exact ⟨column, found, own⟩
  · rintro ⟨column, found, own⟩
    exact ⟨column, j, found, key, own, rfl, rfl⟩

end Index

section Groups

variable {family : String → String} {kept rest : List (String × ℚ)}

def HeatColumn.inFamily (family : String → String) (f : String) : HeatColumn → Bool
  | .entity key _ => decide (family key = f)
  | .more _ _ => false

private theorem splitLengths_flatten {α : Type} (blocks : List (List α)) :
    (blocks.map List.length).splitLengths blocks.flatten = blocks := by
  induction blocks with
  | nil => rfl
  | cons block later ih =>
    rw [List.map_cons, List.splitLengths_cons, List.flatten_cons, List.take_left', List.drop_left', ih]
    · rfl
    · rfl

private theorem filter_familyColumns (f g : String) :
    (familyColumns family kept g).filter (HeatColumn.inFamily family f) =
      if g = f then familyColumns family kept f else [] := by
  split
  · next same =>
    subst same
    refine List.filter_eq_self.mpr fun column listed => ?_
    obtain ⟨entry, member, rfl⟩ := List.mem_map.mp listed
    exact (List.mem_filter.mp member).2
  · next other =>
    refine List.filter_eq_nil_iff.mpr fun column listed inFamily => ?_
    obtain ⟨entry, member, rfl⟩ := List.mem_map.mp listed
    exact other ((of_decide_eq_true (List.mem_filter.mp member).2).symm.trans (of_decide_eq_true inFamily))

private theorem flatMap_if_mem {α β : Type} [DecidableEq α] {items : List α} (unique : items.Nodup) {a : α}
    (member : a ∈ items) (block : List β) : (items.flatMap fun b => if b = a then block else []) = block := by
  induction items with
  | nil => contradiction
  | cons b later ih =>
    obtain ⟨fresh, unique⟩ := List.nodup_cons.mp unique
    rw [List.flatMap_cons]
    by_cases here : b = a
    · have none_ : (later.flatMap fun b => if b = a then block else []) = [] := by
        refine List.flatMap_eq_nil_iff.mpr fun other listed => if_neg ?_
        rintro rfl
        exact fresh (here ▸ listed)
      rw [if_pos here, none_, List.append_nil]
    · rw [if_neg here, List.nil_append, ih unique ((List.mem_cons.mp member).resolve_left (Ne.symm here))]

/-- The columns of a family are those of its group. -/
private theorem filter_columns {f : String} (listed : f ∈ familiesOf family kept) :
    (keptColumns family kept ++ moreColumn rest).filter (HeatColumn.inFamily family f) = familyColumns family kept f := by
  have none_ : (moreColumn rest).filter (HeatColumn.inFamily family f) = [] := by
    rw [moreColumn]
    split <;> rfl
  rw [List.filter_append, none_, List.append_nil, keptColumns, List.filter_flatMap]
  simp only [filter_familyColumns]
  exact flatMap_if_mem (List.nodup_eraseDups _) listed _

private theorem familyColumns_ne_nil {f : String} (listed : f ∈ familiesOf family kept) : familyColumns family kept f ≠ [] := by
  rw [familiesOf, List.mem_eraseDups] at listed
  obtain ⟨entry, member, own⟩ := List.mem_map.mp listed
  have inFamily : entry ∈ familyMembers family kept f := List.mem_filter.mpr ⟨member, decide_eq_true own⟩
  exact List.ne_nil_of_mem (List.mem_map_of_mem inFamily)

/-- What a group spans: its family, or the column of the rest. -/
private theorem mem_groups {pair : HeatGroup × List HeatColumn}
    (member : pair ∈ ((familiesOf family kept).map (fun f => HeatGroup.mk f (familyMembers family kept f).length) ++
        (moreColumn rest).map fun _ => HeatGroup.mk "" 1).zip
      ((familiesOf family kept).map (familyColumns family kept) ++ (moreColumn rest).map fun column => [column])) :
    (∃ f ∈ familiesOf family kept, pair.1.name = f ∧ pair.2 = familyColumns family kept f) ∨
      ∃ keys total, pair.1.name = "" ∧ pair.2 = [.more keys total] := by
  rw [List.zip_append (by simp), List.mem_append, List.zip_map', List.zip_map', List.mem_map, List.mem_map] at member
  rcases member with ⟨f, listed, rfl⟩ | ⟨column, listed, rfl⟩
  · exact .inl ⟨f, listed, rfl, rfl⟩
  · rw [moreColumn] at listed
    split at listed
    · cases List.mem_singleton.mp listed
      exact .inr ⟨_, _, rfl, rfl⟩
    · cases listed

end Groups

def HeatColumn.entity? : HeatColumn → Option (String × ℚ)
  | .entity key total => some (key, total)
  | .more _ _ => none

/-- What is shown of the positive cells is all of them, once. -/
structure HeatmapLayout.Conserves (cells : List HeatCellInput) (opts : HeatmapOptions) (h : HeatmapLayout) : Prop where
  shape : h.values.length = h.rows.length ∧ ∀ line ∈ h.values, line.length = h.columns.length
  rowSums : h.values.map List.sum = h.rows.map Prod.snd
  columnSums : ∀ (j : ℕ) column, h.columns[j]? = some column →
    (h.values.map fun own => own[j]?.getD 0).sum = column.total
  grandSum : h.values.flatten.sum = h.grand
  grand : h.grand = ((cells.filter fun c => 0 < c.value).map HeatCellInput.value).sum
  rowKeys : (h.rows.map Prod.fst).Nodup ∧ ∀ k, k ∈ h.rows.map Prod.fst ↔ ∃ c ∈ cells, 0 < c.value ∧ c.row = k
  columnKeys : (h.columns.flatMap HeatColumn.keys).Nodup ∧
    ∀ k, k ∈ h.columns.flatMap HeatColumn.keys ↔ ∃ c ∈ cells, 0 < c.value ∧ c.col = k
  kept : (h.columns.filterMap HeatColumn.entity?).Perm
    ((rankedPositive (sumBy (cells.filter fun c => 0 < c.value) HeatCellInput.col)).take opts.maxColumns)
  spans : (h.groups.map HeatGroup.span).sum = h.columns.length
  groups : ∀ pair ∈ h.groups.zip ((h.groups.map HeatGroup.span).splitLengths h.columns),
    (pair.2 ≠ [] ∧ pair.2 = h.columns.filter (HeatColumn.inFamily opts.family pair.1.name)) ∨
      ∃ keys total, pair.1.name = "" ∧ pair.2 = [.more keys total]
  max : h.values.flatten.max?.getD 0 = h.max

section Layout

variable (cells : List HeatCellInput) (opts : HeatmapOptions)

private def positiveCells : List HeatCellInput := cells.filter fun c => 0 < c.value

private def layoutRows : List (String × ℚ) := rankedPositive (sumBy (positiveCells cells) HeatCellInput.row)

private def layoutKept : List (String × ℚ) :=
  (rankedPositive (sumBy (positiveCells cells) HeatCellInput.col)).take opts.maxColumns

private def layoutRest : List (String × ℚ) :=
  (rankedPositive (sumBy (positiveCells cells) HeatCellInput.col)).drop opts.maxColumns

private def layoutColumns : List HeatColumn :=
  keptColumns opts.family (layoutKept cells opts) ++ moreColumn (layoutRest cells opts)

private def layoutBlocks : List (List HeatColumn) :=
  (familiesOf opts.family (layoutKept cells opts)).map (familyColumns opts.family (layoutKept cells opts)) ++
    (moreColumn (layoutRest cells opts)).map fun column => [column]

private theorem positive_of_mem {c : HeatCellInput} (member : c ∈ positiveCells cells) : 0 < c.value :=
  of_decide_eq_true (List.mem_filter.mp member).2

private theorem mem_positive {c : HeatCellInput} : c ∈ positiveCells cells ↔ c ∈ cells ∧ 0 < c.value := by
  rw [positiveCells, List.mem_filter, decide_eq_true_eq]

private theorem rows_ranks : Ranks (positiveCells cells) HeatCellInput.row (layoutRows cells) :=
  ranked_ranks fun _ => positive_of_mem cells

private theorem columns_ranks : Ranks (positiveCells cells) HeatCellInput.col
    (layoutKept cells opts ++ layoutRest cells opts) := by
  rw [layoutKept, layoutRest, List.take_append_drop]
  exact ranked_ranks fun _ => positive_of_mem cells

/-- The values are the totals of the positive cells at the crossings of the two indices. -/
private theorem values_eq : (buildHeatmap cells opts).values =
    List.crossTally (layoutRows cells).length (layoutColumns cells opts).length
      (fun c => (rowIndex (layoutRows cells)).lookup c.row) (fun c => (colIndex (layoutColumns cells opts)).lookup c.col)
      HeatCellInput.value (positiveCells cells) := rfl

private theorem columns_unique : ((layoutColumns cells opts).flatMap HeatColumn.keys).Nodup :=
  columns_keys.nodup_iff.mpr (columns_ranks cells opts).unique

private theorem row_placed {c : HeatCellInput} (member : c ∈ positiveCells cells) :
    ∃ i < (layoutRows cells).length, (rowIndex (layoutRows cells)).lookup c.row = some i := by
  obtain ⟨entry, listed, own⟩ := List.mem_map.mp (((rows_ranks cells).keys c.row).mpr ⟨c, member, rfl⟩)
  obtain ⟨i, inside, at_⟩ := List.getElem_of_mem listed
  refine ⟨i, inside, (lookup_rowIndex (rows_ranks cells).unique).mpr ⟨entry.2, ?_⟩⟩
  rw [List.getElem?_eq_getElem inside, at_, ← own]

private theorem column_placed {c : HeatCellInput} (member : c ∈ positiveCells cells) :
    ∃ j < (layoutColumns cells opts).length, (colIndex (layoutColumns cells opts)).lookup c.col = some j := by
  have listed : c.col ∈ (layoutColumns cells opts).flatMap HeatColumn.keys :=
    columns_keys.mem_iff.mpr (((columns_ranks cells opts).keys c.col).mpr ⟨c, member, rfl⟩)
  obtain ⟨column, present, own⟩ := List.mem_flatMap.mp listed
  obtain ⟨j, inside, at_⟩ := List.getElem_of_mem present
  refine ⟨j, inside, (lookup_colIndex (columns_unique cells opts)).mpr ⟨column, ?_, own⟩⟩
  rw [List.getElem?_eq_getElem inside, at_]

private theorem row_sums : (buildHeatmap cells opts).values.map List.sum = (layoutRows cells).map Prod.snd := by
  rw [values_eq, List.map_sum_crossTally fun c => column_placed cells opts]
  refine List.ext_getElem? fun i => ?_
  rw [List.getElem?_map, List.getElem?_map]
  cases found : (layoutRows cells)[i]? with
  | none =>
    have outside : (List.range (layoutRows cells).length)[i]? = none := by
      simpa using found
    rw [outside]
    rfl
  | some entry =>
    obtain ⟨inside, _⟩ := List.getElem?_eq_some_iff.mp found
    rw [List.getElem?_range inside, Option.map_some, Option.map_some]
    rw [(rows_ranks cells).totals entry (List.mem_of_getElem? found)]
    refine congrArg (fun part : List HeatCellInput => some (part.map HeatCellInput.value).sum) ?_
    refine List.filter_congr fun c _ => decide_eq_decide.mpr ?_
    rw [lookup_rowIndex (rows_ranks cells).unique, found]
    constructor
    · rintro ⟨total, same⟩
      rw [Option.some.inj same]
    · rintro own
      exact ⟨entry.2, congrArg some (Prod.ext own.symm rfl)⟩

private theorem column_sums {j : ℕ} {column : HeatColumn} (found : (layoutColumns cells opts)[j]? = some column) :
    ((buildHeatmap cells opts).values.map fun own => own[j]?.getD 0).sum = column.total := by
  obtain ⟨inside, _⟩ := List.getElem?_eq_some_iff.mp found
  rw [values_eq, List.sum_column_crossTally (fun c => row_placed cells) inside,
    total_of_column (columns_ranks cells opts) rfl (List.mem_of_getElem? found)]
  refine congrArg (fun part : List HeatCellInput => (part.map HeatCellInput.value).sum) ?_
  refine List.filter_congr fun c _ => decide_eq_decide.mpr ?_
  rw [lookup_colIndex (columns_unique cells opts), found]
  constructor
  · rintro ⟨_, same, own⟩
    rwa [Option.some.inj same]
  · intro own
    exact ⟨column, rfl, own⟩

private theorem values_nonneg {line : List ℚ} (listed : line ∈ (buildHeatmap cells opts).values) {x : ℚ}
    (member : x ∈ line) : 0 ≤ x := by
  rw [values_eq, List.crossTally_eq] at listed
  obtain ⟨i, _, rfl⟩ := List.mem_map.mp listed
  rw [List.tally_eq] at member
  obtain ⟨j, _, rfl⟩ := List.mem_map.mp member
  refine List.sum_nonneg fun value shown => ?_
  obtain ⟨c, present, rfl⟩ := List.mem_map.mp shown
  exact (positive_of_mem cells (List.mem_of_mem_filter (List.mem_of_mem_filter present))).le

/-- The largest of numbers that are not negative, or 0. -/
private theorem foldl_max_eq {items : List ℚ} (nonneg : ∀ x ∈ items, 0 ≤ x) : items.max?.getD 0 = items.foldl max 0 := by
  cases items with
  | nil => rfl
  | cons x later =>
    rw [List.max?_cons', Option.getD_some, List.foldl_cons, max_eq_right (nonneg x (List.mem_cons_self ..))]

private theorem entities_eq : (layoutColumns cells opts).filterMap HeatColumn.entity? =
    (familiesOf opts.family (layoutKept cells opts)).flatMap (familyMembers opts.family (layoutKept cells opts)) := by
  have last : (moreColumn (layoutRest cells opts)).filterMap HeatColumn.entity? = [] := by
    rw [moreColumn]
    split <;> rfl
  rw [layoutColumns, List.filterMap_append, last, List.append_nil, keptColumns, List.filterMap_flatMap]
  refine List.flatMap_congr fun f _ => ?_
  rw [familyColumns, List.filterMap_map]
  exact List.filterMap_some

private theorem columns_flatten : (buildHeatmap cells opts).columns = (layoutBlocks cells opts).flatten := by
  have last : (moreColumn (layoutRest cells opts)) =
      ((moreColumn (layoutRest cells opts)).map fun column => [column]).flatten := by
    rw [← List.flatMap_def]
    exact (List.flatMap_singleton' _).symm
  rw [layoutBlocks, List.flatten_append, ← last, ← List.flatMap_def]
  rfl

private theorem spans_eq : (buildHeatmap cells opts).groups.map HeatGroup.span =
    (layoutBlocks cells opts).map List.length := by
  rw [layoutBlocks, List.map_append, List.map_map, List.map_map]
  simp only [Function.comp_def, familyColumns, List.length_map, List.length_singleton]
  exact (List.map_append ..).trans (by rw [List.map_map, List.map_map]; rfl)

end Layout

/-- The heatmap of any cells conserves them. -/
theorem heatmap_conserves (cells : List HeatCellInput) (opts : HeatmapOptions) :
    (buildHeatmap cells opts).Conserves cells opts where
  shape := by
    rw [values_eq, List.crossTally_eq]
    refine ⟨?_, fun line listed => ?_⟩
    · rw [List.length_map, List.length_range]
      rfl
    · obtain ⟨i, _, rfl⟩ := List.mem_map.mp listed
      rw [List.length_tally]
      rfl
  rowSums := row_sums cells opts
  columnSums _ _ := column_sums cells opts
  grandSum := by
    rw [List.sum_flatten, row_sums]
    rfl
  grand := (rows_ranks cells).sum
  rowKeys := by
    refine ⟨(rows_ranks cells).unique, fun k => ((rows_ranks cells).keys k).trans ?_⟩
    simp only [mem_positive, and_assoc]
  columnKeys := by
    refine ⟨columns_unique cells opts, fun k => ?_⟩
    refine columns_keys.mem_iff.trans (((columns_ranks cells opts).keys k).trans ?_)
    simp only [mem_positive, and_assoc]
  kept := by
    change ((layoutColumns cells opts).filterMap HeatColumn.entity?).Perm (layoutKept cells opts)
    rw [entities_eq]
    exact families_perm
  spans := by
    rw [spans_eq, columns_flatten, List.length_flatten]
  groups := by
    intro pair member
    rw [spans_eq, columns_flatten, splitLengths_flatten] at member
    rcases mem_groups member with ⟨f, listed, name, spanned⟩ | more
    · refine .inl ⟨spanned ▸ familyColumns_ne_nil listed, ?_⟩
      rw [spanned, name]
      exact (filter_columns listed).symm
    · exact .inr more
  max := by
    refine foldl_max_eq fun x member => ?_
    obtain ⟨line, listed, present⟩ := List.mem_flatten.mp member
    exact values_nonneg cells opts listed present

end CliproxyUsage.Frontend
