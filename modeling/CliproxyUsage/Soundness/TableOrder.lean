import CliproxyUsage.Frontend.RichRows

/-! # The order of a table after any clicks on its headers

Clicks change only the direction and the column. Whatever was clicked before, the table shows the rows of the
breakdown sorted by its column, rows with equal values in the order of the response.
-/

namespace CliproxyUsage.Frontend

/-- The columns clicked so far; the initial order is that after a click on the share. -/
def headerClicks (clicks : List SortKey) : List SortKey := .column .share :: clicks

/-- The rows without a value in a column. -/
def valueless (rows : List RichRow) (column : Column) : List RichRow :=
  rows.filter fun r => sortValue r column = ⊥

/-- What a table shows of its rows in a state of its headers. -/
structure SortedTable (collate : String → String → Ordering) (name : RichRow → String) (rows shown : List RichRow)
    (sort : SortState) : Prop where
  perm : shown.Perm rows
  ascending : ¬sort.desc → shown.Pairwise fun a b => (compareRows collate name sort.key a b).isLE
  descending : sort.desc → shown.Pairwise fun a b => (compareRows collate name sort.key b a).isLE
  ties : ∀ r, shown.filter (fun other => compareRows collate name sort.key r other = .eq) =
    rows.filter fun other => compareRows collate name sort.key r other = .eq
  missing : ∀ column, sort.key = .column column →
    let present := shown.filter fun r => sortValue r column ≠ ⊥
    shown = if sort.desc then present ++ valueless rows column else valueless rows column ++ present

section Comparison

variable {collate : String → String → Ordering} {name : RichRow → String} {key : SortKey} {column : Column}
  {rows : List RichRow} {sort : SortState} {a b : RichRow}

private theorem compareRows_column :
    compareRows collate name (.column column) a b = compare (sortValue a column) (sortValue b column) := by
  change (if sortValue a column = sortValue b column then Ordering.eq
    else if sortValue a column < sortValue b column then .lt else .gt) = _
  rcases lt_trichotomy (sortValue a column) (sortValue b column) with less | equal | greater
  · rw [if_neg less.ne, if_pos less, compare_lt_iff_lt.mpr less]
  · rw [if_pos equal, compare_eq_iff_eq.mpr equal]
  · rw [if_neg greater.ne', if_neg greater.not_gt, compare_gt_iff_gt.mpr greater]

private theorem transCmp_compareRows (collate : String → String → Ordering) [Std.TransCmp collate]
    (name : RichRow → String) (key : SortKey) : Std.TransCmp (compareRows collate name key) := by
  cases key with
  | name =>
    have swap (a b : String) : collate a b = (collate b a).swap := Std.OrientedCmp.eq_swap
    have trans (a b c : String) : (collate a b).isLE → (collate b c).isLE → (collate a c).isLE := Std.TransCmp.isLE_trans
    exact { eq_swap := swap _ _, isLE_trans := trans _ _ _ }
  | column column =>
    have same : compareRows collate name (.column column) =
        fun a b => compare (sortValue a column) (sortValue b column) := by
      funext a b
      exact compareRows_column
    rw [same]
    exact { eq_swap := Std.OrientedCmp.eq_swap, isLE_trans := Std.TransCmp.isLE_trans }

private theorem directed_of_desc (desc : sort.desc) :
    directed collate name sort = fun a b => (compareRows collate name sort.key a b).swap := by
  funext a b
  exact if_pos desc

private theorem directed_of_not_desc (asc : ¬sort.desc) :
    directed collate name sort = compareRows collate name sort.key := by
  funext a b
  exact if_neg asc

private theorem directed_eq_iff : directed collate name sort a b = .eq ↔ compareRows collate name sort.key a b = .eq := by
  rw [directed]
  split
  · exact Ordering.swap_eq_eq
  · exact .rfl

/-- A valueless row is below every other one. -/
private theorem valueless_first (le : (compareRows collate name (.column column) a b).isLE) (none_ : sortValue b column = ⊥) :
    sortValue a column = ⊥ := by
  rw [compareRows_column, none_, Ordering.isLE_iff_ne_gt] at le
  apply le_bot_iff.mp
  exact not_lt.mp fun above => le (compare_gt_iff_gt.mpr above)

variable [Std.TransCmp collate]

private theorem sorted_ties (r : RichRow) :
    (sortRichRows collate name rows sort).filter (fun other => compareRows collate name sort.key r other = .eq) =
      rows.filter fun other => compareRows collate name sort.key r other = .eq := by
  have trans := transCmp_compareRows collate name sort.key
  refine List.filter_sortBy _ fun a b first second => ?_
  rw [directed_eq_iff]
  have before := of_decide_eq_true first
  rw [Std.OrientedCmp.eq_comm] at before
  exact Std.TransCmp.eq_trans before (of_decide_eq_true second)

private theorem sorted_ascending (asc : ¬sort.desc) : (sortRichRows collate name rows sort).Pairwise fun a b =>
    (compareRows collate name sort.key a b).isLE := by
  have trans := transCmp_compareRows collate name sort.key
  rw [sortRichRows, directed_of_not_desc asc]
  exact List.pairwise_sortBy _

private theorem sorted_descending (desc : sort.desc) : (sortRichRows collate name rows sort).Pairwise fun a b =>
    (compareRows collate name sort.key b a).isLE := by
  have trans := transCmp_compareRows collate name sort.key
  have opposite : directed collate name sort = fun a b => compareRows collate name sort.key b a := by
    rw [directed_of_desc desc]
    funext a b
    exact Std.OrientedCmp.eq_swap.symm
  rw [sortRichRows, opposite]
  exact List.pairwise_sortBy _

/-- The valueless rows are at one end, in the order of the response. -/
private theorem sorted_missing (active : sort.key = .column column) :
    let shown := sortRichRows collate name rows sort
    let present := shown.filter fun r => sortValue r column ≠ ⊥
    shown = if sort.desc then present ++ valueless rows column else valueless rows column ++ present := by
  intro shown present
  have kept : shown.filter (fun r => sortValue r column = ⊥) = valueless rows column := by
    refine List.filter_sortBy _ fun a b first second => ?_
    rw [directed_eq_iff, active, compareRows_column, of_decide_eq_true first, of_decide_eq_true second]
    exact compare_eq_iff_eq.mpr rfl
  have others : shown.filter (fun r => sortValue r column = ⊥) =
      shown.filter fun r => !decide (sortValue r column ≠ ⊥) := List.filter_congr fun r _ => by simp
  have rest : present = shown.filter fun r => !decide (sortValue r column = ⊥) := List.filter_congr fun r _ => by simp
  rw [← kept]
  symm
  split_ifs with desc
  · rw [others]
    apply List.filter_append_filter_of_pairwise
    refine (sorted_descending desc).imp fun {a b} le some_ => ?_
    rw [active] at le
    exact decide_eq_true fun none_ => of_decide_eq_true some_ (valueless_first le none_)
  · rw [rest]
    apply List.filter_append_filter_of_pairwise
    refine (sorted_ascending desc).imp fun {a b} le none_ => ?_
    rw [active] at le
    exact decide_eq_true (valueless_first le (of_decide_eq_true none_))

private theorem sorted_flip (ties : ∀ a ∈ rows, ∀ b ∈ rows, compareRows collate name sort.key a b = .eq → a = b) :
    sortRichRows collate name rows (nextSort sort sort.key) = (sortRichRows collate name rows sort).reverse := by
  have trans := transCmp_compareRows collate name sort.key
  have flipped := List.sortBy_swap (compareRows collate name sort.key) ties
  have next : nextSort sort sort.key = ⟨sort.key, !sort.desc⟩ := if_pos rfl
  rw [next, sortRichRows, sortRichRows]
  by_cases desc : sort.desc
  · have asc : ¬(!sort.desc) = true := by simp [desc]
    have ascends : directed collate name ⟨sort.key, !sort.desc⟩ = compareRows collate name sort.key := directed_of_not_desc asc
    rw [directed_of_desc desc, ascends, flipped, List.reverse_reverse]
  · have down : (!sort.desc) = true := by simpa using desc
    have descends : directed collate name ⟨sort.key, !sort.desc⟩ =
        fun a b => (compareRows collate name sort.key a b).swap := directed_of_desc down
    rw [directed_of_not_desc desc, descends, flipped]

end Comparison

section Clicks

variable {clicks earlier : List SortKey} {key : SortKey}

private theorem headerClicks_concat : headerClicks (clicks ++ [key]) = headerClicks clicks ++ [key] := rfl

/-- The column of the table is the one clicked last. -/
private theorem sorted_column : (headerClicks clicks).getLast? = some (clicks.foldl nextSort defaultSort).key := by
  induction clicks using List.reverseRecOn with
  | nil => rfl
  | append_singleton clicks key ih =>
    rw [headerClicks_concat, List.getLast?_concat, List.foldl_append, List.foldl_cons, List.foldl_nil, nextSort]
    split <;> rfl

/-- Names start ascending and other columns descending; each further click in a row flips the direction. -/
private theorem sorted_direction {n : ℕ} (history : headerClicks clicks = earlier ++ List.replicate (n + 1) key)
    (other : earlier.getLast? ≠ some key) :
    clicks.foldl nextSort defaultSort = ⟨key, if Even n then key ≠ .name else key = .name⟩ := by
  induction n generalizing clicks with
  | zero =>
    cases clicks using List.reverseRecOn with
    | nil =>
      have only : [] ++ [SortKey.column .share] = earlier ++ [key] := history
      obtain ⟨-, last⟩ := List.append_inj' only rfl
      cases last
      rfl
    | append_singleton clicks last =>
      rw [headerClicks_concat] at history
      obtain ⟨before, same⟩ := List.append_inj' history rfl
      cases same
      rw [← before, sorted_column] at other
      rw [List.foldl_append, List.foldl_cons, List.foldl_nil, nextSort]
      exact if_neg fun active => other (congrArg some active)
  | succ n ih =>
    rw [List.replicate_succ', ← List.append_assoc] at history
    cases clicks using List.reverseRecOn with
    | nil =>
      have lengths : 1 = (earlier ++ List.replicate (n + 1) key).length + 1 := by
        simpa only [headerClicks, List.length_append, List.length_singleton] using congrArg List.length history
      rw [List.length_append, List.length_replicate] at lengths
      omega
    | append_singleton clicks last =>
      rw [headerClicks_concat] at history
      obtain ⟨before, same⟩ := List.append_inj' history rfl
      cases same
      rw [List.foldl_append, List.foldl_cons, List.foldl_nil, ih before, nextSort]
      refine (if_pos rfl).trans (congrArg (SortState.mk key) ?_)
      by_cases even : Even n
      · simp [even, Nat.even_add_one]
      · simp [even, Nat.even_add_one]

end Clicks

/-- After any clicks on the headers: the column is the last one clicked, its direction depends on how often it was
clicked in a row, the rows are those of the breakdown in that order, and one more click on it reverses them. -/
theorem header_clicks_sort (collate : String → String → Ordering) [Std.TransCmp collate] (data : BreakdownResponse)
    (metric : Metric) (clicks : List SortKey) :
    let sort := clicks.foldl nextSort defaultSort
    let name := fun r : RichRow => displayName data.dim r.label
    let rows := buildRichRows data.rows data.dim metric
    (headerClicks clicks).getLast? = some sort.key ∧
    (∀ earlier key n, headerClicks clicks = earlier ++ List.replicate (n + 1) key → earlier.getLast? ≠ some key →
      sort.desc = if Even n then key ≠ .name else key = .name) ∧
    SortedTable collate name rows (tableRows collate data metric sort) sort ∧
    ((∀ a ∈ rows, ∀ b ∈ rows, compareRows collate name sort.key a b = .eq → a = b) →
      tableRows collate data metric (nextSort sort sort.key) = (tableRows collate data metric sort).reverse) := by
  refine ⟨sorted_column, fun earlier key n history other => ?_, ?_, sorted_flip⟩
  · rw [sorted_direction history other]
    by_cases even : Even n
    · simp [even]
    · simp [even]
  · exact ⟨List.perm_sortBy _, sorted_ascending, sorted_descending, sorted_ties, fun _ => sorted_missing⟩

/-- A row without trend and mix. -/
def pricedRow (key : String) (cost : Option ℚ) : BreakdownRow where
  key
  label := key
  current := ⟨2, 0, 100, 20, 0, 0, cost, .live, 1200, none⟩
  previous := none
  trend := ⟨[], [], [], []⟩
  mix := []
  price := none

/-- Two priced rows and one that is not. -/
def pricedData : BreakdownResponse := ⟨.model, .day, [], [pricedRow "m" (some 1), pricedRow "n" none, pricedRow "o" (some 3)]⟩

theorem header_clicks_sort_cost :
    let sort := [SortKey.column .cost].foldl nextSort defaultSort
    (tableRows compare pricedData .tokens sort).map RichRow.key = ["o", "m", "n"] ∧
      (tableRows compare pricedData .tokens (nextSort sort sort.key)).map RichRow.key = ["n", "m", "o"] ∧
      tableRows compare pricedData .tokens (nextSort sort sort.key) = (tableRows compare pricedData .tokens sort).reverse := by
  refine ⟨by decide +kernel, by decide +kernel, ?_⟩
  exact (header_clicks_sort compare pricedData .tokens [.column .cost]).2.2.2 (by decide +kernel)

end CliproxyUsage.Frontend
