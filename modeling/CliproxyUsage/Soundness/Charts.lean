import CliproxyUsage.Frontend.Charts
import CliproxyUsage.Proofs.Totals
import Mathlib.Algebra.BigOperators.Ring.List
import Mathlib.Algebra.Order.BigOperators.Group.List

/-! # The share bar and the stacked chart agree

The bar drops the rows whose total is zero, the chart those whose every bucket is. In a breakdown whose trends
add up to its totals these are the same rows, so both views show the same entities with the same amounts.
-/

namespace CliproxyUsage.Frontend

open Python

/-- Trends are aligned with the buckets, not negative, and add up to the totals of their rows. -/
structure Consistent (data : BreakdownResponse) : Prop where
  aligned : ∀ r ∈ data.rows, ∀ m, (r.trend.values m).length = data.buckets.length
  nonneg : ∀ r ∈ data.rows, ∀ m, ∀ x ∈ r.trend.values m, 0 ≤ x
  sums : ∀ r ∈ data.rows, ∀ m, (r.trend.values m).sum = r.current.measure m.measure

section Series

variable {data : BreakdownResponse} {metric : Metric} {r : BreakdownRow}

private theorem tokenSeries_eq {trend : Trend} (aligned : trend.inputTokens.length = trend.outputTokens.length) :
    tokenSeries trend = List.zipWith (· + ·) trend.inputTokens trend.outputTokens := by
  refine List.ext_getElem? fun i => ?_
  rw [tokenSeries, List.getElem?_mapIdx, List.getElem?_zipWith]
  cases input : trend.inputTokens[i]? with
  | none => rfl
  | some x =>
    have inside : i < trend.outputTokens.length := aligned ▸ (List.getElem?_eq_some_iff.mp input).1
    rw [List.getElem?_eq_getElem inside]
    rfl

private theorem sum_zipWith_add {xs ys : List ℚ} (aligned : xs.length = ys.length) :
    (List.zipWith (· + ·) xs ys).sum = xs.sum + ys.sum := by
  induction xs generalizing ys with
  | nil => simp [List.length_eq_zero_iff.mp aligned.symm]
  | cons x rest ih =>
    cases ys with
    | nil => cases aligned
    | cons y later =>
      rw [List.zipWith_cons_cons, List.sum_cons, List.sum_cons, List.sum_cons, ih (by simpa using aligned)]
      ring

theorem series_length (consistent : Consistent data) (member : r ∈ data.rows) :
    (metricSeries r.trend metric).length = data.buckets.length := by
  cases metric with
  | cost => exact consistent.aligned r member .cost
  | tokens =>
    rw [metricSeries, tokenSeries, List.length_mapIdx]
    exact consistent.aligned r member .inputTokens

private theorem tokens_aligned (consistent : Consistent data) (member : r ∈ data.rows) :
    r.trend.inputTokens.length = r.trend.outputTokens.length :=
  (consistent.aligned r member .inputTokens).trans (consistent.aligned r member .outputTokens).symm

private theorem series_eq (consistent : Consistent data) (member : r ∈ data.rows) :
    metricSeries r.trend .tokens = List.zipWith (· + ·) r.trend.inputTokens r.trend.outputTokens :=
  tokenSeries_eq (tokens_aligned consistent member)

theorem series_nonneg (consistent : Consistent data) (member : r ∈ data.rows) :
    ∀ x ∈ metricSeries r.trend metric, 0 ≤ x := by
  cases metric with
  | cost => exact consistent.nonneg r member .cost
  | tokens =>
    rw [series_eq consistent member]
    intro x listed
    obtain ⟨i, inside, rfl⟩ := List.getElem_of_mem listed
    rw [List.getElem_zipWith]
    exact add_nonneg (consistent.nonneg r member .inputTokens _ (List.getElem_mem _))
      (consistent.nonneg r member .outputTokens _ (List.getElem_mem _))

theorem series_sum (consistent : Consistent data) (member : r ∈ data.rows) :
    (metricSeries r.trend metric).sum = metricValue r.current metric := by
  cases metric with
  | cost => exact consistent.sums r member .cost
  | tokens =>
    rw [series_eq consistent member, sum_zipWith_add (tokens_aligned consistent member)]
    exact congrArg₂ (· + ·) (consistent.sums r member .inputTokens) (consistent.sums r member .outputTokens)

theorem value_nonneg (consistent : Consistent data) (member : r ∈ data.rows) :
    0 ≤ metricValue r.current metric :=
  series_sum consistent member ▸ List.sum_nonneg (series_nonneg consistent member)

/-- A row has a positive bucket exactly when its total is positive. -/
private theorem any_iff (consistent : Consistent data) (member : r ∈ data.rows) :
    (metricSeries r.trend metric).any (fun v => decide (0 < v)) = decide (0 < metricValue r.current metric) := by
  rw [Bool.eq_iff_iff, List.any_eq_true, decide_eq_true_eq, ← series_sum consistent member]
  constructor
  · rintro ⟨x, listed, positive⟩
    exact (of_decide_eq_true positive).trans_le (List.single_le_sum (series_nonneg consistent member) x listed)
  · intro positive
    by_contra none_
    refine positive.ne' (List.sum_eq_zero fun x listed => ?_)
    refine le_antisymm (not_lt.mp fun some_ => none_ ⟨x, listed, decide_eq_true some_⟩) ?_
    exact series_nonneg consistent member x listed

end Series

/-- The rows with a positive value. -/
def positiveRows (data : BreakdownResponse) (metric : Metric) : List BreakdownRow :=
  data.rows.filter fun r => 0 < metricValue r.current metric

def slotOf (data : BreakdownResponse) (lookup : EntityLookup) (r : BreakdownRow) : Option ℕ :=
  (lookup.entity data.dim r.key).slot

def slottedRows (data : BreakdownResponse) (metric : Metric) (lookup : EntityLookup) : List BreakdownRow :=
  (positiveRows data metric).filter fun r => (slotOf data lookup r).isSome

def otherRows (data : BreakdownResponse) (metric : Metric) (lookup : EntityLookup) : List BreakdownRow :=
  (positiveRows data metric).filter fun r => (slotOf data lookup r).isNone

/-- The part of the total that a value is. -/
def shareOf (data : BreakdownResponse) (metric : Metric) (value : ℚ) : ℚ :=
  let total := ((positiveRows data metric).map fun r => metricValue r.current metric).sum
  if 0 < total then value / total else 0

/-- The segment of a slotted row. -/
def rowSegment (data : BreakdownResponse) (metric : Metric) (lookup : EntityLookup) (r : BreakdownRow) : ShareSegment :=
  .entity r.key ((slotOf data lookup r).getD 0) (metricValue r.current metric)
    (shareOf data metric (metricValue r.current metric))

/-- The layer of a slotted row. -/
def rowLayer (data : BreakdownResponse) (metric : Metric) (lookup : EntityLookup) (r : BreakdownRow) : ChartLayer :=
  ⟨displayName data.dim r.label, lookup.slotColor (slotOf data lookup r), metricSeries r.trend metric⟩

/-- The segment of the rows without a slot. -/
def otherSegment (data : BreakdownResponse) (metric : Metric) (others : List BreakdownRow) : ShareSegment :=
  let value := (others.map fun r => metricValue r.current metric).sum
  .other (others.map BreakdownRow.key) s!"Other ({others.length})" value (shareOf data metric value)

/-- The layer of the rows without a slot. -/
def otherLayer (data : BreakdownResponse) (metric : Metric) (lookup : EntityLookup) (others : List BreakdownRow) :
    ChartLayer :=
  ⟨"Other", lookup.slotColor none, (List.range data.buckets.length).map fun i =>
    (others.map fun r => (metricSeries r.trend metric)[i]?.getD 0).sum⟩

section Bar

variable {data : BreakdownResponse} {metric : Metric} {lookup : EntityLookup}

private theorem foldl_add (share : ℚ → ℚ) (f : BreakdownRow → ShareItem) (rows : List BreakdownRow) (start : ShareFold) :
    (rows.map f).foldl (ShareFold.add share) start =
      { segs := start.segs ++ (rows.filter fun r => (f r).slot.isSome).map fun r =>
          .entity (f r).key ((f r).slot.getD 0) (f r).value (share (f r).value)
        otherKeys := start.otherKeys ++ (rows.filter fun r => (f r).slot.isNone).map fun r => (f r).key
        other := start.other + ((rows.filter fun r => (f r).slot.isNone).map fun r => (f r).value).sum } := by
  induction rows generalizing start with
  | nil => simp
  | cons r rest ih =>
    rw [List.map_cons, List.foldl_cons, ih, ShareFold.add]
    cases slot : (f r).slot with
    | none => simp [slot, add_assoc]
    | some i => simp [slot]

private def itemOf (data : BreakdownResponse) (metric : Metric) (lookup : EntityLookup) (r : BreakdownRow) : ShareItem :=
  ⟨r.key, r.label, metricValue r.current metric, slotOf data lookup r⟩

/-- The segments: one for each slotted row with a value, then Other. -/
private theorem shareSegments_eq : shareSegments (shareItems data metric lookup) =
    ((slottedRows data metric lookup).insertionSort fun a b =>
      metricValue b.current metric ≤ metricValue a.current metric).map (rowSegment data metric lookup) ++
        if otherRows data metric lookup = [] then [] else [otherSegment data metric (otherRows data metric lookup)] := by
  have items : (shareItems data metric lookup).filter (fun it => decide (0 < it.value)) =
      (positiveRows data metric).map (itemOf data metric lookup) := List.filter_map
  have total : (((positiveRows data metric).map (itemOf data metric lookup)).map ShareItem.value).sum =
      ((positiveRows data metric).map fun r => metricValue r.current metric).sum := by
    rw [List.map_map]
    rfl
  have sorted : ((slottedRows data metric lookup).map (rowSegment data metric lookup)).insertionSort
      (fun a b => b.value ≤ a.value) = ((slottedRows data metric lookup).insertionSort fun a b =>
        metricValue b.current metric ≤ metricValue a.current metric).map (rowSegment data metric lookup) := by
    symm
    apply List.map_insertionSort
    exact fun _ _ _ _ => Iff.rfl
  rw [shareSegments, items]
  dsimp only
  rw [total, foldl_add]
  simp only [List.nil_append, zero_add, List.length_map]
  change (if 0 < (otherRows data metric lookup).length then
      ((slottedRows data metric lookup).map (rowSegment data metric lookup)).insertionSort (fun a b => b.value ≤ a.value) ++
        [otherSegment data metric (otherRows data metric lookup)]
    else ((slottedRows data metric lookup).map (rowSegment data metric lookup)).insertionSort
      fun a b => b.value ≤ a.value) = _
  rw [sorted]
  cases otherRows data metric lookup <;> simp

private def inputOf (data : BreakdownResponse) (metric : Metric) (lookup : EntityLookup) (r : BreakdownRow) : StackLayer :=
  ⟨displayName data.dim r.label, slotOf data lookup r, metricSeries r.trend metric⟩

/-- A chart drops the rows that have no value. -/
private theorem live_eq (consistent : Consistent data) :
    (data.rows.map (inputOf data metric lookup)).filter (fun it => it.values.any fun v => decide (0 < v)) =
      (positiveRows data metric).map (inputOf data metric lookup) := by
  rw [List.filter_map, positiveRows]
  exact congrArg _ (List.filter_congr fun r member => any_iff consistent member)

private theorem pad_series (consistent : Consistent data) {r : BreakdownRow} (member : r ∈ data.rows) :
    pad data.buckets.length (metricSeries r.trend metric) = metricSeries r.trend metric := by
  refine List.ext_getElem? fun i => ?_
  rw [pad, List.getElem?_map]
  by_cases inside : i < data.buckets.length
  · have own : i < (metricSeries r.trend metric).length := series_length consistent member ▸ inside
    rw [List.getElem?_range inside, Option.map_some, List.getElem?_eq_getElem own, Option.getD_some]
  · rw [List.getElem?_eq_none (by simpa using inside),
      List.getElem?_eq_none (by rw [series_length consistent member]; omega), Option.map_none]

/-- The values of the Other layer add up its series bucket by bucket. -/
private theorem foldl_addSeries (n : ℕ) (rows : List BreakdownRow) (series : BreakdownRow → List ℚ) :
    rows.foldl (fun values r => addSeries values (series r)) (List.replicate n 0) =
      (List.range n).map fun i => (rows.map fun r => (series r)[i]?.getD 0).sum := by
  induction rows using List.reverseRecOn with
  | nil => simp
  | append_singleton rest r ih =>
    rw [List.foldl_append, ih, List.foldl_cons, List.foldl_nil]
    refine List.ext_getElem? fun i => ?_
    rw [addSeries, List.getElem?_mapIdx, List.getElem?_map, List.getElem?_map, Option.map_map]
    by_cases inside : i < n
    · rw [List.getElem?_range inside]
      simp
    · have outside : (List.range n)[i]? = none := List.getElem?_eq_none (by simpa using inside)
      rw [outside]
      rfl

/-- The layers: one for each slotted row with a value, then Other. -/
private theorem layers_eq (consistent : Consistent data) : (breakdownChart data metric lookup).layers =
    ((slottedRows data metric lookup).insertionSort fun a b =>
      (slotOf data lookup a).getD 0 ≤ (slotOf data lookup b).getD 0).map (rowLayer data metric lookup) ++
        if otherRows data metric lookup = [] then [] else [otherLayer data metric lookup (otherRows data metric lookup)] := by
  have slotted : ((positiveRows data metric).map (inputOf data metric lookup)).filter (fun it => it.slot.isSome) =
      (slottedRows data metric lookup).map (inputOf data metric lookup) := List.filter_map
  have others : ((positiveRows data metric).map (inputOf data metric lookup)).filter (fun it => it.slot.isNone) =
      (otherRows data metric lookup).map (inputOf data metric lookup) := List.filter_map
  have sorted : ((slottedRows data metric lookup).map (inputOf data metric lookup)).insertionSort
      (fun a b => a.slot.getD 0 ≤ b.slot.getD 0) = ((slottedRows data metric lookup).insertionSort fun a b =>
        (slotOf data lookup a).getD 0 ≤ (slotOf data lookup b).getD 0).map (inputOf data metric lookup) := by
    symm
    apply List.map_insertionSort
    exact fun _ _ _ _ => Iff.rfl
  change (stackLayers (data.rows.map (inputOf data metric lookup)) data.buckets.length).map
    (fun l => ChartLayer.mk l.label (lookup.slotColor l.slot) l.values) = _
  rw [stackLayers, live_eq consistent, slotted, others, sorted, List.foldl_map, List.length_map, List.map_map]
  generalize order : (slottedRows data metric lookup).insertionSort (fun a b =>
    (slotOf data lookup a).getD 0 ≤ (slotOf data lookup b).getD 0) = layered
  have stored : ∀ r ∈ layered, r ∈ data.rows := by
    intro r member
    rw [← order, (List.perm_insertionSort _ _).mem_iff] at member
    exact List.mem_of_mem_filter (List.mem_of_mem_filter member)
  have own : (layered.map ((fun it : StackLayer => { it with values := pad data.buckets.length it.values }) ∘
      inputOf data metric lookup)).map (fun l => ChartLayer.mk l.label (lookup.slotColor l.slot) l.values) =
        layered.map (rowLayer data metric lookup) := by
    rw [List.map_map]
    refine List.map_congr_left fun r member => ?_
    exact congrArg (ChartLayer.mk _ _) (pad_series consistent (stored r member))
  have folded := foldl_addSeries data.buckets.length (otherRows data metric lookup) fun r => metricSeries r.trend metric
  cases rest : otherRows data metric lookup with
  | nil =>
    rw [List.length_nil, if_neg (lt_irrefl 0), if_pos rfl, List.append_nil]
    exact own
  | cons r later =>
    rw [rest] at folded
    rw [List.length_cons, if_pos (Nat.succ_pos _), if_neg (List.cons_ne_nil _ _), List.map_append, own]
    exact congrArg (fun values => _ ++ [ChartLayer.mk "Other" (lookup.slotColor none) values]) folded

private theorem sum_positiveRows {f : BreakdownRow → ℚ}
    (none_ : ∀ r ∈ data.rows, ¬0 < metricValue r.current metric → f r = 0) :
    ((positiveRows data metric).map f).sum = (data.rows.map f).sum := by
  rw [positiveRows]
  generalize data.rows = rows at none_
  induction rows with
  | nil => rfl
  | cons r rest ih =>
    have later := ih fun other member => none_ other (List.mem_cons_of_mem _ member)
    rw [List.map_cons, List.sum_cons, ← later, List.filter_cons]
    by_cases positive : 0 < metricValue r.current metric
    · rw [if_pos (decide_eq_true positive), List.map_cons, List.sum_cons]
    · rw [if_neg (by simpa using positive), none_ r (List.mem_cons_self ..) positive, zero_add]

/-- Every row with a value has a slot or goes into Other. -/
private theorem sum_split (f : BreakdownRow → ℚ) :
    ((slottedRows data metric lookup).map f).sum + ((otherRows data metric lookup).map f).sum =
      ((positiveRows data metric).map f).sum := by
  have split := List.filter_append_perm (fun r => (slotOf data lookup r).isSome) (positiveRows data metric)
  rw [← (split.map f).sum_eq, List.map_append, List.sum_append]
  simp only [Option.not_isSome]
  rfl

private theorem value_eq_zero (consistent : Consistent data) {r : BreakdownRow} (member : r ∈ data.rows)
    (none_ : ¬0 < metricValue r.current metric) : metricValue r.current metric = 0 :=
  le_antisymm (not_lt.mp none_) (value_nonneg consistent member)

private theorem entry_eq_zero (consistent : Consistent data) {r : BreakdownRow} (member : r ∈ data.rows)
    (none_ : ¬0 < metricValue r.current metric) (i : ℕ) : (metricSeries r.trend metric)[i]?.getD 0 = 0 := by
  cases found : (metricSeries r.trend metric)[i]? with
  | none => rfl
  | some x =>
    have listed := List.mem_of_getElem? found
    have all := List.single_le_sum (series_nonneg consistent member) x listed
    rw [series_sum consistent member, value_eq_zero consistent member none_] at all
    exact le_antisymm all (series_nonneg consistent member x listed)

/-- The values of the Other layer sum to the totals of its rows. -/
private theorem sum_otherLayer (consistent : Consistent data) {others : List BreakdownRow}
    (stored : ∀ r ∈ others, r ∈ data.rows) : (otherLayer data metric lookup others).values.sum =
      (others.map fun r => metricValue r.current metric).sum := by
  induction others with
  | nil => simp [otherLayer]
  | cons r rest ih =>
    have member := stored r (List.mem_cons_self ..)
    have later := ih fun other present => stored other (List.mem_cons_of_mem _ present)
    have own : ((List.range data.buckets.length).map fun i => (metricSeries r.trend metric)[i]?.getD 0).sum =
        metricValue r.current metric := by
      rw [← series_sum consistent member]
      exact congrArg List.sum (pad_series consistent member)
    rw [otherLayer] at later ⊢
    simp only [List.map_cons, List.sum_cons, List.sum_map_add] at later ⊢
    rw [own, later]

/-- What a view shows of its rows, summed. -/
private theorem sum_views {V : Type} {own : BreakdownRow → V} {rest : List BreakdownRow → V} {g : V → ℚ}
    {f : BreakdownRow → ℚ} {sorted slotted others : List BreakdownRow} (perm : sorted.Perm slotted)
    (each : ∀ r ∈ slotted, g (own r) = f r) (last : g (rest others) = (others.map f).sum) :
    ((sorted.map own ++ if others = [] then [] else [rest others]).map g).sum =
      (slotted.map f).sum + (others.map f).sum := by
  have first : ((sorted.map own).map g).sum = (slotted.map f).sum := by
    rw [List.map_map, (perm.map _).sum_eq]
    exact congrArg List.sum (List.map_congr_left each)
  rw [List.map_append, List.sum_append, first]
  congr 1
  by_cases none_ : others = []
  · rw [if_pos none_, none_]
    rfl
  · rw [if_neg none_, List.map_singleton, List.sum_singleton, last]

end Bar

def ShareSegment.keys : ShareSegment → List String
  | .entity key _ _ _ => [key]
  | .other keys _ _ _ => keys

def ShareSegment.share : ShareSegment → ℚ
  | .entity _ _ _ share => share
  | .other _ _ _ share => share

/-- Both views of a breakdown show the same rows, with the same amounts. -/
structure ViewsAgree (data : BreakdownResponse) (metric : Metric) (lookup : EntityLookup) : Prop where
  buckets : ∀ i < data.buckets.length,
    ((breakdownChart data metric lookup).layers.map fun layer => layer.values[i]?.getD 0).sum =
      (data.rows.map fun r => (metricSeries r.trend metric)[i]?.getD 0).sum
  partition : ((shareSegments (shareItems data metric lookup)).flatMap ShareSegment.keys).Perm
    ((positiveRows data metric).map BreakdownRow.key)
  total : ((shareSegments (shareItems data metric lookup)).map ShareSegment.value).sum =
    (data.rows.map fun r => metricValue r.current metric).sum
  shares : (∃ r ∈ data.rows, 0 < metricValue r.current metric) →
    ((shareSegments (shareItems data metric lookup)).map ShareSegment.share).sum = 1
  rows : ∃ segmented layered : List BreakdownRow,
    segmented.Perm (slottedRows data metric lookup) ∧ layered.Perm (slottedRows data metric lookup) ∧
    shareSegments (shareItems data metric lookup) = segmented.map (rowSegment data metric lookup) ++
      (if otherRows data metric lookup = [] then [] else [otherSegment data metric (otherRows data metric lookup)]) ∧
    (breakdownChart data metric lookup).layers = layered.map (rowLayer data metric lookup) ++
      if otherRows data metric lookup = [] then [] else [otherLayer data metric lookup (otherRows data metric lookup)]
  slotted : ∀ r ∈ slottedRows data metric lookup,
    (rowSegment data metric lookup r).value = (rowLayer data metric lookup r).values.sum
  other : (otherSegment data metric (otherRows data metric lookup)).value =
    (otherLayer data metric lookup (otherRows data metric lookup)).values.sum

/-- The share bar and the stacked chart of a consistent breakdown agree. -/
theorem charts_agree {data : BreakdownResponse} (consistent : Consistent data) (metric : Metric) (lookup : EntityLookup) :
    ViewsAgree data metric lookup where
  buckets i inside := by
    have other : (otherLayer data metric lookup (otherRows data metric lookup)).values[i]?.getD 0 =
        ((otherRows data metric lookup).map fun r => (metricSeries r.trend metric)[i]?.getD 0).sum := by
      rw [otherLayer, List.getElem?_map, List.getElem?_range inside]
      rfl
    rw [layers_eq consistent, sum_views (List.perm_insertionSort _ _) (fun r _ => rfl) other, sum_split]
    exact sum_positiveRows fun r member none_ => entry_eq_zero consistent member none_ i
  partition := by
    have split := (List.filter_append_perm (fun r => (slotOf data lookup r).isSome) (positiveRows data metric)).map
      BreakdownRow.key
    have slotted (rows : List BreakdownRow) : (rows.map (rowSegment data metric lookup)).flatMap ShareSegment.keys =
        rows.map BreakdownRow.key := by
      rw [List.flatMap_map]
      exact List.flatMap_pure_eq_map _ _
    have others : (if otherRows data metric lookup = [] then []
        else [otherSegment data metric (otherRows data metric lookup)]).flatMap ShareSegment.keys =
          (otherRows data metric lookup).map BreakdownRow.key := by
      split_ifs with none_
      · rw [none_]
        rfl
      · exact List.flatMap_singleton _ _
    rw [shareSegments_eq, List.flatMap_append, slotted, others]
    refine (((List.perm_insertionSort _ _).map _).append_right _).trans (List.Perm.trans ?_ split)
    rw [List.map_append]
    simp only [Option.not_isSome]
    exact .refl _
  total := by
    have other : (otherSegment data metric (otherRows data metric lookup)).value =
        ((otherRows data metric lookup).map fun r => metricValue r.current metric).sum := rfl
    rw [shareSegments_eq, sum_views (List.perm_insertionSort _ _) (fun r _ => rfl) other, sum_split]
    exact sum_positiveRows fun r member => value_eq_zero consistent member
  shares := by
    rintro ⟨r, member, positive⟩
    have total : 0 < ((positiveRows data metric).map fun r => metricValue r.current metric).sum := by
      have listed : r ∈ positiveRows data metric := List.mem_filter.mpr ⟨member, decide_eq_true positive⟩
      refine List.sum_pos _ (fun value shown => ?_) (List.ne_nil_of_mem (List.mem_map_of_mem listed))
      obtain ⟨other, present, rfl⟩ := List.mem_map.mp shown
      exact of_decide_eq_true (List.mem_filter.mp present).2
    have share (value : ℚ) : shareOf data metric value =
        value * (((positiveRows data metric).map fun r => metricValue r.current metric).sum)⁻¹ := by
      rw [shareOf, ← div_eq_mul_inv]
      exact if_pos total
    have other : (otherSegment data metric (otherRows data metric lookup)).share =
        ((otherRows data metric lookup).map fun r => metricValue r.current metric *
          (((positiveRows data metric).map fun r => metricValue r.current metric).sum)⁻¹).sum := by
      rw [List.sum_map_mul_right]
      exact share _
    have own : ∀ r ∈ slottedRows data metric lookup, (rowSegment data metric lookup r).share =
        metricValue r.current metric * (((positiveRows data metric).map fun r => metricValue r.current metric).sum)⁻¹ :=
      fun r _ => share (metricValue r.current metric)
    rw [shareSegments_eq, sum_views (List.perm_insertionSort _ _) own other, sum_split, List.sum_map_mul_right]
    exact mul_inv_cancel₀ total.ne'
  rows := by
    refine ⟨_, _, ?_, ?_, shareSegments_eq, layers_eq consistent⟩
    · exact List.perm_insertionSort _ _
    · exact List.perm_insertionSort _ _
  slotted r member := (series_sum consistent (List.mem_of_mem_filter (List.mem_of_mem_filter member))).symm
  other := by
    refine (sum_otherLayer consistent fun r member => ?_).symm
    exact List.mem_of_mem_filter (List.mem_of_mem_filter member)

/-- A row over two buckets. -/
def chartRow (key : String) (cost : Option ℚ) (first second : ℤ) : BreakdownRow where
  key
  label := key
  current := ⟨2, 0, first + second, 0, 0, 0, cost, .live, 1200, none⟩
  previous := none
  trend := ⟨[cost.getD 0, 0], [(first : ℚ), (second : ℚ)], [0, 0], [0, 0]⟩
  mix := []
  price := none

/-- A slotted row, an unpriced one, and one that the options do not know. -/
def chartData : BreakdownResponse where
  dim := .model
  bucket := .day
  buckets := [⟨1704067200000000, false⟩, ⟨1704153600000000, false⟩]
  rows := [chartRow "m" (some 3) 100 20, chartRow "n" none 40 0, chartRow "late" (some 1) 5 5]

def chartOptions : OptionsResponse := ⟨[], [⟨"m", "m", some 0⟩, ⟨"n", "n", some 1⟩], []⟩

theorem charts_agree_late :
    shareSegments (shareItems chartData .cost (createLookup (some chartOptions) .light)) =
        [.entity "m" 0 3 (3 / 4), .other ["late"] "Other (1)" 1 (1 / 4)] ∧
      ViewsAgree chartData .cost (createLookup (some chartOptions) .light) := by
  have rows {p : BreakdownRow → Prop} (m : p (chartRow "m" (some 3) 100 20))
      (n : p (chartRow "n" none 40 0)) (late : p (chartRow "late" (some 1) 5 5)) :
      ∀ r ∈ chartData.rows, p r := by
    intro r member
    simp only [chartData, List.mem_cons, List.not_mem_nil, or_false] at member
    rcases member with rfl | rfl | rfl
    · exact m
    · exact n
    · exact late
  have consistent : Consistent chartData := by
    constructor
    · apply rows <;> (intro m; cases m <;> rfl)
    · apply rows <;> (intro m; cases m <;> decide +kernel)
    · apply rows <;> (intro m; cases m <;> decide +kernel)
  exact ⟨by decide +kernel, charts_agree consistent .cost (createLookup (some chartOptions) .light)⟩

end CliproxyUsage.Frontend
