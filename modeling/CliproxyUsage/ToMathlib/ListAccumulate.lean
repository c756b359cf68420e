import Mathlib.Algebra.BigOperators.Group.List.Basic
import Mathlib.Data.List.Induction
import Mathlib.Data.List.Nodup
import Mathlib.Data.List.Perm.Basic

/-! # Grouping a list by a key

Mathlib groups runs of adjacent equal elements; a hash map in a program groups occurrences
wherever they stand and remembers its keys in order of first use. `accumulate` is the loop that
folds every item into the entry of its key, and `groupOn` the grouping it computes. Grouping
preserves every occurrence, so a sum over the groups is the sum over the items, and selecting
whole groups commutes with grouping.
-/

namespace List

variable {α β κ ν : Type*} [DecidableEq κ]

theorem nodup_eraseDups (keys : List κ) : keys.eraseDups.Nodup := by
  induction size : keys.length using Nat.strongRecOn generalizing keys with
  | ind size ih =>
    cases keys with
    | nil => exact nodup_nil
    | cons k rest =>
      rw [eraseDups_cons, nodup_cons]
      refine ⟨by simp, ih _ ?_ _ rfl⟩
      have shorter := length_filter_le (fun other => !other == k) rest
      simp only [length_cons] at size
      omega

theorem eraseDups_concat (keys : List κ) (k : κ) :
    (keys ++ [k]).eraseDups = if k ∈ keys then keys.eraseDups else keys.eraseDups ++ [k] := by
  rw [eraseDups_append]
  by_cases known : k ∈ keys <;> simp [removeAll, known, eraseDups_cons]

/-- Selecting keys commutes with dropping their repetitions. -/
theorem eraseDups_filter (keys : List κ) (keep : κ → Bool) :
    (keys.filter keep).eraseDups = keys.eraseDups.filter keep := by
  induction keys using reverseRecOn with
  | nil => rfl
  | append_singleton keys k ih =>
    rw [filter_append, eraseDups_concat]
    cases kept : keep k with
    | false =>
      have last : [k].filter keep = [] := by simp [kept]
      rw [last, append_nil, ih]
      split <;> simp [kept]
    | true =>
      have last : [k].filter keep = [k] := by simp [kept]
      rw [last, eraseDups_concat, ih]
      by_cases known : k ∈ keys <;> simp [known, kept]

/-- Apply `f` to the value stored at `k`; a missing key enters last, with `f init`. -/
def upsert (k : κ) (init : ν) (f : ν → ν) : List (κ × ν) → List (κ × ν)
  | [] => [(k, f init)]
  | (k', v) :: rest => if k' = k then (k', f v) :: rest else (k', v) :: upsert k init f rest

/-- Fold every item into the entry of its key. -/
def accumulate (key : α → κ) (init : ν) (add : ν → α → ν) (items : List α) : List (κ × ν) :=
  items.foldl (fun dict item => dict.upsert (key item) init (fun v => add v item)) []

/-- The items of each key, in their order, under the keys in order of first use. -/
def groupOn (key : α → κ) (items : List α) : List (κ × List α) :=
  (items.map key).eraseDups.map fun k => (k, items.filter fun item => decide (key item = k))

private theorem upsert_map_of_mem {keys : List κ} {k : κ} (value : κ → ν) (init : ν) (f : ν → ν)
    (unique : keys.Nodup) (known : k ∈ keys) :
    (keys.map fun k' => (k', value k')).upsert k init f =
      keys.map fun k' => (k', if k' = k then f (value k') else value k') := by
  induction keys with
  | nil => contradiction
  | cons first rest ih =>
    obtain ⟨fresh, unique⟩ := nodup_cons.mp unique
    by_cases same : first = k
    · subst same
      have others : ∀ k' ∈ rest, k' ≠ first := fun k' member equal => fresh (equal ▸ member)
      simp only [map_cons, upsert, ↓reduceIte, cons.injEq, true_and]
      exact map_congr_left fun k' member => by rw [if_neg (others k' member)]
    · have later : k ∈ rest := (mem_cons.mp known).resolve_left (Ne.symm same)
      simp only [map_cons, upsert, if_neg same, ih unique later]

private theorem upsert_map_of_not_mem {keys : List κ} {k : κ} (value : κ → ν) (init : ν) (f : ν → ν)
    (fresh : k ∉ keys) :
    (keys.map fun k' => (k', value k')).upsert k init f =
      (keys.map fun k' => (k', value k')) ++ [(k, f init)] := by
  induction keys with
  | nil => rfl
  | cons first rest ih =>
    simp only [mem_cons, not_or] at fresh
    simp only [map_cons, upsert, if_neg (Ne.symm fresh.1), ih fresh.2, cons_append]

private theorem filter_key_concat (key : α → κ) (items : List α) (item : α) (k : κ) :
    (items ++ [item]).filter (fun other => decide (key other = k)) =
      if k = key item then items.filter (fun other => decide (key other = k)) ++ [item]
      else items.filter (fun other => decide (key other = k)) := by
  rw [filter_append]
  by_cases same : k = key item
  · simp [same]
  · simp [same, Ne.symm same]

/-- The loop computes the grouping: each entry is the fold over exactly the items of its key. -/
theorem accumulate_eq_groupOn (key : α → κ) (init : ν) (add : ν → α → ν) (items : List α) :
    accumulate key init add items =
      (groupOn key items).map fun group => (group.1, group.2.foldl add init) := by
  induction items using reverseRecOn with
  | nil => rfl
  | append_singleton items item ih =>
    have step : accumulate key init add (items ++ [item]) =
        (accumulate key init add items).upsert (key item) init (fun v => add v item) := by
      simp only [accumulate, foldl_append, foldl_cons, foldl_nil]
    rw [step, ih]
    simp only [groupOn, map_map, Function.comp_def, map_append, map_cons, map_nil,
      eraseDups_concat, filter_key_concat]
    by_cases known : key item ∈ items.map key
    · rw [if_pos known, upsert_map_of_mem _ _ _ (nodup_eraseDups _) (mem_eraseDups.mpr known)]
      refine map_congr_left fun k _ => ?_
      by_cases same : k = key item <;> simp [same]
    · have fresh : key item ∉ (items.map key).eraseDups := fun member => known (mem_eraseDups.mp member)
      have empty : items.filter (fun other => decide (key other = key item)) = [] := by
        refine filter_eq_nil_iff.mpr fun other member => ?_
        simp only [decide_eq_true_eq]
        exact fun same => known (mem_map.mpr ⟨other, member, same⟩)
      rw [if_neg known, upsert_map_of_not_mem _ _ _ fresh, map_append]
      congr 1
      · refine map_congr_left fun k member => ?_
        have other : k ≠ key item := fun same => fresh (same ▸ member)
        simp [other]
      · simp [empty]

theorem groupOn_keys (key : α → κ) (items : List α) :
    (groupOn key items).map Prod.fst = (items.map key).eraseDups := by
  simp [groupOn, Function.comp_def]

theorem groupOn_keys_nodup (key : α → κ) (items : List α) :
    ((groupOn key items).map Prod.fst).Nodup := groupOn_keys key items ▸ nodup_eraseDups _

theorem mem_groupOn {key : α → κ} {items : List α} {group : κ × List α} :
    group ∈ groupOn key items ↔ group.1 ∈ items.map key ∧
      group.2 = items.filter fun item => decide (key item = group.1) := by
  obtain ⟨k, members⟩ := group
  simp only [groupOn, mem_map, mem_eraseDups, Prod.mk.injEq]
  constructor
  · rintro ⟨k', known, rfl, same⟩
    exact ⟨known, same.symm⟩
  · rintro ⟨known, same⟩
    exact ⟨k, known, rfl, same.symm⟩

/-- A group has a member, and all its members carry its key. -/
theorem groupOn_members {key : α → κ} {items : List α} {group : κ × List α}
    (member : group ∈ groupOn key items) :
    group.2 ≠ [] ∧ ∀ item ∈ group.2, item ∈ items ∧ key item = group.1 := by
  obtain ⟨known, same⟩ := mem_groupOn.mp member
  obtain ⟨item, present, atKey⟩ := mem_map.mp known
  rw [same]
  refine ⟨ne_nil_of_mem (mem_filter.mpr ⟨present, decide_eq_true atKey⟩), fun item selected => ?_⟩
  obtain ⟨present, atKey⟩ := mem_filter.mp selected
  exact ⟨present, of_decide_eq_true atKey⟩

/-- The items of some keys, key by key. -/
theorem flatMap_filter_keys (key : α → κ) (keys : List κ) (items : List α)
    (unique : keys.Nodup) :
    (keys.flatMap fun k => items.filter fun item => decide (key item = k)).Perm
      (items.filter fun item => decide (key item ∈ keys)) := by
  induction keys with
  | nil => simp
  | cons k rest ih =>
    obtain ⟨fresh, unique⟩ := nodup_cons.mp unique
    have cut := filter_append_perm (fun item => decide (key item = k))
      (items.filter fun item => decide (key item ∈ k :: rest))
    refine Perm.trans ?_ cut
    rw [flatMap_cons, filter_filter, filter_filter]
    refine Perm.append (Perm.of_eq ?_) ((ih unique).trans (Perm.of_eq ?_))
    · refine filter_congr fun item _ => ?_
      by_cases same : key item = k <;> simp [same]
    · refine filter_congr fun item _ => ?_
      by_cases same : key item = k <;> simp [same, fresh]

/-- Grouping loses no occurrence and duplicates none. -/
theorem groupOn_flatMap_perm (key : α → κ) (items : List α) :
    ((groupOn key items).flatMap Prod.snd).Perm items := by
  have whole := flatMap_filter_keys key (items.map key).eraseDups items (nodup_eraseDups _)
  have everything : (items.filter fun item => decide (key item ∈ (items.map key).eraseDups)) = items := by
    refine filter_eq_self.mpr fun item member => ?_
    simpa using ⟨item, member, rfl⟩
  rw [everything] at whole
  simpa only [groupOn, flatMap_map] using whole

/-- The total over the groups is the total over the items. -/
theorem sum_groupOn {M : Type*} [AddCommMonoid M] (key : α → κ) (items : List α) (f : α → M) :
    ((groupOn key items).map fun group => (group.2.map f).sum).sum = (items.map f).sum := by
  rw [← ((groupOn_flatMap_perm key items).map f).sum_eq, map_flatMap, flatMap_def, sum_flatten, map_map]
  rfl

/-- Selecting items by their key selects whole groups. -/
theorem groupOn_filter (key : α → κ) (items : List α) (keep : κ → Bool) :
    groupOn key (items.filter fun item => keep (key item)) =
      (groupOn key items).filter fun group => keep group.1 := by
  have keys : ((items.filter fun item => keep (key item)).map key) = (items.map key).filter keep := by
    rw [filter_map]; rfl
  have selected : (fun group : κ × List α => keep group.1) ∘
      (fun k => (k, items.filter fun item => decide (key item = k))) = keep := rfl
  rw [groupOn, groupOn, keys, eraseDups_filter, filter_map, selected]
  refine map_congr_left fun k member => ?_
  have kept : keep k = true := (mem_filter.mp member).2
  simp only [filter_filter, Prod.mk.injEq, true_and]
  refine filter_congr fun item _ => ?_
  by_cases same : key item = k <;> simp [same, kept]

/-- Grouping mapped items maps the members of the groups. -/
theorem groupOn_map (key : β → κ) (f : α → β) (items : List α) :
    groupOn key (items.map f) = (groupOn (key ∘ f) items).map fun group => (group.1, group.2.map f) := by
  simp only [groupOn, map_map, Function.comp_def, filter_map]

/-- A dictionary holds exactly the entries that it lists. -/
theorem lookup_eq_some_iff_mem {dict : List (κ × ν)} (unique : (dict.map Prod.fst).Nodup) {k : κ} {value : ν} :
    dict.lookup k = some value ↔ (k, value) ∈ dict := by
  rw [lookup_eq_some_iff]
  constructor
  · rintro ⟨before, after, rfl, _⟩
    simp
  · intro listed
    obtain ⟨before, after, rfl⟩ := append_of_mem listed
    refine ⟨before, after, rfl, fun entry earlier => ?_⟩
    rw [map_append, nodup_append] at unique
    exact bne_iff_ne.mpr (unique.2.2 _ (mem_map_of_mem earlier) k (mem_cons_self ..)).symm

private theorem upsert_of_not_mem {dict : List (κ × ν)} {k : κ} (fresh : k ∉ dict.map Prod.fst) (init : ν) (f : ν → ν) :
    dict.upsert k init f = dict ++ [(k, f init)] := by
  induction dict with
  | nil => rfl
  | cons entry rest ih =>
    obtain ⟨own, value⟩ := entry
    rw [map_cons, mem_cons, not_or] at fresh
    rw [upsert, if_neg (Ne.symm fresh.1), ih fresh.2, cons_append]

/-- Setting distinct keys one by one builds the dictionary that lists them. -/
theorem accumulate_of_nodup {entries : List (κ × ν)} (unique : (entries.map Prod.fst).Nodup) (init : ν) :
    entries.accumulate Prod.fst init (fun _ entry => entry.2) = entries := by
  induction entries using reverseRecOn with
  | nil => rfl
  | append_singleton rest entry ih =>
    rw [map_append, nodup_append] at unique
    have fresh : entry.1 ∉ rest.map Prod.fst := fun known => unique.2.2 _ known entry.1 (mem_singleton_self _) rfl
    have before := ih unique.1
    rw [accumulate] at before ⊢
    rw [foldl_append, before, foldl_cons, foldl_nil, upsert_of_not_mem fresh]

/-- A table of the values of a function, looked up at one of its keys. -/
theorem lookup_map_pair (f : κ → ν) {keys : List κ} {k : κ} (known : k ∈ keys) :
    (keys.map fun key => (key, f key)).lookup k = some (f k) := by
  induction keys with
  | nil => contradiction
  | cons first rest ih =>
    by_cases same : k = first
    · simp [same]
    · have later := ih ((mem_cons.mp known).resolve_left same)
      have differ : (k == first) = false := beq_eq_false_iff_ne.mpr same
      simp [lookup_cons, differ, later]

/-- The same where the function is undefined on some keys. -/
theorem lookup_filterMap_pair (f : κ → Option ν) {keys : List κ} {k : κ} (known : k ∈ keys) :
    (keys.filterMap fun key => (f key).map fun value => (key, value)).lookup k = f k := by
  induction keys with
  | nil => contradiction
  | cons first rest ih =>
    by_cases same : k = first
    · subst same
      cases defined : f k with
      | some value => simp [defined]
      | none =>
        simp only [filterMap_cons, defined, Option.map_none]
        refine lookup_eq_none_iff.mpr fun entry member => ?_
        obtain ⟨key, _, found⟩ := mem_filterMap.mp member
        obtain ⟨value, present, rfl⟩ := Option.map_eq_some_iff.mp found
        rw [bne_iff_ne]
        rintro rfl
        rw [defined] at present
        contradiction
    · have later := ih ((mem_cons.mp known).resolve_left same)
      have differ : (k == first) = false := beq_eq_false_iff_ne.mpr same
      cases defined : f first <;> simp [defined, lookup_cons, differ, later]

/-- The group of one key, empty when no item has it. -/
theorem lookup_groupOn (key : α → κ) (items : List α) (k : κ) :
    ((groupOn key items).lookup k).getD [] = items.filter fun item => decide (key item = k) := by
  cases found : (groupOn key items).lookup k with
  | none =>
    rw [Option.getD_none]
    refine (filter_eq_nil_iff.mpr fun item member => ?_).symm
    have absent := lookup_eq_none_iff.mp found
    simp only [decide_eq_true_eq]
    intro same
    have entry : (k, items.filter fun item => decide (key item = k)) ∈ groupOn key items :=
      mem_groupOn.mpr ⟨mem_map.mpr ⟨item, member, same⟩, rfl⟩
    simpa using absent _ entry
  | some members =>
    obtain ⟨before, after, same, _⟩ := lookup_eq_some_iff.mp found
    have entry : (k, members) ∈ groupOn key items := by rw [same]; simp
    exact (mem_groupOn.mp entry).2

/-- A key of an accumulated dictionary holds the items of that key. -/
theorem mem_accumulate {key : α → κ} {init : ν} {add : ν → α → ν} {items : List α} {entry : κ × ν}
    (member : entry ∈ accumulate key init add items) :
    entry.1 ∈ items.map key ∧
      entry.2 = (items.filter fun item => decide (key item = entry.1)).foldl add init := by
  rw [accumulate_eq_groupOn] at member
  obtain ⟨group, grouped, rfl⟩ := mem_map.mp member
  obtain ⟨known, members⟩ := mem_groupOn.mp grouped
  exact ⟨known, by rw [members]⟩

/-- Looking up a key of an accumulated dictionary, where a missing key holds no items. -/
theorem lookup_accumulate (key : α → κ) (init : ν) (add : ν → α → ν) (items : List α) (k : κ) :
    ((accumulate key init add items).lookup k).getD init =
      (items.filter fun item => decide (key item = k)).foldl add init := by
  rw [accumulate_eq_groupOn, ← lookup_groupOn key items k]
  induction groupOn key items with
  | nil => rfl
  | cons group rest ih =>
    obtain ⟨own, members⟩ := group
    by_cases same : k = own
    · simp [same]
    · have differ : (k == own) = false := beq_eq_false_iff_ne.mpr same
      simpa [lookup_cons, differ] using ih

end List
