import Mathlib.Data.List.Induction
import Mathlib.Data.List.Nodup

/-! # Keeping the first item of each key

A store that ignores an item whose key is already stored keeps the first item of each key, whatever
comes after it. Storing more leaves the items stored before as a prefix, and storing again only
known keys leaves everything.
-/

namespace List

variable {α κ : Type*} [DecidableEq κ]

/-- Store an item, unless its key is taken. -/
def insertFirst (key : α → κ) (kept : List α) (item : α) : List α :=
  if key item ∈ kept.map key then kept else kept ++ [item]

/-- The first item of each key, in their order. -/
def firsts (key : α → κ) (items : List α) : List α := items.foldl (insertFirst key) []

variable {key : α → κ} {items : List α} {item : α} {k : κ}

theorem firsts_append (first second : List α) :
    firsts key (first ++ second) = second.foldl (insertFirst key) (firsts key first) := foldl_append

theorem firsts_concat : firsts key (items ++ [item]) = insertFirst key (firsts key items) item := firsts_append _ _

/-- No key is lost, and none is made up. -/
theorem mem_keys_firsts : k ∈ (firsts key items).map key ↔ k ∈ items.map key := by
  induction items using reverseRecOn with
  | nil => rfl
  | append_singleton items item ih =>
    rw [firsts_concat, insertFirst]
    split
    · next known =>
      rw [map_append, map_singleton, mem_append, mem_singleton, ih]
      constructor
      · exact .inl
      · rintro (stored | rfl)
        · exact stored
        · exact ih.mp known
    · rw [map_append, map_append, mem_append, mem_append, ih]

theorem nodup_keys_firsts : ((firsts key items).map key).Nodup := by
  induction items using reverseRecOn with
  | nil => exact nodup_nil
  | append_singleton items item ih =>
    rw [firsts_concat, insertFirst]
    split
    · exact ih
    · next fresh =>
      rw [map_append, map_singleton, nodup_append]
      refine ⟨ih, nodup_singleton _, ?_⟩
      rintro k stored k' last rfl
      rw [mem_singleton.mp last] at stored
      exact fresh stored

/-- Exactly the first item of a key is stored under it. -/
theorem filter_firsts (k : κ) : (firsts key items).filter (fun item => decide (key item = k)) =
    (items.find? fun item => decide (key item = k)).toList := by
  induction items using reverseRecOn with
  | nil => rfl
  | append_singleton items item ih =>
    rw [firsts_concat, insertFirst, find?_append]
    by_cases here : key item = k
    · split
      · next known =>
        obtain ⟨stored, present, same⟩ := mem_map.mp (mem_keys_firsts.mp known)
        have found : (items.find? fun item => decide (key item = k)).isSome := by
          rw [find?_isSome]
          exact ⟨stored, present, by simp [same, here]⟩
        rw [ih, Option.or_of_isSome found]
      · next fresh =>
        have missing : items.find? (fun item => decide (key item = k)) = none := by
          rw [find?_eq_none]
          intro other present same
          rw [decide_eq_true_eq, ← here] at same
          exact fresh (mem_keys_firsts.mpr (same ▸ mem_map_of_mem present))
        rw [filter_append, ih, missing]
        simp [here]
    · have other : [item].find? (fun item => decide (key item = k)) = none := by simp [here]
      rw [other, Option.or_none, ← ih]
      split
      · rfl
      · simp [here]

/-- Items with distinct keys are all kept. -/
theorem firsts_of_nodup (unique : (items.map key).Nodup) : firsts key items = items := by
  induction items using reverseRecOn with
  | nil => rfl
  | append_singleton items item ih =>
    rw [map_append, nodup_append] at unique
    rw [firsts_concat, ih unique.1, insertFirst, if_neg]
    intro taken
    exact unique.2.2 _ taken _ (mem_singleton_self _) rfl

theorem prefix_foldl_insertFirst (kept items : List α) : kept <+: items.foldl (insertFirst key) kept := by
  induction items generalizing kept with
  | nil => exact prefix_refl _
  | cons item rest ih =>
    rw [foldl_cons]
    refine IsPrefix.trans ?_ (ih _)
    rw [insertFirst]
    split
    · exact prefix_refl _
    · exact prefix_append _ _

/-- Only known keys add nothing. -/
theorem foldl_insertFirst_known {kept items : List α} (known : ∀ item ∈ items, key item ∈ kept.map key) :
    items.foldl (insertFirst key) kept = kept := by
  induction items with
  | nil => rfl
  | cons item rest ih =>
    rw [foldl_cons, insertFirst, if_pos (known item (mem_cons_self ..))]
    exact ih fun other later => known other (mem_cons_of_mem _ later)

end List
