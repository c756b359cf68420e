import Mathlib.Data.List.DropRight
import Mathlib.Data.List.Infix

/-! # The string operations of Python's `str`

Strings are sequences of Unicode scalar values. `split` follows `str.split` with a one-character
separator, `strip` the argument-free `str.strip`, and slices count code points. Joining with a
separator and splitting at it again undo each other on parts that do not contain it.
-/

namespace Python

/-- The code points that `str.isspace` accepts. -/
def isSpace (c : Char) : Bool :=
  let n := c.toNat
  (9 ≤ n ∧ n ≤ 13) ∨ (28 ≤ n ∧ n ≤ 32) ∨ n = 0x85 ∨ n = 0xA0 ∨ n = 0x1680 ∨
    (0x2000 ≤ n ∧ n ≤ 0x200A) ∨ n = 0x2028 ∨ n = 0x2029 ∨ n = 0x202F ∨ n = 0x205F ∨ n = 0x3000

/-- `s.split(sep)` for a one-character separator; there is always at least one part. -/
def split (sep : Char) (s : String) : List String := (s.toList.splitOn sep).map String.ofList

/-- `s.strip()`. -/
def strip (s : String) : String := String.ofList ((s.toList.dropWhile isSpace).rdropWhile isSpace)

/-- `s[-n:]` for positive `n`. -/
def lastChars (n : ℕ) (s : String) : String := String.ofList (s.toList.drop (s.toList.length - n))

/-- `s.removeprefix(head)`. -/
def removeHead (head s : String) : String :=
  if head.toList <+: s.toList then String.ofList (s.toList.drop head.toList.length) else s

/-- `sub in s`. -/
def contains (sub s : String) : Bool := decide (sub.toList <:+: s.toList)

/-- `s.lower()` on text whose letters are ASCII. -/
def asciiLower (s : String) : String := String.ofList (s.toList.map Char.toLower)

private theorem splitOn_cons_self (sep : Char) (rest : List Char) :
    (sep :: rest).splitOn sep = [] :: rest.splitOn sep := by
  have cut := List.splitOn_append_cons_self [] rest (a := sep)
  rwa [List.nil_append, List.splitOn_nil, List.singleton_append] at cut

private theorem not_mem_of_mem_splitOn {sep : Char} {chars piece : List Char}
    (member : piece ∈ chars.splitOn sep) : sep ∉ piece := by
  induction chars generalizing piece with
  | nil => simp_all
  | cons c rest ih =>
    by_cases here : c = sep
    · subst here
      rw [splitOn_cons_self] at member
      rcases List.mem_cons.mp member with rfl | later
      · exact List.not_mem_nil
      · exact ih later
    · rw [List.splitOn_cons_eq_if_modifyHead, if_neg (by simpa using here)] at member
      cases pieces : rest.splitOn sep with
      | nil => exact absurd pieces (List.splitOn_ne_nil sep rest)
      | cons first others =>
        rw [pieces, List.modifyHead_cons] at member
        rcases List.mem_cons.mp member with rfl | later
        · have fresh := ih (pieces ▸ List.mem_cons_self ..)
          simp only [List.mem_cons, not_or]
          exact ⟨Ne.symm here, fresh⟩
        · exact ih (pieces ▸ List.mem_cons_of_mem _ later)

/-- No part of a split contains the separator. -/
theorem not_mem_of_mem_split {sep : Char} {s part : String} (member : part ∈ split sep s) :
    sep ∉ part.toList := by
  obtain ⟨chars, found, rfl⟩ := List.mem_map.mp member
  rw [String.toList_ofList]
  exact not_mem_of_mem_splitOn found

private theorem length_splitOn (sep : Char) (chars : List Char) : (chars.splitOn sep).length = chars.count sep + 1 := by
  induction chars with
  | nil => simp
  | cons c rest ih =>
    by_cases here : c = sep
    · subst here
      rw [splitOn_cons_self, List.length_cons, ih, List.count_cons_self]
    · rw [List.splitOn_cons_eq_if_modifyHead, if_neg (by simpa using here), List.length_modifyHead, ih,
        List.count_cons_of_ne here]

/-- A split has one part more than the text has separators. -/
theorem length_split (sep : Char) (s : String) : (split sep s).length = s.toList.count sep + 1 := by
  rw [split, List.length_map, length_splitOn]

/-- Joining parts that do not contain the separator and splitting again gives the parts back. -/
theorem split_intercalate {sep : Char} {parts : List String} (some_ : parts ≠ [])
    (free : ∀ part ∈ parts, sep ∉ part.toList) :
    split sep ((String.singleton sep).intercalate parts) = parts := by
  have chars : ((String.singleton sep).intercalate parts).toList =
      [sep].intercalate (parts.map String.toList) := by simp [String.toList_intercalate]
  rw [split, chars, List.splitOn_intercalate]
  · simp [Function.comp_def]
  · simpa using free
  · simpa using some_

theorem toList_strip (s : String) :
    (strip s).toList = (s.toList.dropWhile isSpace).rdropWhile isSpace := String.toList_ofList

theorem strip_subset (s : String) : (strip s).toList ⊆ s.toList := by
  rw [toList_strip]
  exact List.Subset.trans (List.rdropWhile_prefix _ _).subset (List.dropWhile_suffix _).subset

private theorem dropWhile_rdropWhile (p : Char → Bool) (chars : List Char) :
    ((chars.dropWhile p).rdropWhile p).dropWhile p = (chars.dropWhile p).rdropWhile p := by
  rw [List.dropWhile_eq_self_iff]
  intro nonempty
  have kept := List.rdropWhile_prefix p (chars.dropWhile p)
  have nonempty' : 0 < (chars.dropWhile p).length := nonempty.trans_le kept.length_le
  have first := List.dropWhile_get_zero_not p chars nonempty'
  simp only [List.get_eq_getElem] at first ⊢
  rwa [kept.getElem nonempty]

theorem strip_strip (s : String) : strip (strip s) = strip s := by
  apply String.toList_injective
  rw [toList_strip, toList_strip, dropWhile_rdropWhile]
  exact List.rdropWhile_idempotent _ _

end Python
