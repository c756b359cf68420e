import CliproxyUsage.JavaScript.Utf8
import Mathlib.Data.List.Infix

/-! # `URLSearchParams`

A list of name-value pairs, its accessors, and its `application/x-www-form-urlencoded` text as the URL
standard parses and writes it. Reading the text of a list of pairs gives the pairs back, whatever
separators their strings hold.
-/

namespace JavaScript

structure UrlSearchParams where
  pairs : List (String × String)
deriving DecidableEq, Repr

/-- The bytes that are written as themselves: ASCII letters and digits, and `*`, `-`, `.` and `_`. -/
def isUnreserved (byte : ℕ) : Bool :=
  (0x30 ≤ byte ∧ byte ≤ 0x39) ∨ (0x41 ≤ byte ∧ byte ≤ 0x5A) ∨ (0x61 ≤ byte ∧ byte ≤ 0x7A) ∨
    byte = 0x2A ∨ byte = 0x2D ∨ byte = 0x2E ∨ byte = 0x5F

def hexDigit (d : ℕ) : Char := if d < 10 then Char.ofNat (0x30 + d) else Char.ofNat (0x41 + (d - 10))

def hexValue (c : Char) : Option ℕ :=
  let n := c.toNat
  if 0x30 ≤ n ∧ n ≤ 0x39 then some (n - 0x30)
  else if 0x41 ≤ n ∧ n ≤ 0x46 then some (n - 0x41 + 10)
  else if 0x61 ≤ n ∧ n ≤ 0x66 then some (n - 0x61 + 10)
  else none

def encodeByte (byte : ℕ) : List Char :=
  if byte = 0x20 then ['+']
  else if isUnreserved byte then [Char.ofNat byte]
  else ['%', hexDigit (byte / 16), hexDigit (byte % 16)]

def encodeComponent (s : String) : List Char := (Utf8.encode s.toList).flatMap encodeByte

/-- A `%` without two hexadecimal digits stands for itself. -/
def percentDecode : List Char → List ℕ
  | [] => []
  | '%' :: rest =>
    match rest with
    | high :: low :: rest' =>
      match hexValue high, hexValue low with
      | some h, some l => (h * 16 + l) :: percentDecode rest'
      | _, _ => 0x25 :: percentDecode (high :: low :: rest')
    | rest => 0x25 :: percentDecode rest
  | c :: rest => Utf8.encodeChar c ++ percentDecode rest

def plusToSpace (c : Char) : Char := if c = '+' then ' ' else c

def decodeComponent (chars : List Char) : String :=
  String.ofList (Utf8.decode (percentDecode (chars.map plusToSpace)))

/-- The name before the first `=`, and the value after it. -/
def parsePair (piece : List Char) : String × String :=
  (decodeComponent (piece.takeWhile fun c => c ≠ '='), decodeComponent ((piece.dropWhile fun c => c ≠ '=').drop 1))

namespace UrlSearchParams

def empty : UrlSearchParams := ⟨[]⟩

/-- `new URLSearchParams(init)` on a string; one leading `?` is dropped. -/
def ofString (init : String) : UrlSearchParams :=
  let chars := if init.toList.head? = some '?' then init.toList.tail else init.toList
  ⟨((chars.splitOn '&').filter fun piece => piece ≠ []).map parsePair⟩

protected def toString (p : UrlSearchParams) : String :=
  String.ofList (['&'].intercalate (p.pairs.map fun pair => encodeComponent pair.1 ++ '=' :: encodeComponent pair.2))

/-- `p.get(name)`, the first value. -/
def get (p : UrlSearchParams) (name : String) : Option String := p.pairs.lookup name

/-- The value of a pair of the name. -/
def valueOf (name : String) (pair : String × String) : Option String := if pair.1 = name then some pair.2 else none

def getAll (p : UrlSearchParams) (name : String) : List String := p.pairs.filterMap (valueOf name)

def append (p : UrlSearchParams) (name value : String) : UrlSearchParams := ⟨p.pairs ++ [(name, value)]⟩

/-- The first pair of the name takes the value and the others go; without one the pair comes last. -/
def setPairs (name value : String) : List (String × String) → List (String × String)
  | [] => [(name, value)]
  | pair :: rest =>
    if pair.1 = name then (name, value) :: rest.filter fun pair => pair.1 ≠ name else pair :: setPairs name value rest

def set (p : UrlSearchParams) (name value : String) : UrlSearchParams := ⟨setPairs name value p.pairs⟩

end UrlSearchParams

section RoundTrip

/-- The characters with a meaning of their own. -/
private def delimiters : List Char := ['%', '+', '&', '=', '?']

private theorem unreserved_table : ∀ byte ∈ List.range 123, isUnreserved byte = true →
    Char.ofNat byte ∉ delimiters ∧ Utf8.encodeChar (Char.ofNat byte) = [byte] := by
  decide +kernel

private theorem hexDigit_table : ∀ d ∈ List.range 16, hexValue (hexDigit d) = some d ∧ hexDigit d ∉ delimiters := by
  decide +kernel

private theorem ascii_table : ∀ byte ∈ List.range 128, (Char.ofNat byte).toNat < 128 := by decide +kernel

private theorem hexDigit_ascii : ∀ d ∈ List.range 16, (hexDigit d).toNat < 128 := by decide +kernel

private theorem unreserved_plain {byte : ℕ} (unreserved : isUnreserved byte = true) :
    Char.ofNat byte ∉ delimiters ∧ Utf8.encodeChar (Char.ofNat byte) = [byte] := by
  apply unreserved_table byte _ unreserved
  rw [isUnreserved, decide_eq_true_eq] at unreserved
  rw [List.mem_range]
  omega

private theorem hexDigit_plain {d : ℕ} (small : d < 16) : hexValue (hexDigit d) = some d ∧ hexDigit d ∉ delimiters :=
  hexDigit_table d (List.mem_range.mpr small)

private theorem encodeByte_free {byte : ℕ} (small : byte < 256) {c : Char} (member : c ∈ encodeByte byte) :
    c ≠ '&' ∧ c ≠ '=' ∧ c ≠ '?' := by
  have apart : c ∉ delimiters ∨ c = '+' ∨ c = '%' := by
    rw [encodeByte] at member
    split_ifs at member with space unreserved
    · exact .inr (.inl (List.mem_singleton.mp member))
    · rw [List.mem_singleton.mp member]
      exact .inl (unreserved_plain unreserved).1
    · simp only [List.mem_cons, List.not_mem_nil, or_false] at member
      rcases member with rfl | rfl | rfl
      · exact .inr (.inr rfl)
      · exact .inl (hexDigit_plain (by omega)).2
      · exact .inl (hexDigit_plain (by omega)).2
  rcases apart with free | rfl | rfl
  · simp only [delimiters, List.mem_cons, List.not_mem_nil, or_false, not_or] at free
    exact ⟨free.2.2.1, free.2.2.2.1, free.2.2.2.2⟩
  · decide
  · decide

private theorem percentDecode_plain {c : Char} (plain : c ≠ '%') (rest : List Char) :
    percentDecode (c :: rest) = Utf8.encodeChar c ++ percentDecode rest := by
  rw [percentDecode]
  exact fun percent => plain percent

/-- An encoded byte is read as that byte, whatever follows. -/
theorem percentDecode_encodeByte {byte : ℕ} (small : byte < 256) (rest : List Char) :
    percentDecode ((encodeByte byte ++ rest).map plusToSpace) = byte :: percentDecode (rest.map plusToSpace) := by
  rw [encodeByte]
  split_ifs with space unreserved
  · subst space
    rw [List.singleton_append, List.map_cons]
    exact percentDecode_plain (by decide) _
  · obtain ⟨free, same⟩ := unreserved_plain unreserved
    simp only [delimiters, List.mem_cons, List.not_mem_nil, or_false, not_or] at free
    rw [List.singleton_append, List.map_cons, plusToSpace, if_neg free.2.1, percentDecode_plain free.1, same]
    rfl
  · obtain ⟨high, highFree⟩ := hexDigit_plain (d := byte / 16) (by omega)
    obtain ⟨low, lowFree⟩ := hexDigit_plain (d := byte % 16) (by omega)
    simp only [delimiters, List.mem_cons, List.not_mem_nil, or_false, not_or] at highFree lowFree
    simp only [List.cons_append, List.nil_append, List.map_cons, plusToSpace, if_neg highFree.2.1, if_neg lowFree.2.1]
    rw [if_neg (by decide), percentDecode]
    simp only [high, low]
    rw [Nat.div_add_mod']

/-- A component is read as the string that was written. -/
theorem decodeComponent_encodeComponent (s : String) : decodeComponent (encodeComponent s) = s := by
  have bytes : ∀ bytes : List ℕ, (∀ byte ∈ bytes, byte < 256) →
      percentDecode ((bytes.flatMap encodeByte).map plusToSpace) = bytes := by
    intro bytes small
    induction bytes with
    | nil => rfl
    | cons byte rest ih =>
      rw [List.flatMap_cons, percentDecode_encodeByte (small byte (List.mem_cons_self ..)),
        ih fun other later => small other (List.mem_cons_of_mem _ later)]
  rw [decodeComponent, encodeComponent, bytes, Utf8.decode_encode, String.ofList_toList]
  intro byte member
  obtain ⟨c, _, written⟩ := List.mem_flatMap.mp member
  exact Utf8.encodeChar_byte written

/-- What is written is ASCII. -/
theorem encodeComponent_ascii {s : String} {c : Char} (member : c ∈ encodeComponent s) : c.toNat < 128 := by
  obtain ⟨byte, encoded, written⟩ := List.mem_flatMap.mp member
  obtain ⟨char, _, inChar⟩ := List.mem_flatMap.mp encoded
  have small := Utf8.encodeChar_byte inChar
  rw [encodeByte] at written
  split_ifs at written with space unreserved
  · rw [List.mem_singleton.mp written]
    decide
  · rw [List.mem_singleton.mp written]
    rw [isUnreserved, decide_eq_true_eq] at unreserved
    exact ascii_table byte (List.mem_range.mpr (by omega))
  · simp only [List.mem_cons, List.not_mem_nil, or_false] at written
    rcases written with rfl | rfl | rfl
    · decide
    · exact hexDigit_ascii _ (List.mem_range.mpr (by omega))
    · exact hexDigit_ascii _ (List.mem_range.mpr (by omega))

private theorem encodeComponent_free {s : String} {c : Char} (member : c ∈ encodeComponent s) :
    c ≠ '&' ∧ c ≠ '=' ∧ c ≠ '?' := by
  obtain ⟨byte, encoded, written⟩ := List.mem_flatMap.mp member
  obtain ⟨char, _, inChar⟩ := List.mem_flatMap.mp encoded
  exact encodeByte_free (Utf8.encodeChar_byte inChar) written

/-- The text of one pair, as it stands between two `&`. -/
def pairText (pair : String × String) : List Char := encodeComponent pair.1 ++ '=' :: encodeComponent pair.2

/-- The name and the value of a pair are told apart at its first `=`. -/
theorem pairText_parts (pair : String × String) :
    ((pairText pair).takeWhile fun c => c ≠ '=') = encodeComponent pair.1 ∧
      ((pairText pair).dropWhile fun c => c ≠ '=').drop 1 = encodeComponent pair.2 := by
  have name : ∀ c ∈ encodeComponent pair.1, decide (c ≠ '=') = true := by
    intro c member
    exact decide_eq_true (encodeComponent_free member).2.1
  rw [pairText, List.takeWhile_append_of_pos name, List.dropWhile_append_of_pos name]
  simp

private theorem parsePair_pairText (pair : String × String) : parsePair (pairText pair) = pair := by
  rw [parsePair, (pairText_parts pair).1, (pairText_parts pair).2, decodeComponent_encodeComponent,
    decodeComponent_encodeComponent]

private theorem pairText_free {pair : String × String} {c : Char} (member : c ∈ pairText pair) :
    c ≠ '&' ∧ c ≠ '?' := by
  rcases List.mem_append.mp member with inName | inValue
  · exact ⟨(encodeComponent_free inName).1, (encodeComponent_free inName).2.2⟩
  · rcases List.mem_cons.mp inValue with rfl | inValue
    · decide
    · exact ⟨(encodeComponent_free inValue).1, (encodeComponent_free inValue).2.2⟩

namespace UrlSearchParams

private theorem toString_toList (p : UrlSearchParams) :
    p.toString.toList = ['&'].intercalate (p.pairs.map pairText) := String.toList_ofList

/-- The text starts with that of the first pair. -/
theorem head_toString (p : UrlSearchParams) : p.toString.toList.head? ≠ some '?' := by
  rw [toString_toList]
  cases p.pairs with
  | nil => exact Option.some_ne_none _ ∘ Eq.symm
  | cons pair rest =>
    have start : ∃ more, ['&'].intercalate ((pair :: rest).map pairText) = pairText pair ++ more := by
      cases rest with
      | nil => exact ⟨[], by simp⟩
      | cons next rest => exact ⟨_, List.intercalate_cons_cons.trans (List.append_assoc ..)⟩
    obtain ⟨more, text⟩ := start
    have some_ : pairText pair ≠ [] := by simp [pairText]
    rw [text, List.head?_append_of_ne_nil _ some_]
    intro first
    exact (pairText_free (List.mem_of_head? first)).2 rfl

/-- The pieces between two `&` are the texts of the pairs. -/
theorem splitOn_toString (p : UrlSearchParams) :
    ((p.toString.toList.splitOn '&').filter fun piece => piece ≠ []) = p.pairs.map pairText := by
  obtain ⟨pairs⟩ := p
  rw [toString_toList]
  cases pairs with
  | nil => rfl
  | cons pair rest =>
    have free : ∀ piece ∈ (pair :: rest).map pairText, '&' ∉ piece := by
      intro piece listed inside
      obtain ⟨written, _, rfl⟩ := List.mem_map.mp listed
      exact (pairText_free inside).1 rfl
    rw [List.splitOn_intercalate '&' free (List.cons_ne_nil _ _), List.filter_eq_self]
    intro piece listed
    obtain ⟨written, _, rfl⟩ := List.mem_map.mp listed
    simp [pairText]

/-- What is written is read back. -/
theorem ofString_toString (p : UrlSearchParams) : ofString p.toString = p := by
  rw [ofString, if_neg (head_toString _)]
  simp only [splitOn_toString, List.map_map]
  have pairs := List.map_congr_left (l := p.pairs) fun written _ => parsePair_pairText written
  exact congrArg UrlSearchParams.mk (pairs.trans (List.map_id _))

-- Broken escapes stand for themselves, and empty pieces are skipped.
example : ofString "?a=1+2&&b=%26=%zz&c" = ⟨[("a", "1 2"), ("b", "&=%zz"), ("c", "")]⟩ := by decide +kernel

end UrlSearchParams

end RoundTrip

namespace UrlSearchParams

variable {p : UrlSearchParams} {name other value : String}

@[simp] theorem get_empty : empty.get name = none := rfl

@[simp] theorem getAll_empty : empty.getAll name = [] := rfl

private theorem valueOf_self : valueOf name (name, value) = some value := if_pos rfl

private theorem valueOf_of_ne {pair : String × String} (apart : pair.1 ≠ name) : valueOf name pair = none :=
  if_neg apart

theorem get_eq_head? : p.get name = (p.getAll name).head? := by
  obtain ⟨pairs⟩ := p
  simp only [get, getAll]
  induction pairs with
  | nil => rfl
  | cons pair rest ih =>
    obtain ⟨first, value⟩ := pair
    by_cases same : first = name
    · simp [same, valueOf_self]
    · have apart : (name == first) = false := beq_false_of_ne (Ne.symm same)
      rw [List.lookup_cons, apart, ih, List.filterMap_cons_none (valueOf_of_ne same)]

@[simp] theorem getAll_append :
    (p.append name value).getAll other = p.getAll other ++ if other = name then [value] else [] := by
  rw [getAll, append, List.filterMap_append, getAll]
  split
  · next same => rw [same, List.filterMap_cons_some valueOf_self, List.filterMap_nil]
  · next same => rw [List.filterMap_cons_none (valueOf_of_ne (Ne.symm same)), List.filterMap_nil]

@[simp] theorem getAll_set :
    (p.set name value).getAll other = if other = name then [value] else p.getAll other := by
  obtain ⟨pairs⟩ := p
  simp only [getAll, set]
  split
  · next same =>
    subst same
    induction pairs with
    | nil => rw [setPairs, List.filterMap_cons_some valueOf_self, List.filterMap_nil]
    | cons pair rest ih =>
      rw [setPairs]
      split
      · rw [List.filterMap_cons_some valueOf_self, List.cons_inj_right, List.filterMap_eq_nil_iff]
        intro later kept
        exact valueOf_of_ne (of_decide_eq_true (List.mem_filter.mp kept).2)
      · next apart => rw [List.filterMap_cons_none (valueOf_of_ne apart), ih]
  · next same =>
    have gone : valueOf other (name, value) = none := valueOf_of_ne (Ne.symm same)
    induction pairs with
    | nil => rw [setPairs, List.filterMap_cons_none gone]
    | cons pair rest ih =>
      rw [setPairs]
      split
      · next named =>
        have skipped : valueOf other pair = none := valueOf_of_ne (named ▸ Ne.symm same)
        rw [List.filterMap_cons_none gone, List.filterMap_cons_none skipped, List.filterMap_filter]
        refine List.filterMap_congr fun later _ => ?_
        by_cases removed : later.1 = name
        · rw [valueOf_of_ne (removed ▸ Ne.symm same), ite_self]
        · rw [if_pos (decide_eq_true removed)]
      · rw [List.filterMap_cons, List.filterMap_cons, ih]

@[simp] theorem get_append :
    (p.append name value).get other = (p.get other).or (if other = name then some value else none) := by
  rw [get_eq_head?, get_eq_head?, getAll_append, List.head?_append]
  split <;> rfl

@[simp] theorem get_set : (p.set name value).get other = if other = name then some value else p.get other := by
  rw [get_eq_head?, get_eq_head?, getAll_set]
  split <;> rfl

end UrlSearchParams

end JavaScript
