import CliproxyUsage.JavaScript.UrlSearchParams
import Mathlib.Data.List.DropRight

/-! # Paths of URLs

`encodeURIComponent`, and the path that a request to a reference starting with a single slash is sent to, as
the URL standard parses it: dot segments are resolved, and characters outside of its path are escaped.
-/

namespace JavaScript

def isAlphanumeric (byte : ℕ) : Bool :=
  (0x30 ≤ byte ∧ byte ≤ 0x39) ∨ (0x41 ≤ byte ∧ byte ≤ 0x5A) ∨ (0x61 ≤ byte ∧ byte ≤ 0x7A)

/-- Bytes that are not kept are written as escapes. -/
def percentEncode (keep : ℕ → Bool) (bytes : List ℕ) : List Char :=
  bytes.flatMap fun byte => if keep byte then [Char.ofNat byte] else ['%', hexDigit (byte / 16), hexDigit (byte % 16)]

/-- The bytes that `encodeURIComponent` keeps: those of ASCII letters and digits, and of `-_.!~*'()`. -/
def isComponentByte (byte : ℕ) : Bool :=
  isAlphanumeric byte ∨ byte ∈ [0x2D, 0x5F, 0x2E, 0x21, 0x7E, 0x2A, 0x27, 0x28, 0x29]

def encodeURIComponent (s : String) : List Char := percentEncode isComponentByte (Utf8.encode s.toList)

/-- The bytes that a path keeps: printable ASCII, but for the space and for the characters of ``"#<>?^`{}``. -/
def isPathByte (byte : ℕ) : Bool :=
  (0x21 ≤ byte ∧ byte ≤ 0x7E) ∧ byte ∉ [0x22, 0x23, 0x3C, 0x3E, 0x3F, 0x5E, 0x60, 0x7B, 0x7D]

def singleDots : List (List Char) := [".", "%2e", "%2E"].map String.toList

def doubleDots : List (List Char) :=
  ["..", ".%2e", ".%2E", "%2e.", "%2E.", "%2e%2e", "%2e%2E", "%2E%2e", "%2E%2E"].map String.toList

/-- The segments after those of `path`: a dot segment at the end leaves an empty one. -/
def resolveSegments (path : List (List Char)) : List (List Char) → List (List Char)
  | [] => path
  | seg :: rest =>
    let end_ := if rest = [] then [[]] else []
    if doubleDots.contains seg then resolveSegments (path.dropLast ++ end_) rest
    else if singleDots.contains seg then resolveSegments (path ++ end_) rest
    else resolveSegments (path ++ [percentEncode isPathByte (Utf8.encode seg)]) rest

/-- Control characters and spaces around a reference are dropped. -/
def isTrimmed (c : Char) : Bool := c.toNat ≤ 0x20

/-- Tabs and line breaks are dropped everywhere. -/
def isBreak (c : Char) : Bool := c.toNat = 0x09 ∨ c.toNat = 0x0A ∨ c.toNat = 0x0D

/-- The segments of a path. -/
def pathText (segments : List (List Char)) : List Char := '/' :: ['/'].intercalate segments

/-- The path that a reference with a single slash at its start resolves to; backslashes count as slashes. -/
def requestPath (reference : List Char) : List Char :=
  let chars := (reference.rdropWhile isTrimmed).filter fun c => !isBreak c
  let path := (chars.takeWhile fun c => c ≠ '?' ∧ c ≠ '#').map fun c => if c = '\\' then '/' else c
  pathText (resolveSegments [] ((path.drop 1).splitOn '/'))

example : requestPath "/a/./b/../c%2E/d e?q".toList = "/a/c%2E/d%20e".toList ∧
    requestPath "/a/b/%2e%2E".toList = "/a/".toList := by decide +kernel

section Encoding

/-- A character that a path keeps and that ends no segment. -/
def IsSafe (c : Char) : Prop := isPathByte c.toNat = true ∧ c ≠ '/' ∧ c ≠ '\\'

instance (c : Char) : Decidable (IsSafe c) := inferInstanceAs (Decidable (_ ∧ _))

private theorem component_table : ∀ byte ∈ List.range 128, isComponentByte byte = true →
    IsSafe (Char.ofNat byte) ∧ Char.ofNat byte ≠ '%' ∧ Utf8.encodeChar (Char.ofNat byte) = [byte] := by
  decide +kernel

private theorem hexDigit_safe : ∀ d ∈ List.range 16, IsSafe (hexDigit d) ∧ hexValue (hexDigit d) = some d := by
  decide +kernel

private theorem component_small {byte : ℕ} (kept : isComponentByte byte = true) : byte < 128 := by
  simp only [isComponentByte, isAlphanumeric, decide_eq_true_eq, List.mem_cons, List.not_mem_nil, or_false] at kept
  omega

theorem IsSafe.small {c : Char} (safe : IsSafe c) : 0x21 ≤ c.toNat ∧ c.toNat ≤ 0x7E := by
  have path := safe.1
  rw [isPathByte, decide_eq_true_eq] at path
  exact path.1

theorem IsSafe.encodeChar {c : Char} (safe : IsSafe c) : Utf8.encodeChar c = [c.toNat] := by
  have := safe.small
  rw [Utf8.encodeChar, if_pos (by omega)]

/-- An encoded component keeps to safe characters. -/
theorem safe_of_mem_encodeURIComponent {s : String} {c : Char} (member : c ∈ encodeURIComponent s) : IsSafe c := by
  obtain ⟨byte, encoded, written⟩ := List.mem_flatMap.mp member
  obtain ⟨char, _, inChar⟩ := List.mem_flatMap.mp encoded
  have small := Utf8.encodeChar_byte inChar
  split at written
  · next kept =>
    rw [List.mem_singleton.mp written]
    exact (component_table byte (List.mem_range.mpr (component_small kept)) kept).1
  · simp only [List.mem_cons, List.not_mem_nil, or_false] at written
    rcases written with rfl | rfl | rfl
    · decide
    · exact (hexDigit_safe _ (List.mem_range.mpr (by omega))).1
    · exact (hexDigit_safe _ (List.mem_range.mpr (by omega))).1

/-- Text without escapes stands for itself. -/
theorem percentDecode_append_of_plain {chars : List Char} (plain : ∀ c ∈ chars, c ≠ '%') (rest : List Char) :
    percentDecode (chars ++ rest) = Utf8.encode chars ++ percentDecode rest := by
  induction chars with
  | nil => rfl
  | cons c chars ih =>
    rw [List.cons_append, percentDecode, ih fun other later => plain other (List.mem_cons_of_mem _ later), Utf8.encode,
      Utf8.encode, List.flatMap_cons, List.append_assoc]
    exact fun percent => plain c (List.mem_cons_self ..) percent

/-- An encoded component is read as the string that was written, whatever follows. -/
theorem percentDecode_encodeURIComponent (s : String) (rest : List Char) :
    percentDecode (encodeURIComponent s ++ rest) = Utf8.encode s.toList ++ percentDecode rest := by
  have bytes : ∀ bytes : List ℕ, (∀ byte ∈ bytes, byte < 256) →
      percentDecode (percentEncode isComponentByte bytes ++ rest) = bytes ++ percentDecode rest := by
    intro bytes small
    induction bytes with
    | nil => rfl
    | cons byte more ih =>
      have below := small byte (List.mem_cons_self ..)
      have next := ih fun other later => small other (List.mem_cons_of_mem _ later)
      rw [percentEncode, List.flatMap_cons, List.append_assoc]
      change percentDecode (_ ++ (percentEncode isComponentByte more ++ rest)) = _
      split
      · next kept =>
        obtain ⟨_, plain, same⟩ := component_table byte (List.mem_range.mpr (component_small kept)) kept
        rw [percentDecode_append_of_plain (by simpa using plain), next, Utf8.encode, List.flatMap_singleton, same]
        rfl
      · have high := (hexDigit_safe (byte / 16) (List.mem_range.mpr (by omega))).2
        have low := (hexDigit_safe (byte % 16) (List.mem_range.mpr (by omega))).2
        simp only [List.cons_append, List.nil_append]
        rw [percentDecode]
        simp only [high, low]
        rw [Nat.div_add_mod', next]
  apply bytes
  intro byte member
  obtain ⟨c, _, written⟩ := List.mem_flatMap.mp member
  exact Utf8.encodeChar_byte written

/-- Safe text passes through the path as it is. -/
theorem percentEncode_of_safe {chars : List Char} (safe : ∀ c ∈ chars, IsSafe c) :
    percentEncode isPathByte (Utf8.encode chars) = chars := by
  induction chars with
  | nil => rfl
  | cons c rest ih =>
    have first := safe c (List.mem_cons_self ..)
    have next := ih fun other later => safe other (List.mem_cons_of_mem _ later)
    rw [Utf8.encode, List.flatMap_cons, first.encodeChar, percentEncode, List.flatMap_append, List.flatMap_singleton,
      if_pos first.1, Char.ofNat_toNat]
    exact congrArg (c :: ·) next

end Encoding

section Resolving

variable {segments : List (List Char)}

theorem mem_pathText {c : Char} (member : c ∈ pathText segments) : c = '/' ∨ ∃ seg ∈ segments, c ∈ seg := by
  rcases List.mem_cons.mp member with slash | inside
  · exact .inl slash
  · induction segments with
    | nil => exact absurd inside List.not_mem_nil
    | cons seg rest ih =>
      cases rest with
      | nil =>
        rw [List.intercalate_singleton] at inside
        exact .inr ⟨seg, List.mem_cons_self .., inside⟩
      | cons next rest =>
        rw [List.intercalate_cons_cons, List.append_assoc, List.mem_append, List.mem_append, List.mem_singleton] at inside
        rcases inside with here | slash | later
        · exact .inr ⟨seg, List.mem_cons_self .., here⟩
        · exact .inl slash
        · exact (ih (List.mem_cons_of_mem _ later) later).imp_right fun ⟨other, listed, inOther⟩ =>
            ⟨other, List.mem_cons_of_mem _ listed, inOther⟩

/-- A reference of safe characters is only split at its slashes. -/
theorem requestPath_pathText (some_ : segments ≠ []) (safe : ∀ seg ∈ segments, ∀ c ∈ seg, IsSafe c) :
    requestPath (pathText segments) = pathText (resolveSegments [] segments) := by
  have chars : ∀ c ∈ pathText segments, c = '/' ∨ IsSafe c := by
    intro c member
    rcases mem_pathText member with slash | ⟨seg, listed, inside⟩
    · exact .inl slash
    · exact .inr (safe seg listed c inside)
  have visible {c : Char} (member : c ∈ pathText segments) : 0x20 < c.toNat ∧ c ≠ '?' ∧ c ≠ '#' ∧ c ≠ '\\' := by
    rcases chars c member with rfl | kept
    · decide
    · refine ⟨by have := kept.small; omega, ?_, ?_, kept.2.2⟩
      · rintro rfl
        exact absurd kept (by decide)
      · rintro rfl
        exact absurd kept (by decide)
  have trimmed : (pathText segments).rdropWhile isTrimmed = pathText segments := by
    rw [List.rdropWhile_eq_self_iff]
    intro nonempty last
    have := (visible (List.getLast_mem nonempty)).1
    rw [isTrimmed, decide_eq_true_eq] at last
    omega
  have unbroken : (pathText segments).filter (fun c => !isBreak c) = pathText segments := by
    rw [List.filter_eq_self]
    intro c member
    have := (visible member).1
    rw [isBreak, Bool.not_eq_true', decide_eq_false_iff_not]
    omega
  have whole : ((pathText segments).takeWhile fun c => c ≠ '?' ∧ c ≠ '#') = pathText segments := by
    rw [List.takeWhile_eq_self_iff]
    intro c member
    exact decide_eq_true ⟨(visible member).2.1, (visible member).2.2.1⟩
  have slashes : ((pathText segments).map fun c => if c = '\\' then '/' else c) = pathText segments := by
    refine (List.map_congr_left fun c member => ?_).trans (List.map_id _)
    rw [if_neg (visible member).2.2.2, id]
  have parts : ((pathText segments).drop 1).splitOn '/' = segments := by
    apply List.splitOn_intercalate '/' _ some_
    intro seg listed slash
    exact (safe seg listed _ slash).2.1 rfl
  simp only [requestPath, trimmed, unbroken, whole, slashes, parts]

/-- Segments that are not of dots are kept, up to the first that is. -/
theorem resolveSegments_append {path front rest : List (List Char)}
    (safe : ∀ seg ∈ front, ∀ c ∈ seg, IsSafe c) (undotted : ∀ seg ∈ front, seg ∉ singleDots ∧ seg ∉ doubleDots) :
    resolveSegments path (front ++ rest) = resolveSegments (path ++ front) rest := by
  induction front generalizing path with
  | nil => rw [List.nil_append, List.append_nil]
  | cons seg front ih =>
    obtain ⟨single, double⟩ := undotted seg (List.mem_cons_self ..)
    rw [List.cons_append, resolveSegments, if_neg (mt List.contains_iff_mem.mp double),
      if_neg (mt List.contains_iff_mem.mp single),
      percentEncode_of_safe (safe seg (List.mem_cons_self ..)),
      ih (fun other later => safe other (List.mem_cons_of_mem _ later))
        fun other later => undotted other (List.mem_cons_of_mem _ later), List.append_assoc, List.singleton_append]

/-- An encoded component is a dot segment only if it is one itself. -/
theorem encodeURIComponent_dots (s : String) :
    (encodeURIComponent s ∈ singleDots → s = ".") ∧ (encodeURIComponent s ∈ doubleDots → s = "..") := by
  have read := percentDecode_encodeURIComponent s []
  rw [List.append_nil, percentDecode, List.append_nil] at read
  have back {bytes : List ℕ} {text : String} (same : Utf8.encode s.toList = bytes)
      (decoded : Utf8.decode bytes = text.toList) : s = text := by
    rw [← String.toList_inj, ← decoded, ← same, Utf8.decode_encode]
  have single : ∀ seg ∈ singleDots, percentDecode seg = [0x2E] := by decide
  have double : ∀ seg ∈ doubleDots, percentDecode seg = [0x2E, 0x2E] := by decide
  exact ⟨fun dots => back (read.symm.trans (single _ dots)) (by decide),
    fun dots => back (read.symm.trans (double _ dots)) (by decide)⟩

end Resolving

end JavaScript
