import Mathlib.Data.List.Basic
import Mathlib.Data.Nat.Notation
import Mathlib.Tactic.Ring

/-! # Fixed-width decimal fields

`fixed n` reads exactly `n` ASCII digits from the front of a character list and `pad n` writes a
number with `n` digits, so that reading a written field gives the number back.
-/

namespace Digits

/-- Read exactly `n` digits after the value `acc`. -/
def fixedFrom (acc : ℕ) : ℕ → List Char → Option (ℕ × List Char)
  | 0, rest => some (acc, rest)
  | _ + 1, [] => none
  | n + 1, c :: rest => if c.isDigit then fixedFrom (acc * 10 + (c.toNat - 48)) n rest else none

/-- The value of the next `n` digits, and what follows them. -/
def fixed (n : ℕ) (chars : List Char) : Option (ℕ × List Char) := fixedFrom 0 n chars

def digitChar (d : ℕ) : Char := Char.ofNat (48 + d % 10)

/-- The last `n` digits of `v`, most significant first. -/
def pad : ℕ → ℕ → List Char
  | 0, _ => []
  | n + 1, v => pad n (v / 10) ++ [digitChar v]

/-- The value of a nonempty list of digits. -/
def value? (chars : List Char) : Option ℕ :=
  if chars = [] then none else
    match fixed chars.length chars with
    | some (v, []) => some v
    | _ => none

theorem digitChar_isDigit (d : ℕ) : (digitChar d).isDigit = true ∧ (digitChar d).toNat - 48 = d % 10 := by
  have small : d % 10 < 10 := Nat.mod_lt _ (by decide)
  unfold digitChar
  generalize d % 10 = digit at small
  revert digit
  decide

theorem length_pad (n v : ℕ) : (pad n v).length = n := by
  induction n generalizing v with
  | zero => rfl
  | succ n ih => simp [pad, ih]

theorem isDigit_of_mem_pad {n v : ℕ} {c : Char} (member : c ∈ pad n v) : c.isDigit = true := by
  induction n generalizing v with
  | zero => simp [pad] at member
  | succ n ih =>
    rcases List.mem_append.mp member with earlier | last
    · exact ih earlier
    · rw [List.mem_singleton.mp last]
      exact (digitChar_isDigit v).1

/-- Digits read after others are read from what those left. -/
theorem fixedFrom_add (acc n m : ℕ) (chars : List Char) :
    fixedFrom acc (n + m) chars = (fixedFrom acc n chars).bind fun read => fixedFrom read.1 m read.2 := by
  induction n generalizing acc chars with
  | zero => rw [Nat.zero_add, fixedFrom, Option.bind_some]
  | succ n ih =>
    rw [Nat.add_right_comm]
    cases chars with
    | nil => rfl
    | cons c rest =>
      rw [fixedFrom, fixedFrom]
      split
      · exact ih _ _
      · rfl

theorem fixedFrom_pad (acc n v : ℕ) (rest : List Char) :
    fixedFrom acc n (pad n v ++ rest) = some (acc * 10 ^ n + v % 10 ^ n, rest) := by
  induction n generalizing v rest with
  | zero => simp [fixedFrom, pad, Nat.mod_one]
  | succ n ih =>
    obtain ⟨digit, value⟩ := digitChar_isDigit v
    have split : v % 10 ^ (n + 1) = v / 10 % 10 ^ n * 10 + v % 10 := by
      rw [pow_succ, Nat.mul_comm, Nat.mod_mul]
      ring
    rw [fixedFrom_add, pad, List.append_assoc, ih, Option.bind_some, List.singleton_append, fixedFrom,
      if_pos digit, fixedFrom, value, split]
    congr 2
    ring

/-- A written field reads back as its number. -/
theorem fixed_pad {n v : ℕ} (bound : v < 10 ^ n) (rest : List Char) :
    fixed n (pad n v ++ rest) = some (v, rest) := by
  rw [fixed, fixedFrom_pad, Nat.mod_eq_of_lt bound, Nat.zero_mul, Nat.zero_add]

theorem ne_of_isDigit {c d : Char} (digit : c.isDigit = true) (other : d.isDigit = false) : c ≠ d := by
  rintro rfl
  simp [digit] at other

theorem digit_value {c : Char} (digit : c.isDigit = true) : c.toNat - 48 < 10 := by
  rw [Char.isDigit, Bool.and_eq_true, decide_eq_true_eq, decide_eq_true_eq] at digit
  have upper : c.val.toNat ≤ 57 := UInt32.le_iff_toNat_le.mp digit.2
  have same : c.toNat = c.val.toNat := rfl
  omega

/-- Digits after a value leave it in front. -/
theorem fixedFrom_digits (acc : ℕ) {chars : List Char} (digits : ∀ c ∈ chars, c.isDigit = true) :
    ∃ v, fixedFrom acc chars.length chars = some (v, []) ∧ acc * 10 ^ chars.length ≤ v ∧
      v < (acc + 1) * 10 ^ chars.length := by
  induction chars generalizing acc with
  | nil => exact ⟨acc, rfl, by simp⟩
  | cons c rest ih =>
    have digit := digits c (List.mem_cons_self ..)
    have value := digit_value digit
    obtain ⟨v, read, least, most⟩ := ih (acc * 10 + (c.toNat - 48)) fun other later =>
      digits other (List.mem_cons_of_mem _ later)
    refine ⟨v, by rw [List.length_cons, fixedFrom, if_pos digit, read], ?_, ?_⟩
    · calc acc * 10 ^ (c :: rest).length = acc * 10 * 10 ^ rest.length := by rw [List.length_cons, pow_succ]; ring
        _ ≤ (acc * 10 + (c.toNat - 48)) * 10 ^ rest.length := Nat.mul_le_mul_right _ (Nat.le_add_right ..)
        _ ≤ v := least
    · calc v < (acc * 10 + (c.toNat - 48) + 1) * 10 ^ rest.length := most
        _ ≤ (acc + 1) * 10 * 10 ^ rest.length := by
          apply Nat.mul_le_mul_right
          omega
        _ = (acc + 1) * 10 ^ (c :: rest).length := by rw [List.length_cons, pow_succ]; ring

/-- A nonempty list of digits has a value below the power of ten of its length. -/
theorem value?_digits {chars : List Char} (some_ : chars ≠ []) (digits : ∀ c ∈ chars, c.isDigit = true) :
    ∃ v, value? chars = some v ∧ v < 10 ^ chars.length := by
  obtain ⟨v, read, _, bound⟩ := fixedFrom_digits 0 digits
  refine ⟨v, ?_, by simpa using bound⟩
  rw [value?, if_neg some_, fixed, read]

private theorem fixedFrom_eq_some {acc n v : ℕ} {chars rest : List Char} (read : fixedFrom acc n chars = some (v, rest)) :
    ∃ digits, chars = digits ++ rest ∧ digits.length = n ∧ (∀ c ∈ digits, c.isDigit = true) ∧
      ∀ other, fixedFrom acc n (digits ++ other) = some (v, other) := by
  induction n generalizing acc chars with
  | zero =>
    cases read
    exact ⟨[], rfl, rfl, fun c none_ => absurd none_ List.not_mem_nil, fun _ => rfl⟩
  | succ n ih =>
    cases chars with
    | nil => cases read
    | cons c others =>
      rw [fixedFrom] at read
      split at read
      · next digit =>
        obtain ⟨digits, rfl, length, all, again⟩ := ih read
        refine ⟨c :: digits, rfl, congrArg Nat.succ length, List.forall_mem_cons.mpr ⟨digit, all⟩, fun other => ?_⟩
        rw [List.cons_append, fixedFrom, if_pos digit, again]
      · cases read

/-- A field is read from the digits in front, whatever follows them. -/
theorem fixed_eq_some {n v : ℕ} {chars rest : List Char} (read : fixed n chars = some (v, rest)) :
    ∃ digits, chars = digits ++ rest ∧ digits.length = n ∧ (∀ c ∈ digits, c.isDigit = true) ∧
      ∀ other, fixed n (digits ++ other) = some (v, other) :=
  fixedFrom_eq_some read

theorem fixed_append {n v : ℕ} {chars rest : List Char} (read : fixed n chars = some (v, rest)) (more : List Char) :
    fixed n (chars ++ more) = some (v, rest ++ more) := by
  obtain ⟨digits, rfl, _, _, again⟩ := fixed_eq_some read
  rw [List.append_assoc, again]

theorem fixed_suffix {n v : ℕ} {chars rest : List Char} (read : fixed n chars = some (v, rest)) : rest <:+ chars := by
  obtain ⟨digits, rfl, _⟩ := fixed_eq_some read
  exact List.suffix_append ..

private theorem fixedFrom_eq_map (acc n : ℕ) (chars : List Char) :
    fixedFrom acc n chars = (fixed n chars).map fun read => (acc * 10 ^ n + read.1, read.2) := by
  induction n generalizing acc chars with
  | zero => simp [fixedFrom, fixed]
  | succ n ih =>
    cases chars with
    | nil => rfl
    | cons c rest =>
      rw [fixed, fixedFrom, fixedFrom]
      split
      · rw [ih, ih (0 * 10 + (c.toNat - 48)), Option.map_map]
        congr 1
        funext read
        simp only [Function.comp_apply, Prod.mk.injEq, and_true]
        ring
      · rfl

/-- Two fields in a row are one field. -/
theorem fixed_concat {n m v w : ℕ} {chars rest rest' : List Char} (front : fixed n chars = some (v, rest))
    (back : fixed m rest = some (w, rest')) : fixed (n + m) chars = some (v * 10 ^ m + w, rest') := by
  rw [fixed] at front
  rw [fixed, fixedFrom_add, front, Option.bind_some, fixedFrom_eq_map, back, Option.map_some]

/-- Two digits in front, and their value. -/
theorem fixed_two {v : ℕ} {chars rest : List Char} (read : fixed 2 chars = some (v, rest)) :
    ∃ a b, chars = a :: b :: rest ∧ a.isDigit = true ∧ b.isDigit = true ∧
      v = (a.toNat - 48) * 10 + (b.toNat - 48) := by
  obtain ⟨digits, rfl, length, all, _⟩ := fixed_eq_some read
  obtain ⟨a, b, rfl⟩ := List.length_eq_two.mp length
  have first := all a (by simp)
  have second := all b (by simp)
  simp only [fixed, List.cons_append, List.nil_append, fixedFrom, first, second, if_true, zero_mul, zero_add,
    Option.some.injEq, Prod.mk.injEq, and_true] at read
  exact ⟨a, b, rfl, first, second, read.symm⟩

theorem fixed_two_cons {a b : Char} (first : a.isDigit = true) (second : b.isDigit = true) (rest : List Char) :
    fixed 2 (a :: b :: rest) = some ((a.toNat - 48) * 10 + (b.toNat - 48), rest) := by
  simp [fixed, fixedFrom, first, second]

theorem value?_fixed {v : ℕ} {chars : List Char} (read : value? chars = some v) :
    chars ≠ [] ∧ fixed chars.length chars = some (v, []) := by
  rw [value?] at read
  split at read
  · cases read
  · next some_ =>
    split at read
    · next w front =>
      cases read
      exact ⟨some_, front⟩
    · cases read

/-- The digits of a field have its value. -/
theorem fixed_value {n v : ℕ} {chars rest : List Char} (some_ : n ≠ 0) (read : fixed n chars = some (v, rest)) :
    ∃ digits, chars = digits ++ rest ∧ value? digits = some v := by
  obtain ⟨digits, rfl, rfl, _, again⟩ := fixed_eq_some read
  have whole := again []
  rw [List.append_nil] at whole
  refine ⟨digits, rfl, ?_⟩
  rw [value?, if_neg (List.ne_nil_of_length_pos (Nat.pos_of_ne_zero some_)), whole]

/-- What has a value is a nonempty list of digits. -/
theorem value?_eq_some {v : ℕ} {chars : List Char} (read : value? chars = some v) :
    chars ≠ [] ∧ (∀ c ∈ chars, c.isDigit = true) ∧ v < 10 ^ chars.length := by
  obtain ⟨some_, front⟩ := value?_fixed read
  obtain ⟨digits, same, _, all, _⟩ := fixed_eq_some front
  rw [List.append_nil] at same
  subst same
  obtain ⟨w, again, _, bound⟩ := fixedFrom_digits 0 all
  rw [fixed, again, Option.some.injEq, Prod.mk.injEq] at front
  refine ⟨some_, all, ?_⟩
  rw [← front.1]
  simpa using bound

theorem fixed_four {v : ℕ} {chars rest : List Char} (read : fixed 4 chars = some (v, rest)) :
    ∃ a b c d, chars = a :: b :: c :: d :: rest ∧ a.isDigit = true ∧ b.isDigit = true ∧ c.isDigit = true ∧
      d.isDigit = true := by
  obtain ⟨digits, rfl, length, all, _⟩ := fixed_eq_some read
  match digits, length with
  | [a, b, c, d], _ => exact ⟨a, b, c, d, rfl, by simpa using all⟩

/-- A value is that of the digits in front, and then those behind. -/
theorem value?_split {n v w : ℕ} {chars rest : List Char} (read : value? chars = some v)
    (front : fixed n chars = some (w, rest)) : ∃ x < 10 ^ rest.length, v = w * 10 ^ rest.length + x := by
  obtain ⟨_, all, _⟩ := value?_eq_some read
  obtain ⟨digits, same, rfl, _⟩ := fixed_eq_some front
  obtain ⟨x, back, _, bound⟩ := fixedFrom_digits 0 fun c member => all c (same ▸ List.mem_append_right _ member)
  refine ⟨x, by simpa using bound, ?_⟩
  have whole := fixed_concat front back
  rw [← List.length_append, ← same, (value?_fixed read).2] at whole
  cases whole
  rfl

/-- A written number is the value of its digits. -/
theorem value?_pad {n v : ℕ} (some_ : n ≠ 0) (bound : v < 10 ^ n) : value? (pad n v) = some v := by
  have nonempty : pad n v ≠ [] := List.ne_nil_of_length_pos (by rw [length_pad]; omega)
  have read := fixed_pad bound []
  rw [List.append_nil] at read
  rw [value?, if_neg nonempty, length_pad, read]

/-- A written field starts with a digit. -/
theorem pad_eq_cons (n v : ℕ) : ∃ c rest, pad (n + 1) v = c :: rest ∧ c.isDigit = true := by
  cases written : pad (n + 1) v with
  | nil =>
    have length := length_pad (n + 1) v
    simp [written] at length
  | cons c rest => exact ⟨c, rest, rfl, isDigit_of_mem_pad (written ▸ List.mem_cons_self ..)⟩

end Digits
