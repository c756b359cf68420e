import Mathlib.Data.Nat.Notation
import Mathlib.Tactic.SplitIfs

/-! # UTF-8

The encoder and the decoder of the Encoding standard, on bytes as numbers below 256. The decoder reads
one byte at a time and replaces every sequence that cannot continue by U+FFFD; what the encoder writes it
reads back.
-/

namespace Utf8

def encodeChar (c : Char) : List ℕ :=
  let n := c.toNat
  if n < 0x80 then [n]
  else if n < 0x800 then [0xC0 + n / 64, 0x80 + n % 64]
  else if n < 0x10000 then [0xE0 + n / 4096, 0x80 + n / 64 % 64, 0x80 + n % 64]
  else [0xF0 + n / 262144, 0x80 + n / 4096 % 64, 0x80 + n / 64 % 64, 0x80 + n % 64]

def encode (chars : List Char) : List ℕ := chars.flatMap encodeChar

def replacement : Char := Char.ofNat 0xFFFD

/-- A character of which bytes are missing: how many, the bits so far, and the range of the next byte. -/
structure Pending where
  needed : ℕ
  point : ℕ
  lower : ℕ := 0x80
  upper : ℕ := 0xBF
deriving DecidableEq, Repr

/-- A byte between two characters. -/
def decodeFirst (byte : ℕ) : List Char × Option Pending :=
  if byte < 0x80 then ([Char.ofNat byte], none)
  else if 0xC2 ≤ byte ∧ byte ≤ 0xDF then ([], some { needed := 1, point := byte - 0xC0 })
  else if 0xE0 ≤ byte ∧ byte ≤ 0xEF then
    ([], some { needed := 2, point := byte - 0xE0, lower := if byte = 0xE0 then 0xA0 else 0x80,
                upper := if byte = 0xED then 0x9F else 0xBF })
  else if 0xF0 ≤ byte ∧ byte ≤ 0xF4 then
    ([], some { needed := 3, point := byte - 0xF0, lower := if byte = 0xF0 then 0x90 else 0x80,
                upper := if byte = 0xF4 then 0x8F else 0xBF })
  else ([replacement], none)

/-- A byte that cannot continue a character is read again as the first one of the next. -/
def decodeByte (pending : Option Pending) (byte : ℕ) : List Char × Option Pending :=
  match pending with
  | none => decodeFirst byte
  | some p =>
    if p.lower ≤ byte ∧ byte ≤ p.upper then
      let point := p.point * 64 + byte % 64
      if p.needed = 1 then ([Char.ofNat point], none) else ([], some { needed := p.needed - 1, point })
    else (replacement :: (decodeFirst byte).1, (decodeFirst byte).2)

/-- A character that the end of the input cuts off is replaced too. -/
def decodeFrom (pending : Option Pending) : List ℕ → List Char
  | [] => if pending.isSome then [replacement] else []
  | byte :: rest => (decodeByte pending byte).1 ++ decodeFrom (decodeByte pending byte).2 rest

def decode (bytes : List ℕ) : List Char := decodeFrom none bytes

section RoundTrip

variable {rest : List ℕ}

private theorem decodeFrom_first {byte : ℕ} {p : Pending} (opens : decodeFirst byte = ([], some p)) :
    decodeFrom none (byte :: rest) = decodeFrom (some p) rest := by
  rw [decodeFrom, decodeByte, opens]
  rfl

private theorem decodeFrom_next {p : Pending} {byte : ℕ} (within : p.lower ≤ byte ∧ byte ≤ p.upper)
    (more : p.needed ≠ 1) : decodeFrom (some p) (byte :: rest) =
      decodeFrom (some { needed := p.needed - 1, point := p.point * 64 + byte % 64 }) rest := by
  rw [decodeFrom, decodeByte]
  simp only [if_pos within, if_neg more, List.nil_append]

private theorem decodeFrom_last {p : Pending} {byte : ℕ} (within : p.lower ≤ byte ∧ byte ≤ p.upper)
    (last : p.needed = 1) : decodeFrom (some p) (byte :: rest) =
      Char.ofNat (p.point * 64 + byte % 64) :: decodeFrom none rest := by
  rw [decodeFrom, decodeByte]
  simp only [if_pos within, if_pos last, List.singleton_append]

private theorem ofNat_of_eq {c : Char} {n : ℕ} (same : n = c.toNat) : Char.ofNat n = c := by
  rw [same, Char.ofNat_toNat]

/-- An encoded character is read as that character, whatever follows. -/
theorem decodeFrom_encodeChar (c : Char) : decodeFrom none (encodeChar c ++ rest) = c :: decodeFrom none rest := by
  have scalar : c.toNat < 0xD800 ∨ 0xDFFF < c.toNat ∧ c.toNat < 0x110000 := c.valid
  rw [encodeChar]
  split_ifs with one two three
  · rw [List.singleton_append, decodeFrom, decodeByte, decodeFirst, if_pos one, ofNat_of_eq rfl]
    rfl
  · have opens : decodeFirst (0xC0 + c.toNat / 64) = ([], some { needed := 1, point := c.toNat / 64 }) := by
      rw [decodeFirst, if_neg (by omega), if_pos (by omega), Nat.add_sub_cancel_left]
    rw [List.cons_append, List.singleton_append, decodeFrom_first opens, decodeFrom_last _ rfl, ofNat_of_eq]
    · dsimp only
      omega
    · dsimp only
      omega
  · have opens : decodeFirst (0xE0 + c.toNat / 4096) = ([], some
        { needed := 2, point := c.toNat / 4096, lower := if 0xE0 + c.toNat / 4096 = 0xE0 then 0xA0 else 0x80,
          upper := if 0xE0 + c.toNat / 4096 = 0xED then 0x9F else 0xBF }) := by
      rw [decodeFirst, if_neg (by omega), if_neg (by omega), if_pos (by omega), Nat.add_sub_cancel_left]
    simp only [List.cons_append, List.nil_append]
    rw [decodeFrom_first opens, decodeFrom_next, decodeFrom_last _ rfl, ofNat_of_eq]
    · dsimp only
      omega
    · dsimp only
      omega
    · dsimp only
      constructor <;> split <;> omega
    · dsimp only
      omega
  · have opens : decodeFirst (0xF0 + c.toNat / 262144) = ([], some
        { needed := 3, point := c.toNat / 262144, lower := if 0xF0 + c.toNat / 262144 = 0xF0 then 0x90 else 0x80,
          upper := if 0xF0 + c.toNat / 262144 = 0xF4 then 0x8F else 0xBF }) := by
      rw [decodeFirst, if_neg (by omega), if_neg (by omega), if_neg (by omega), if_pos (by omega),
        Nat.add_sub_cancel_left]
    simp only [List.cons_append, List.nil_append]
    rw [decodeFrom_first opens, decodeFrom_next, decodeFrom_next, decodeFrom_last _ rfl, ofNat_of_eq]
    · dsimp only
      omega
    · dsimp only
      omega
    · dsimp only
      omega
    · dsimp only
      omega
    · dsimp only
      constructor <;> split <;> omega
    · dsimp only
      omega

theorem decode_encode (chars : List Char) : decode (encode chars) = chars := by
  rw [decode, encode]
  induction chars with
  | nil => rfl
  | cons c rest ih => rw [List.flatMap_cons, decodeFrom_encodeChar, ih]

theorem encode_append (front rest : List Char) : encode (front ++ rest) = encode front ++ encode rest :=
  List.flatMap_append

theorem encodeChar_byte {c : Char} {byte : ℕ} (member : byte ∈ encodeChar c) : byte < 256 := by
  have scalar : c.toNat < 0xD800 ∨ 0xDFFF < c.toNat ∧ c.toNat < 0x110000 := c.valid
  rw [encodeChar] at member
  split_ifs at member <;> simp only [List.mem_cons, List.not_mem_nil, or_false] at member <;> omega

end RoundTrip

-- A truncated character is one replacement, and so is each byte that no character starts with.
example : decode [0xE2, 0x82, 0x41, 0xFF] = [replacement, 'A', replacement] := by decide

end Utf8
