import CliproxyUsage.Python.Exceptions
import CliproxyUsage.Python.IsoFormat
import CliproxyUsage.Python.Json
import CliproxyUsage.ToMathlib.ListAccumulate
import Mathlib.Data.Rat.Floor

/-! # Numbers of a JSON value

`bool` is an `int` in Python, and an `int` compares exactly with a `float`. Converting a number fails
where its value is out of range: `float` on integers past the largest double, and
`datetime.fromtimestamp` on instants outside the years of `datetime`.
-/

namespace Python

/-- The nearest integer, half to even. -/
def roundHalfEven (value : ℚ) : ℤ :=
  let below := ⌊value⌋
  let rest := value - below
  below + if rest < 1 / 2 then 0 else if 1 / 2 < rest then 1 else below % 2

/-- The nearest double of an integer, before overflow. -/
def nearestDouble (n : ℤ) : ℚ :=
  let unit : ℤ := 2 ^ (Nat.log2 n.natAbs - 52)
  roundHalfEven (n / unit) * unit

/-- Integers from here on round past the largest double. -/
def floatLimit : ℤ := 2 ^ 1024 - 2 ^ 970

namespace Json

/-- The value of a number. -/
def number? : Json → Option FloatValue
  | .bool value => some (.finite (if value then 1 else 0))
  | .int value => some (.finite value)
  | .float value => some value
  | _ => none

/-- `isinstance(value, (int, float))`. -/
def isNumber (value : Json) : Bool := value.number?.isSome

/-- `value == n`. -/
def equalsInt (value : Json) (n : ℤ) : Bool := value.number? = some (.finite n)

/-- `value == text`. -/
def equalsStr (value : Json) (text : String) : Bool :=
  match value with
  | .str own => own = text
  | _ => false

/-- `value is True`. -/
def isTrue : Json → Bool
  | .bool value => value
  | _ => false

/-- `low <= value < high`. -/
def between (low high : ℤ) (value : Json) : Except PyError Bool :=
  match value.number? with
  | none => .error .typeError
  | some (.finite x) => .ok (low ≤ x ∧ x < high)
  | some _ => .ok false

/-- `float(value)` of a number. -/
def toFloat : Json → Except PyError FloatValue
  | .bool value => .ok (.finite (if value then 1 else 0))
  | .int value => if |value| < floatLimit then .ok (.finite (nearestDouble value)) else .error .overflowError
  | .float value => .ok value
  | _ => .error .typeError

/-- `datetime.fromtimestamp(value, tz=UTC)`, rounded to microseconds. -/
def fromTimestamp (value : Json) : Except PyError DateTime :=
  match value.number? with
  | none => .error .typeError
  | some .nan => .error .valueError
  | some (.infinite _) => .error .overflowError
  | some (.finite seconds) =>
    let instant := roundHalfEven (seconds * 1000000)
    if InRange instant then .ok ⟨instant, some 0⟩
    else if |instant / microsPerSecond| < 2 ^ 63 then .error .valueError
    else .error .overflowError

/-- A number that `float` accepts. -/
def FitsFloat : Json → Bool
  | .int value => |value| < floatLimit
  | _ => true

theorem toFloat_ok_iff {value : Json} (number : value.isNumber = true) :
    (∃ x, value.toFloat = .ok x) ↔ value.FitsFloat = true := by
  cases value with
  | int n => by_cases fits : |n| < floatLimit <;> simp [toFloat, FitsFloat, fits]
  | bool b => simp [toFloat, FitsFloat]
  | float v => simp [toFloat, FitsFloat]
  | null => cases number
  | str s => cases number
  | list items => cases number
  | dict members => cases number

/-- A finite number of seconds within the years of `datetime`. -/
def FitsInstant (value : Json) : Bool :=
  match value.number? with
  | some (.finite seconds) => InRange (roundHalfEven (seconds * 1000000))
  | _ => false

theorem fromTimestamp_ok_iff {value : Json} : (∃ at_, value.fromTimestamp = .ok at_) ↔ value.FitsInstant = true := by
  rw [fromTimestamp, FitsInstant]
  cases value.number? with
  | none => simp
  | some number =>
    cases number with
    | finite seconds =>
      dsimp only
      rw [decide_eq_true_iff]
      split_ifs with fits far
      · simp [fits]
      · simp [fits]
      · simp [fits]
    | infinite negative => simp
    | nan => simp

/-- Comparing a number never fails. -/
theorem between_ok_iff {low high : ℤ} {value : Json} : (∃ inside, value.between low high = .ok inside) ↔ value.isNumber := by
  rw [between, isNumber]
  cases value.number? with
  | none => simp
  | some number => cases number <;> simp

/-- `members.get(key)`. -/
def get (members : List (String × Json)) (key : String) : Json := (members.lookup key).getD .null

theorem get_of_mem {members : List (String × Json)} (distinct : (members.map Prod.fst).Nodup) {key : String}
    {value : Json} (listed : (key, value) ∈ members) : get members key = value := by
  rw [get, (List.lookup_eq_some_iff_mem distinct).mpr listed, Option.getD_some]

theorem mem_of_get {members : List (String × Json)} {key : String} {value : Json} (found : get members key = value)
    (some_ : value ≠ .null) : (key, value) ∈ members := by
  rw [get] at found
  cases looked : members.lookup key with
  | none =>
    rw [looked] at found
    exact absurd found.symm some_
  | some other =>
    rw [looked, Option.getD_some] at found
    obtain ⟨before, after, rfl, _⟩ := List.lookup_eq_some_iff.mp looked
    simp [found]

end Json

end Python
