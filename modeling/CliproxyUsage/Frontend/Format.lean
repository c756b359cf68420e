import CliproxyUsage.JavaScript.Numbers

/-! # Compact numbers

How the dashboard prints counts of requests and tokens: whole numbers below a thousand, and above that two or
one decimals with a unit.
-/

namespace CliproxyUsage.Frontend

open JavaScript

/-- Two decimals below 10, one above; `toFixed` rounding can cross either boundary. -/
def scaled (x : ℚ) : String :=
  let two := toFixed 2 x
  if (numberOf two).any (10 ≤ ·) then toFixed 1 x else two

structure CompactUnit where
  div : ℚ
  suffix : Char
deriving DecidableEq, Repr

def compactUnits : List CompactUnit := [⟨1000, 'K'⟩, ⟨1000000, 'M'⟩, ⟨1000000000, 'B'⟩]

/-- The position of the last item with a property, where there is one. -/
def findLastIndex {α : Type} (p : α → Bool) (items : List α) : Option ℕ :=
  ((List.range items.length).filter fun i => items[i]?.any p).getLast?

/-- The loop over the units from position `i` on; none without a unit there, or when the fuel runs out. -/
def compactFrom (sign : String) (abs_ : ℚ) : ℕ → ℕ → Option String
  | 0, _ => none
  | fuel + 1, i => do
    let unit ← compactUnits[i]?
    let text := scaled (abs_ / unit.div)
    if (numberOf text).any (· < 1000) ∨ i = compactUnits.length - 1 then some (sign ++ text.push unit.suffix)
    else compactFrom sign abs_ fuel (i + 1)

/-- `950` is printed as `950`, `52_310` as `52.3K`, `38_420_000` as `38.4M`. -/
def fmtCompact (v : ℚ) : Option String :=
  if mathRound |v| < 1000 then some (integerText (mathRound v))
  else
    let sign := if v < 0 then "-" else ""
    compactFrom sign |v| compactUnits.length ((findLastIndex (fun u => u.div ≤ |v|) compactUnits).getD 0)

example : fmtCompact 950 = some "950" ∧ fmtCompact 52310 = some "52.3K" ∧ fmtCompact 999950 = some "1.00M" ∧
    fmtCompact (-9996) = some "-10.0K" := by decide +kernel

end CliproxyUsage.Frontend
