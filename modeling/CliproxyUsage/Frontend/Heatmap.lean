import CliproxyUsage.ToMathlib.ListAccumulate
import Mathlib.Algebra.BigOperators.Group.List.Basic
import Mathlib.Data.List.Sort
import Mathlib.Algebra.Order.Ring.Rat

/-! # Heatmap layout

The top columns of a table of cells, grouped by family, with the others folded into one column. A `Map` is
a list of entries in the order of their first use.
-/

namespace CliproxyUsage.Frontend

structure HeatCellInput where
  row : String
  col : String
  value : ℚ
deriving DecidableEq, Repr

inductive HeatColumn where
  | entity (key : String) (total : ℚ)
  | more (keys : List String) (total : ℚ)
deriving DecidableEq, Repr

structure HeatGroup where
  name : String
  span : ℕ
deriving DecidableEq, Repr

structure HeatmapLayout where
  rows : List (String × ℚ)
  columns : List HeatColumn
  groups : List HeatGroup
  values : List (List ℚ)
  grand : ℚ
  max : ℚ
deriving DecidableEq, Repr

structure HeatmapOptions where
  maxColumns : ℕ := 9
  family : String → String := fun _ => ""

def sumBy (cells : List HeatCellInput) (pick : HeatCellInput → String) : List (String × ℚ) :=
  cells.accumulate pick 0 fun total c => total + c.value

/-- The positive totals, the largest first; equal ones keep their order. -/
def rankedPositive (totals : List (String × ℚ)) : List (String × ℚ) :=
  (totals.filter fun entry => 0 < entry.2).insertionSort fun a b => b.2 ≤ a.2

def HeatColumn.keys : HeatColumn → List String
  | .entity key _ => [key]
  | .more keys _ => keys

def HeatColumn.total : HeatColumn → ℚ
  | .entity _ total => total
  | .more _ total => total

/-- The kept columns of one family. -/
def familyMembers (family : String → String) (kept : List (String × ℚ)) (f : String) : List (String × ℚ) :=
  kept.filter fun entry => family entry.1 = f

/-- The families of the kept columns, in the order of their first columns. -/
def familiesOf (family : String → String) (kept : List (String × ℚ)) : List String :=
  (kept.map fun entry => family entry.1).eraseDups

/-- The column of the rest, if any. -/
def moreColumn (rest : List (String × ℚ)) : List HeatColumn :=
  if 0 < rest.length then [.more (rest.map Prod.fst) (rest.map Prod.snd).sum] else []

/-- `new Map(rows.map((r, i) => [r.key, i]))`. -/
def rowIndex (rows : List (String × ℚ)) : List (String × ℕ) :=
  (rows.zipIdx.map fun entry => (entry.1.1, entry.2)).accumulate Prod.fst 0 fun _ entry => entry.2

/-- The position of every key of every column. -/
def colIndex (columns : List HeatColumn) : List (String × ℕ) :=
  (columns.zipIdx.flatMap fun entry => entry.1.keys.map fun key => (key, entry.2)).accumulate Prod.fst 0
    fun _ entry => entry.2

/-- Add a cell where its row and its column are known. -/
def addCell (rows columns : List (String × ℕ)) (values : List (List ℚ)) (c : HeatCellInput) : List (List ℚ) :=
  match rows.lookup c.row, columns.lookup c.col with
  | some r, some k => values.modify r fun line => line.modify k (· + c.value)
  | _, _ => values

/-- Families are ordered by their largest kept column; columns within a family by total. -/
def buildHeatmap (cells : List HeatCellInput) (opts : HeatmapOptions) : HeatmapLayout :=
  let positive := cells.filter fun c => 0 < c.value
  let rows := rankedPositive (sumBy positive HeatCellInput.row)
  let ranked := rankedPositive (sumBy positive HeatCellInput.col)
  let kept := ranked.take opts.maxColumns
  let rest := ranked.drop opts.maxColumns
  let families := familiesOf opts.family kept
  let more := moreColumn rest
  let columns := (families.flatMap fun f => (familyMembers opts.family kept f).map fun entry =>
    HeatColumn.entity entry.1 entry.2) ++ more
  let groups := (families.map fun f => HeatGroup.mk f (familyMembers opts.family kept f).length) ++
    more.map fun _ => HeatGroup.mk "" 1
  let values := positive.foldl (addCell (rowIndex rows) (colIndex columns))
    (List.replicate rows.length (List.replicate columns.length 0))
  { rows, columns, groups, values
    grand := (rows.map Prod.snd).sum
    max := values.flatten.foldl max 0 }

end CliproxyUsage.Frontend
