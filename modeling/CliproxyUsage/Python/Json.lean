import Mathlib.Data.Rat.Defs

/-! # JSON values in Python

The values that `json.loads` builds. Integers are unbounded; a float is a finite value or one of the
three others that the parser accepts. A dict lists its members under distinct names.
-/

namespace Python

inductive FloatValue where
  | finite (value : ℚ)
  | infinite (negative : Bool)
  | nan
deriving DecidableEq, Repr

inductive Json where
  | null
  | bool (value : Bool)
  | int (value : ℤ)
  | float (value : FloatValue)
  | str (value : String)
  | list (items : List Json)
  | dict (members : List (String × Json))

namespace Json

/-- `type(value).__name__`. -/
def typeName : Json → String
  | .null => "NoneType"
  | .bool _ => "bool"
  | .int _ => "int"
  | .float _ => "float"
  | .str _ => "str"
  | .list _ => "list"
  | .dict _ => "dict"

/-- `isinstance(value, dict)`, with the members. -/
def dict? : Json → Option (List (String × Json))
  | .dict members => some members
  | _ => none

/-- A dict has one value under each name. -/
def DistinctNames : Json → Prop
  | .dict members => (members.map Prod.fst).Nodup
  | _ => True

end Json

end Python
