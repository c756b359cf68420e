import CliproxyUsage.Model.Usage

/-! # Entities of the dashboard

Labels and color slots by dimension, from the options endpoint, with the palette that the slots pick from
and the short names of models. `\d` of a regular expression is an ASCII digit.
-/

namespace CliproxyUsage.Frontend

inductive Theme where
  | light
  | dark
deriving DecidableEq, Repr

def seriesColors : Theme → List String
  | .light => ["#2a78d6", "#eb6834", "#1baf7a", "#eda100", "#e87ba4", "#008300", "#6250d6"]
  | .dark => ["#3987e5", "#d95926", "#199e70", "#c98500", "#d55181", "#008300", "#9085e9"]

def otherColor : Theme → String
  | .light => "#b5b4ad"
  | .dark => "#5f5e59"

/-- Slot color, or the Other gray for a missing or out-of-range slot. -/
def slotColor (slot : Option ℕ) (theme : Theme) : String :=
  (slot.bind fun i => (seriesColors theme)[i]?).getD (otherColor theme)

/-- Drop a leading `claude-`. -/
def dropVendor (chars : List Char) : List Char :=
  if "claude-".toList <+: chars then chars.drop "claude-".length else chars

/-- Drop a trailing hyphen with eight digits. -/
def dropDate (chars : List Char) : List Char :=
  match chars.drop (chars.length - 9) with
  | '-' :: digits =>
    if digits.length = 8 ∧ digits.all Char.isDigit then chars.take (chars.length - 9) else chars
  | _ => chars

/-- Whether the digits before a position can start a match, or already ended one. -/
inductive DigitRun where
  | none
  | fresh
  | used
deriving DecidableEq, Repr

/-- Replace every `(\d+)-(\d+)` by `$1.$2`. -/
def dotted : DigitRun → List Char → List Char
  | _, [] => []
  | run, c :: rest =>
    if c.isDigit then c :: dotted (if run = .used then .used else .fresh) rest
    else if c = '-' ∧ run = .fresh ∧ (rest.head?.any Char.isDigit) then '.' :: dotted .used rest
    else c :: dotted .none rest

/-- Drops the `claude-` head and a trailing date; `4-6` becomes `4.6`. -/
def shortModel (model : String) : String := String.ofList (dotted .none (dropDate (dropVendor model.toList)))

example : shortModel "claude-sonnet-4-5-20250929" = "sonnet-4.5" ∧ shortModel "o1-2-3" = "o1.2-3" := by decide

/-- Models read as short names; people and credentials use their label as it is. -/
def displayName (dim : Dimension) (label : String) : String := if dim = .model then shortModel label else label

/-- The entities of each dimension by key, where a later entry replaces an earlier one of its key. -/
abbrev EntityIndex := Dimension → List (String × Entity)

def indexOptions (options : Option OptionsResponse) : EntityIndex :=
  let index := fun list : List Entity =>
    (list.map fun e => (e.key, e)).accumulate Prod.fst ⟨"", "", none⟩ fun _ entry => entry.2
  fun dim =>
    match dim, options with
    | _, none => []
    | .person, some options => index options.people
    | .model, some options => index options.models
    | .credential, some options => index options.credentials

/-- Unknown keys fall back to the key with no slot. -/
def entityOf (index : EntityIndex) (dim : Dimension) (key : String) : Entity :=
  ((index dim).lookup key).getD { key, label := key, slot := none }

/-- The lookup that the dashboard components share, as far as the charts use it. -/
structure EntityLookup where
  entity : Dimension → String → Entity
  slotColor : Option ℕ → String

def createLookup (options : Option OptionsResponse) (theme : Theme) : EntityLookup where
  entity := entityOf (indexOptions options)
  slotColor slot := slotColor slot theme

end CliproxyUsage.Frontend
