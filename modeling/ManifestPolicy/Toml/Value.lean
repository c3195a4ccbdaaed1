import ManifestPolicy.Dictionary

/-!
# TOML values

The values of a settings file. Numbers, dates and times are recognised and kept as
written: a setting is a text, so no other value is ever computed with.

## Main definitions

* `Toml.Value`: a value.
* `Toml.Kind`, `Value.kind`: the kind of a value.
-/

namespace ManifestPolicy.Toml

/-- A value. The entries of a table are in the order of their keys. -/
inductive Value
  | string (text : Text)
  | integer (literal : Text)
  | float (literal : Text)
  | boolean (value : Bool)
  | date (literal : Text)
  | time (literal : Text)
  | dateTime (literal : Text)
  | array (items : List Value)
  | table (entries : List (Text × Value))

/-- The kinds of value. -/
inductive Kind
  | string
  | integer
  | float
  | boolean
  | date
  | time
  | dateTime
  | array
  | table
deriving DecidableEq

/-- The kind of a value. -/
def Value.kind : Value → Kind
  | .string _ => .string
  | .integer _ => .integer
  | .float _ => .float
  | .boolean _ => .boolean
  | .date _ => .date
  | .time _ => .time
  | .dateTime _ => .dateTime
  | .array _ => .array
  | .table _ => .table

/-- The text of a string. -/
def Value.text? : Value → Option Text
  | .string text => some text
  | _ => none

/-- The entries of a table. -/
def Value.entries? : Value → Option (List (Text × Value))
  | .table entries => some entries
  | _ => none

end ManifestPolicy.Toml
