import ManifestPolicy.Text.Display

/-!
# The limits of the reader

Not every document can be read. A whole number of too many decimal digits is refused, and
so are values that are nested too deeply. Neither is a fault of the document, and whoever
reads documents has to tell the two apart.

How deep values may nest depends on what the reader has been called from and on the kinds of
brackets, so it is left open here.

## Main definitions

* `Limits`: what the reader takes on.
* `Fault`: why nothing is read from a text.
-/

namespace ManifestPolicy.Toml

/-- What the reader does not take on, though it may well stand in a document. -/
inductive Excess
  /-- A whole number with `count` decimal digits, where only `most` are converted. -/
  | digits (count most : Nat)
  /-- A value inside too many others. -/
  | nesting
deriving DecidableEq

/-- Why nothing is read from a text. -/
inductive Fault
  /-- The text is no document. -/
  | invalid
  /-- The reader gave up before it knew. -/
  | excess (excess : Excess)
deriving DecidableEq

/-- What the reader takes on. -/
structure Limits where
  /-- How many decimal digits of a whole number are converted. -/
  digits : Nat
  /-- Whether the value that a text starts with can be read inside some brackets that are
  still open, the last one first. -/
  room : List CodePoint → Text → Bool

/-- The usual limits. There is room for any value. -/
def Limits.usual : Limits := ⟨4300, fun _ _ => true⟩

/-- What a part of the reader without limits reads. -/
def orInvalid {α : Type} (read : Option α) : Except Fault α :=
  match read with
  | none => .error .invalid
  | some value => .ok value

end ManifestPolicy.Toml
