import ManifestPolicy.Text.Basic

/-!
# Lines of a text

A line ends at a line feed, a carriage return, a carriage return with a line feed after
it, or one of eight other separators. The end of the text ends a line too, but a
separator at the very end starts no further line.

## Main definitions

* `Text.unifyNewlines`: writes every carriage return, with its line feed if there is one,
  as one line feed.
* `Text.lines`: the lines of a text without their ends.

## Main statements

* `Text.lines_unifyNewlines`: reading a text through `unifyNewlines` keeps its lines.
-/

namespace ManifestPolicy

/-- The code points that end a line by themselves. -/
def lineEnds : List Nat :=
  [0x0A, 0x0B, 0x0C, 0x0D, 0x1C, 0x1D, 0x1E, 0x85, 0x2028, 0x2029]

/-- Whether a code point ends a line. -/
def CodePoint.endsLine (c : CodePoint) : Bool := lineEnds.contains c.val

namespace Text

/-- Writes a carriage return as a line feed, unless a line feed follows and stands for
both. -/
def unifyNewlines : Text → Text
  | [] => []
  | c :: t =>
    if c = '\r' then
      if t.head? = some ('\n' : CodePoint) then unifyNewlines t
      else ('\n' : CodePoint) :: unifyNewlines t
    else c :: unifyNewlines t

/-- Cuts a text after every code point that ends a line. -/
def cutLines : Text → List Text
  | [] => []
  | c :: t =>
    if c.endsLine then [] :: cutLines t
    else
      match cutLines t with
      | [] => [[c]]
      | l :: ls => (c :: l) :: ls

/-- The lines of a text, without the code points that end them. -/
def lines (t : Text) : List Text := cutLines (unifyNewlines t)

theorem carriageReturn_not_mem_unifyNewlines (t : Text) :
    ('\r' : CodePoint) ∉ unifyNewlines t := by
  induction t with
  | nil => simp [unifyNewlines]
  | cons c t ih =>
    have hne : ('\r' : CodePoint) ≠ '\n' := by decide
    simp only [unifyNewlines]
    split
    · split
      · exact ih
      · simp [hne, ih]
    · next h => simp [Ne.symm h, ih]

theorem unifyNewlines_of_not_mem {t : Text} (h : ('\r' : CodePoint) ∉ t) :
    unifyNewlines t = t := by
  induction t with
  | nil => rfl
  | cons c t ih =>
    rw [List.mem_cons, not_or] at h
    simp [unifyNewlines, Ne.symm h.1, ih h.2]

/-- A text that was unified once has no carriage return left to unify. -/
@[simp] theorem unifyNewlines_unifyNewlines (t : Text) :
    unifyNewlines (unifyNewlines t) = unifyNewlines t :=
  unifyNewlines_of_not_mem (carriageReturn_not_mem_unifyNewlines t)

/-- Unifying the newlines of a text keeps its lines. -/
@[simp] theorem lines_unifyNewlines (t : Text) : lines (unifyNewlines t) = lines t := by
  simp [lines]

end Text

end ManifestPolicy
