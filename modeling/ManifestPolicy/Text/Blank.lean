import ManifestPolicy.Text.Basic

/-!
# Blanks and fields

Blanks separate the words of a manifest line and the fields of a comment. The class is
the white space of Unicode together with the four information separators.

## Main definitions

* `CodePoint.isBlank`: membership in the class.
* `Text.fields`: the maximal blank-free parts, in order.
* `Text.trim`, `Text.trimEnd`: blanks removed at both ends, or at the end.

## Main statements

* `Text.fields_append_blank`: a blank cuts a text into two parts whose fields follow each
  other, so fields can be studied one at a time.
-/

namespace ManifestPolicy

/-- The ranges of the blank class, both ends included. -/
def blankRanges : List (Nat × Nat) :=
  [(0x09, 0x0D), (0x1C, 0x20), (0x85, 0x85), (0xA0, 0xA0), (0x1680, 0x1680),
   (0x2000, 0x200A), (0x2028, 0x2029), (0x202F, 0x202F), (0x205F, 0x205F), (0x3000, 0x3000)]

/-- Whether a code point is a blank. -/
def CodePoint.isBlank (c : CodePoint) : Bool :=
  blankRanges.any fun r => c.between r.1 r.2

namespace Text

/-- The maximal blank-free parts of a text, in order. -/
def fields (t : Text) : List Text := (cutAt CodePoint.isBlank t).filter fun p => !p.isEmpty

@[simp] theorem fields_nil : fields [] = [] := rfl

/-- A blank separates: no field reaches over it. -/
theorem fields_append_blank (s t : Text) {b : CodePoint} (hb : b.isBlank = true) :
    fields (s ++ b :: t) = fields s ++ fields t := by
  simp [fields, cutAt_append_cons s t hb]

theorem fields_blank_cons (t : Text) {b : CodePoint} (hb : b.isBlank = true) :
    fields (b :: t) = fields t := by
  simpa using fields_append_blank [] t hb

/-- A text without blanks is its own only field. -/
theorem fields_of_noBlank {t : Text} (h : ∀ c ∈ t, c.isBlank = false) (ht : t ≠ []) :
    fields t = [t] := by
  simp [fields, cutAt_of_forall_not h, ht]

/-- Removes the blanks at the end. -/
def trimEnd (t : Text) : Text := (t.reverse.dropWhile CodePoint.isBlank).reverse

/-- Removes the blanks at both ends. -/
def trim (t : Text) : Text := trimEnd (t.dropWhile CodePoint.isBlank)

end Text

end ManifestPolicy
