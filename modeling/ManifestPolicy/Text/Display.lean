import ManifestPolicy.Text.Printable

/-!
# Texts shown in messages

A message shows a text between two equal quotes, so that its ends can be seen, and with
escapes for whatever a terminal would not show.

## Main definitions

* `Text.quoteMark`: the quote chosen for a text.
* `CodePoint.escapeIn`: how one code point is shown between given quotes.
* `Text.display`: the text between its quotes.
* `Text.showSurrogates`: only the surrogates escaped.
-/

namespace ManifestPolicy

/-- The single quote. -/
def apostrophe : CodePoint := ⟨0x27, by decide⟩

/-- The double quote. -/
def quotation : CodePoint := ⟨0x22, by decide⟩

/-- The escape mark. -/
def backslash : CodePoint := ⟨0x5C, by decide⟩

/-- The quote between which a text is shown: the single one, unless the text holds a
single quote and no double quote. -/
def Text.quoteMark (t : Text) : CodePoint :=
  if apostrophe ∈ t ∧ quotation ∉ t then quotation else apostrophe

/-- A code point as shown between two quotes `mark`. The quote and the escape mark take
an escape mark; a code point that is not printable is written as its number, in the
shortest of the three widths that holds it. -/
def CodePoint.escapeIn (c mark : CodePoint) : Text :=
  if c = mark ∨ c = backslash then [backslash, c]
  else if c = '\t' then [backslash, 't']
  else if c = '\n' then [backslash, 'n']
  else if c = '\r' then [backslash, 'r']
  else if c.isPrintable then [c]
  else if c.val < 0x100 then backslash :: ('x' : CodePoint) :: Text.hexDigits 2 c.val
  else if c.val < 0x10000 then backslash :: ('u' : CodePoint) :: Text.hexDigits 4 c.val
  else backslash :: ('U' : CodePoint) :: Text.hexDigits 8 c.val

/-- A text as a message shows it. -/
def Text.display (t : Text) : Text :=
  t.quoteMark :: (t.flatMap fun c => c.escapeIn t.quoteMark) ++ [t.quoteMark]

/-- A text with each surrogate written as an escape, for places that hold encoded text. -/
def Text.showSurrogates (t : Text) : Text :=
  t.flatMap fun c =>
    if c.isSurrogate then backslash :: ('u' : CodePoint) :: Text.hexDigits 4 c.val else [c]

end ManifestPolicy
