import ManifestPolicy.Text.Basic

/-!
# Quoted strings

The strings of JSON, as the manifest format uses them for paths and the report uses them
for paths and policies. A string stands between double quotes. Writing uses ASCII only;
reading takes any code point from the space on, except the quote and the escape mark,
which need an escape.

An escape names one 16-bit unit, and a high surrogate with a low surrogate directly after
it stands for one code point when both were written as escapes. Other surrogates stand
for themselves.

## Main definitions

* `Quoted.encode`: writes a text as a string.
* `Quoted.decode?`: reads a string, quotes included.
-/

namespace ManifestPolicy.Quoted

/-- The escape of one 16-bit unit. -/
def unitEscape (n : Nat) : Text :=
  ('\\' : CodePoint) :: ('u' : CodePoint) :: Text.hexDigits 4 n

/-- One code point inside a string: a short escape where there is one, itself where it is
visible ASCII or a space, and its units otherwise. -/
def encodePoint (c : CodePoint) : Text :=
  if c = '"' then ['\\', '"']
  else if c = '\\' then ['\\', '\\']
  else if c = '\n' then ['\\', 'n']
  else if c = '\r' then ['\\', 'r']
  else if c = '\t' then ['\\', 't']
  else if c.val = 0x08 then ['\\', 'b']
  else if c.val = 0x0C then ['\\', 'f']
  else if c.between 0x20 0x7E then [c]
  else if c.val < 0x10000 then unitEscape c.val
  else
    unitEscape (0xD800 + (c.val - 0x10000) / 0x400) ++
      unitEscape (0xDC00 + (c.val - 0x10000) % 0x400)

/-- The string that stands for a text. -/
def encode (t : Text) : Text :=
  ('"' : CodePoint) :: t.flatMap encodePoint ++ [('"' : CodePoint)]

/-- One item of a string: a code point that stands for itself, or an escape. -/
inductive Item
  | plain (c : CodePoint)
  | escape (c : CodePoint)
deriving DecidableEq

/-- The code point an item names, seen alone. -/
def Item.point : Item → CodePoint
  | .plain c => c
  | .escape c => c

/-- The code point a one-letter escape names. -/
def shortEscape? (c : CodePoint) : Option CodePoint :=
  if c = '"' then some '"'
  else if c = '\\' then some '\\'
  else if c = '/' then some '/'
  else if c = 'b' then some (CodePoint.ofNat 0x08)
  else if c = 'f' then some (CodePoint.ofNat 0x0C)
  else if c = 'n' then some '\n'
  else if c = 'r' then some '\r'
  else if c = 't' then some '\t'
  else none

/-- Cuts the first item off the inside of a string. There is none at a quote, at a code
point below the space, or at an escape that is not well formed. -/
def cutItem? : Text → Option (Item × Text)
  | [] => none
  | c :: t =>
    if c = '\\' then
      match t with
      | [] => none
      | e :: t =>
        if e = 'u' then
          match t with
          | d₁ :: d₂ :: d₃ :: d₄ :: t =>
            (Text.hexValue? [d₁, d₂, d₃, d₄]).map fun n => (.escape (CodePoint.ofNat n), t)
          | _ => none
        else (shortEscape? e).map fun point => (.plain point, t)
    else if c = '"' || c.val < 0x20 then none
    else some (.plain c, t)

theorem length_lt_of_cutItem? {t rest : Text} {item : Item}
    (h : cutItem? t = some (item, rest)) : rest.length < t.length := by
  cases t with
  | nil => simp [cutItem?] at h
  | cons c t =>
    simp only [cutItem?] at h
    split at h
    · split at h
      · simp at h
      · split at h
        · split at h
          · obtain ⟨n, -, hn⟩ := Option.map_eq_some_iff.1 h
            cases hn
            simp only [List.length_cons]
            omega
          · simp at h
        · obtain ⟨point, -, hp⟩ := Option.map_eq_some_iff.1 h
          cases hp
          simp only [List.length_cons]
          omega
    · split at h
      · simp at h
      · cases h
        simp

/-- The items up to the closing quote, which must end the text. -/
def items? (t : Text) : Option (List Item) :=
  if t = [('"' : CodePoint)] then some []
  else
    match _h : cutItem? t with
    | none => none
    | some (item, rest) => (items? rest).map (item :: ·)
termination_by t.length
decreasing_by exact length_lt_of_cutItem? _h

/-- The code point of a surrogate pair. -/
def pairPoint (high low : CodePoint) : CodePoint :=
  CodePoint.ofNat (0x10000 + (high.val - 0xD800) * 0x400 + (low.val - 0xDC00))

/-- The text of a list of items. Two escapes that name a surrogate pair become one code
point. -/
def joinItems : List Item → Text
  | .escape high :: .escape low :: rest =>
    if high.isHighSurrogate && low.isLowSurrogate then
      pairPoint high low :: joinItems rest
    else high :: joinItems (.escape low :: rest)
  | item :: rest => item.point :: joinItems rest
  | [] => []

/-- Reads a string from its opening quote to its closing one; `none` if the text is not
exactly one well-formed string. -/
def decode? : Text → Option Text
  | [] => none
  | c :: t => if c = '"' then (items? t).map joinItems else none

end ManifestPolicy.Quoted
