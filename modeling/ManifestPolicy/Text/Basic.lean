/-!
# Texts as lists of code points

Manifests, comments, policies and settings are all texts. A text is a list of code
points, and a code point may be a surrogate: a quoted module path can name a lone
surrogate by an escape, and such a path must stay distinct from every other path.

## Main definitions

* `CodePoint`: a number below `0x110000`, ordered by that number.
* `Text`: a list of code points, ordered lexicographically.
* `Text.ofString`: the text of a string literal.
* `Text.dropStart?`: what is left after an initial part.
* `Text.cutAt`: the pieces between the code points of a class.
-/

namespace ManifestPolicy

/-- A Unicode code point. Surrogates are included. -/
structure CodePoint where
  /-- The number of the code point. -/
  val : Nat
  isLt : val < 0x110000
deriving DecidableEq

namespace CodePoint

instance : Inhabited CodePoint := ⟨⟨0, by decide⟩⟩

/-- Code points are ordered by number. -/
instance : LT CodePoint := ⟨fun a b => a.val < b.val⟩

instance (a b : CodePoint) : Decidable (a < b) :=
  inferInstanceAs (Decidable (a.val < b.val))

theorem eq_of_val_eq {a b : CodePoint} (h : a.val = b.val) : a = b := by
  cases a; cases b; cases h; rfl

instance : Trans (fun a b : CodePoint => a < b) (fun a b : CodePoint => a < b)
    (fun a b : CodePoint => a < b) where
  trans h₁ h₂ := Nat.lt_trans h₁ h₂

instance : Std.Irrefl (fun a b : CodePoint => a < b) where
  irrefl c := Nat.lt_irrefl c.val

instance : Std.Asymm (fun a b : CodePoint => a < b) where
  asymm _ _ := Nat.lt_asymm

instance : Std.Trichotomous (fun a b : CodePoint => a < b) where
  trichotomous _ _ h₁ h₂ :=
    eq_of_val_eq (Nat.le_antisymm (Nat.le_of_not_lt h₂) (Nat.le_of_not_lt h₁))

/-- The code point of a character. -/
@[coe] def ofChar (c : Char) : CodePoint where
  val := c.toNat
  isLt := by
    rcases c.valid with h | ⟨_, h⟩
    · exact Nat.lt_trans h (by decide)
    · exact h

instance : Coe Char CodePoint := ⟨ofChar⟩

@[simp] theorem val_ofChar (c : Char) : (ofChar c).val = c.toNat := rfl

theorem ofChar_inj {a b : Char} : ofChar a = ofChar b ↔ a = b := by
  constructor
  · intro h
    exact Char.toNat_inj.1 (congrArg CodePoint.val h)
  · intro h
    rw [h]

/-- The code point with number `n`; the replacement character when there is none. -/
def ofNat (n : Nat) : CodePoint :=
  if h : n < 0x110000 then ⟨n, h⟩ else ⟨0xFFFD, by decide⟩

theorem val_ofNat {n : Nat} (h : n < 0x110000) : (ofNat n).val = n := by
  simp [ofNat, h]

/-- The number lies between two bounds, both included. -/
def between (low high : Nat) (c : CodePoint) : Bool :=
  decide (low ≤ c.val) && decide (c.val ≤ high)

/-- Surrogates have no encoding of their own in UTF-8. -/
def isSurrogate (c : CodePoint) : Bool := c.between 0xD800 0xDFFF

/-- The first half of a surrogate pair. -/
def isHighSurrogate (c : CodePoint) : Bool := c.between 0xD800 0xDBFF

/-- The second half of a surrogate pair. -/
def isLowSurrogate (c : CodePoint) : Bool := c.between 0xDC00 0xDFFF

/-- A decimal digit, in ASCII. -/
def isDigit (c : CodePoint) : Bool := c.between 0x30 0x39

/-- A letter, in ASCII. -/
def isLetter (c : CodePoint) : Bool := c.between 0x41 0x5A || c.between 0x61 0x7A

/-- The value of a hexadecimal digit of either case. -/
def hexValue? (c : CodePoint) : Option Nat :=
  if c.between 0x30 0x39 then some (c.val - 0x30)
  else if c.between 0x41 0x46 then some (c.val - 0x37)
  else if c.between 0x61 0x66 then some (c.val - 0x57)
  else none

/-- The lower-case hexadecimal digit of a number below 16. -/
def hexDigit (n : Nat) : CodePoint :=
  if n < 10 then ofNat (0x30 + n) else ofNat (0x57 + n)

end CodePoint

/-- A text is the list of its code points. -/
abbrev Text := List CodePoint

namespace Text

theorem lt_trans {s t u : Text} (h₁ : s < t) (h₂ : t < u) : s < u := List.lt_trans h₁ h₂

theorem lt_irrefl (t : Text) : ¬ t < t := List.lt_irrefl t

/-- Two texts of which neither precedes the other are equal. -/
theorem eq_of_not_lt {s t : Text} (h₁ : ¬ s < t) (h₂ : ¬ t < s) : s = t :=
  List.le_antisymm (List.not_lt.1 h₂) (List.not_lt.1 h₁)

/-- The text of a string. -/
def ofString (s : String) : Text := s.toList.map CodePoint.ofChar

theorem ofString_inj {s t : String} : ofString s = ofString t ↔ s = t := by
  rw [ofString, ofString, List.map_inj_right fun a b => CodePoint.ofChar_inj.1, String.toList_inj]

instance : Coe String Text := ⟨ofString⟩

/-- What follows the initial part `start` of a text, if the text starts so. -/
def dropStart? : Text → Text → Option Text
  | [], t => some t
  | _ :: _, [] => none
  | s :: start, c :: t => if s = c then dropStart? start t else none

theorem dropStart?_eq_some_iff {start t rest : Text} :
    dropStart? start t = some rest ↔ t = start ++ rest := by
  induction start generalizing t with
  | nil => simp [dropStart?]
  | cons s start ih =>
    cases t with
    | nil => simp [dropStart?]
    | cons c t =>
      by_cases h : s = c
      · simp [dropStart?, h, ih]
      · simp [dropStart?, h, Ne.symm h]

@[simp] theorem dropStart?_append (start rest : Text) :
    dropStart? start (start ++ rest) = some rest :=
  dropStart?_eq_some_iff.2 rfl

/-- Removes the initial part `start` once; a text that starts otherwise is kept. -/
def dropStart (start t : Text) : Text := (dropStart? start t).getD t

/-- Whether a text starts with `start`. -/
def startsWith (start t : Text) : Bool := (dropStart? start t).isSome

/-- Cuts a text at every code point that satisfies `cuts`. Neighbouring ones leave an empty
piece between them. -/
def cutAt (cuts : CodePoint → Bool) : Text → List Text
  | [] => [[]]
  | c :: t =>
    if cuts c then [] :: cutAt cuts t
    else
      match cutAt cuts t with
      | [] => [[c]]
      | p :: ps => (c :: p) :: ps

theorem cutAt_ne_nil (cuts : CodePoint → Bool) (t : Text) : cutAt cuts t ≠ [] := by
  cases t with
  | nil => simp [cutAt]
  | cons c t =>
    simp only [cutAt]
    split
    · simp
    · split <;> simp

/-- A cut ends the pieces before it and starts the pieces after it. -/
theorem cutAt_append_cons {cuts : CodePoint → Bool} (s t : Text) {b : CodePoint}
    (hb : cuts b = true) : cutAt cuts (s ++ b :: t) = cutAt cuts s ++ cutAt cuts t := by
  induction s with
  | nil => simp [cutAt, hb]
  | cons c s ih =>
    simp only [List.cons_append, cutAt, ih]
    split
    · rfl
    · cases h : cutAt cuts s with
      | nil => exact absurd h (cutAt_ne_nil cuts s)
      | cons p ps => rfl

theorem cutAt_of_forall_not {cuts : CodePoint → Bool} {t : Text}
    (h : ∀ c ∈ t, cuts c = false) : cutAt cuts t = [t] := by
  induction t with
  | nil => rfl
  | cons c t ih =>
    have hc : cuts c = false := h c (by simp)
    simp [cutAt, hc, ih fun d hd => h d (by simp [hd])]

/-- A number in a given count of lower-case hexadecimal digits, the last ones of it. -/
def hexDigits : Nat → Nat → Text
  | 0, _ => []
  | width + 1, n => hexDigits width (n / 16) ++ [CodePoint.hexDigit (n % 16)]

theorem length_hexDigits (width n : Nat) : (hexDigits width n).length = width := by
  induction width generalizing n with
  | zero => rfl
  | succ width ih => simp [hexDigits, ih]

/-- Reads hexadecimal digits of either case, most significant first. -/
def hexValue? (t : Text) : Option Nat :=
  t.foldl (fun acc c => do return (← acc) * 16 + (← c.hexValue?)) (some 0)

/-- An integer in decimal. -/
def ofInt (n : Int) : Text := ofString (toString n)

/-- Joins texts with a separator between each two neighbours. -/
def join (separator : Text) : List Text → Text
  | [] => []
  | [t] => t
  | t :: u :: rest => t ++ separator ++ join separator (u :: rest)

end Text

end ManifestPolicy
