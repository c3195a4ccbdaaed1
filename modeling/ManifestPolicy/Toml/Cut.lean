import ManifestPolicy.Text.Display

/-!
# Cutting pieces off a text

Every reader of the settings format takes a piece off the front of a text and leaves a
shorter rest. The proof that the rest is shorter travels with it, so that readers that call
each other can be seen to end.

Readers that skip something optional leave a rest that is not longer.

## Main definitions

* `Cut`: what was read, and the shorter rest.
* `skipBlanks`, `skipComment?`, `skipSpace?`: what may stand between the parts of a document.
-/

namespace ManifestPolicy.Toml

/-- What was read off the front of `s`, and the rest. -/
structure Cut (s : Text) (α : Type) where
  value : α
  rest : Text
  shorter : rest.length < s.length

namespace Cut

variable {s t : Text} {α β : Type}

/-- Changes what was read. -/
def map (f : α → β) (cut : Cut s α) : Cut s β := ⟨f cut.value, cut.rest, cut.shorter⟩

/-- Reads on after a cut. -/
def follow (cut : Cut s α) (next : Cut cut.rest β) : Cut s β :=
  ⟨next.value, next.rest, Nat.lt_trans next.shorter cut.shorter⟩

/-- A cut from a part is a cut from the whole. -/
def widen (h : t.length ≤ s.length) (cut : Cut t α) : Cut s α :=
  ⟨cut.value, cut.rest, Nat.lt_of_lt_of_le cut.shorter h⟩

/-- A cut from what follows a code point. -/
def behind (c : CodePoint) (cut : Cut t α) : Cut (c :: t) α :=
  cut.widen (Nat.le_succ _)

/-- Reads one code point. -/
def head (c : CodePoint) (value : α) : Cut (c :: t) α := ⟨value, t, Nat.lt_succ_self _⟩

/-- Cuts off a piece of the given length, at least one code point. -/
def take (c : CodePoint) (t : Text) (length : Nat) (value : α) : Cut (c :: t) α where
  value := value
  rest := t.drop (length - 1)
  shorter := by
    have := List.length_drop (i := length - 1) (l := t)
    simp only [List.length_cons]
    omega

/-- Reads the one code point `c` after a cut. -/
def expect? (c : CodePoint) (cut : Cut s α) : Option (Cut s α) :=
  match h : cut.rest with
  | [] => none
  | d :: t =>
    if d = c then
      some ⟨cut.value, t, by
        have := cut.shorter
        rw [h, List.length_cons] at this
        omega⟩
    else none

end Cut

/-- The blanks inside a line. -/
def isBlank (c : CodePoint) : Bool := c = ' ' || c = '\t'

/-- The control codes that neither strings nor comments may hold. -/
def isControl (c : CodePoint) : Bool := (c.val < 0x20 && c ≠ '\t') || c.val = 0x7F

/-- Skips blanks. -/
def skipBlanks (s : Text) : Text := s.dropWhile isBlank

/-- Skips a comment if there is one, up to the end of its line. -/
def skipComment? (s : Text) : Option Text :=
  if s.head? = some ('#' : CodePoint) then
    let comment := s.takeWhile fun c : CodePoint => c ≠ '\n'
    if comment.any isControl then none else some (s.drop comment.length)
  else some s

/-- Skips blanks, ends of lines and comments. `inComment` says whether a comment has
begun. -/
def skipSpaceFrom? (inComment : Bool) : Text → Option Text
  | [] => some []
  | c :: t =>
    if c = '\n' then skipSpaceFrom? false t
    else if inComment then if isControl c then none else skipSpaceFrom? true t
    else if isBlank c then skipSpaceFrom? false t
    else if c = '#' then skipSpaceFrom? true t
    else some (c :: t)

/-- Skips what may stand between the items of an array. -/
def skipSpace? (s : Text) : Option Text := skipSpaceFrom? false s

theorem length_skipBlanks (s : Text) : (skipBlanks s).length ≤ s.length :=
  (List.dropWhile_sublist isBlank).length_le

theorem length_skipComment? {s rest : Text} (h : skipComment? s = some rest) :
    rest.length ≤ s.length := by
  simp only [skipComment?] at h
  split at h
  · split at h
    · simp at h
    · cases h
      rw [List.length_drop]
      exact Nat.sub_le _ _
  · cases h
    exact Nat.le_refl _

theorem length_skipSpaceFrom? {inComment : Bool} {s rest : Text}
    (h : skipSpaceFrom? inComment s = some rest) : rest.length ≤ s.length := by
  induction s generalizing inComment with
  | nil => cases h; exact Nat.le_refl _
  | cons c t ih =>
    have skip {b : Bool} (h : skipSpaceFrom? b t = some rest) :
        rest.length ≤ (c :: t).length :=
      Nat.le_succ_of_le (ih h)
    simp only [skipSpaceFrom?] at h
    split at h
    · exact skip h
    · split at h
      · split at h
        · simp at h
        · exact skip h
      · split at h
        · exact skip h
        · split at h
          · exact skip h
          · cases h
            exact Nat.le_refl _

theorem length_skipSpace? {s rest : Text} (h : skipSpace? s = some rest) :
    rest.length ≤ s.length :=
  length_skipSpaceFrom? h

/-- Skips blanks after a cut. -/
def Cut.skipBlanks {s : Text} {α : Type} (cut : Cut s α) : Cut s α :=
  ⟨cut.value, Toml.skipBlanks cut.rest,
    Nat.lt_of_le_of_lt (length_skipBlanks cut.rest) cut.shorter⟩

/-- Skips blanks, ends of lines and comments after a cut. -/
def Cut.skipSpace? {s : Text} {α : Type} (cut : Cut s α) : Option (Cut s α) :=
  match h : Toml.skipSpace? cut.rest with
  | none => none
  | some rest => some ⟨cut.value, rest, Nat.lt_of_le_of_lt (length_skipSpace? h) cut.shorter⟩

end ManifestPolicy.Toml
