import ManifestPolicy.Proofs.Nesting
import ManifestPolicy.Proofs.Relocation

/-!
# Other line numbers

Texts are put together from the lines of other texts. A line that moves keeps its tokens,
its columns and its comments, and only its number changes. So everything that is read from
some lines is read from them again at another place, with other line numbers.

Reading never compares line numbers. What it makes of some lines is the same for any
numbers on them, and this holds of every derivation.

Other line numbers are other places, so what is said of those is used for them.

## Main definitions

* `Position.renumber`: a place on another line.
* `Statement.renumber`: a statement with other line numbers, and its parts likewise.

## Main statements

* `scanLines_renumber`: lines are read with any numbers in a row.
* `Layout.renumber`: a derivation does not depend on the line numbers.
-/

namespace ManifestPolicy

section

variable (f : Int → Int)

def Position.renumber (p : Position) : Position := ⟨f p.line, p.column⟩

abbrev Comment.renumber : Comment → Comment := relocate (Position.renumber f)

abbrev Line.renumber : Line → Line := relocate (Position.renumber f)

abbrev Block.renumber : Block → Block := relocate (Position.renumber f)

/-- A statement with other line numbers. -/
abbrev Statement.renumber : Statement → Statement := relocate (Position.renumber f)

abbrev ModuleEntry.renumber : ModuleEntry → ModuleEntry := relocate (Position.renumber f)

abbrev GoEntry.renumber : GoEntry → GoEntry := relocate (Position.renumber f)

abbrev Requirement.renumber : Requirement → Requirement := relocate (Position.renumber f)

namespace Manifest

/-- Declarations on other lines. -/
abbrev Declarations.renumber : Declarations → Declarations := relocate (Position.renumber f)

abbrev Token.renumber : Token → Token := relocate (Position.renumber f)

abbrev TokenLine.renumber : TokenLine → TokenLine := relocate (Position.renumber f)

/-- A line that was read with another number. -/
def ScannedLine.renumber : ScannedLine → ScannedLine
  | .blank => .blank
  | .comment c => .comment (c.renumber f)
  | .tokens l => .tokens (l.renumber f)

end Manifest

/-- Directives are found in the texts of comments alone. -/
theorem Directive.policies_map_text (ns : Text) (comments : List Comment) :
    policies ns comments = (comments.map Comment.text).filterMap (policy? ns) := by
  rw [policies, List.filterMap_map]
  rfl

namespace Manifest

theorem tokensAt_renumber (number column : Int) (ps : List Piece) :
    tokensAt (f number) column ps = (tokensAt number column ps).map (Token.renumber f) := by
  induction ps generalizing column with
  | nil => rfl
  | cons p ps ih =>
    rw [tokensAt, ih]
    rfl

theorem remarkAt_renumber (number column : Int) (remark : Text) :
    remarkAt (f number) column remark =
      (remarkAt number column remark).map (Comment.renumber f) := by
  cases remark with
  | nil => rfl
  | cons c t => rfl

/-- A line is read in the same way with any number. -/
theorem ofText_renumber {number : Int} {t : Text} {line : ScannedLine}
    (h : ScannedLine.ofText number t = .ok line) :
    ScannedLine.ofText (f number) t = .ok (line.renumber f) := by
  obtain ⟨tokens, comment, hscan, rfl⟩ := ofText_eq_ok_iff.1 h
  obtain ⟨ps, gap, remark, rfl, hspelled, hgap, hremark, rfl, rfl⟩ :=
    exists_spell_of_scanFrom hscan
  refine ofText_eq_ok_iff.2 ⟨_, _, scanFrom_spell_remark hspelled hgap hremark _ _, ?_⟩
  rw [tokensAt_renumber, remarkAt_renumber]
  cases tokensAt number 1 ps with
  | cons first rest => rfl
  | nil => cases remarkAt number (1 + width ps + gap.length) remark <;> rfl

end Manifest

end

namespace Manifest

theorem scanLines_append_eq_ok_iff {number : Int} {t₁ t₂ : List Text}
    {lines : List ScannedLine} :
    scanLines number (t₁ ++ t₂) = .ok lines ↔
      ∃ l₁ l₂, scanLines number t₁ = .ok l₁ ∧ scanLines (number + t₁.length) t₂ = .ok l₂ ∧
        lines = l₁ ++ l₂ := by
  induction t₁ generalizing number lines with
  | nil => simp [scanLines]
  | cons t t₁ ih =>
    rw [List.cons_append, scanLines_cons_eq_ok_iff, add_length_cons]
    simp only [ih, scanLines_cons_eq_ok_iff]
    constructor
    · rintro ⟨line, _, hline, ⟨l₁, l₂, h₁, h₂, rfl⟩, rfl⟩
      exact ⟨line :: l₁, l₂, ⟨line, l₁, hline, h₁, rfl⟩, h₂, rfl⟩
    · rintro ⟨_, l₂, ⟨line, l₁, hline, h₁, rfl⟩, h₂, rfl⟩
      exact ⟨line, l₁ ++ l₂, hline, ⟨l₁, l₂, h₁, h₂, rfl⟩, rfl⟩

theorem length_of_scanLines {number : Int} {texts : List Text} {lines : List ScannedLine}
    (h : scanLines number texts = .ok lines) : lines.length = texts.length := by
  induction texts generalizing number lines with
  | nil =>
    rw [scanLines, Except.ok.injEq] at h
    rw [← h]
    rfl
  | cons t texts ih =>
    obtain ⟨line, more, -, hmore, rfl⟩ := scanLines_cons_eq_ok_iff.1 h
    rw [List.length_cons, List.length_cons, ih hmore]

theorem exists_append_of_scanLines {number : Int} {texts : List Text} {l₁ l₂ : List ScannedLine}
    (h : scanLines number texts = .ok (l₁ ++ l₂)) :
    ∃ t₁ t₂, texts = t₁ ++ t₂ ∧ scanLines number t₁ = .ok l₁ ∧
      scanLines (number + t₁.length) t₂ = .ok l₂ := by
  have hlen := length_of_scanLines h
  rw [← List.take_append_drop l₁.length texts, scanLines_append_eq_ok_iff] at h
  obtain ⟨m₁, m₂, h₁, h₂, hsplit⟩ := h
  have hm₁ : l₁.length = m₁.length := by
    rw [length_of_scanLines h₁, List.length_take, ← hlen, List.length_append]
    omega
  obtain ⟨rfl, rfl⟩ := List.append_inj hsplit hm₁
  exact ⟨_, _, (List.take_append_drop l₁.length texts).symm, h₁, h₂⟩

/-- Lines are read in the same way with any numbers in a row. -/
theorem scanLines_renumber (f : Int → Int) {number number' : Int} {texts : List Text}
    {lines : List ScannedLine} (h : scanLines number texts = .ok lines)
    (hnumber : ∀ k : Nat, k < texts.length → f (number + k) = number' + k) :
    scanLines number' texts = .ok (lines.map (ScannedLine.renumber f)) := by
  induction texts generalizing number number' lines with
  | nil =>
    rw [scanLines, Except.ok.injEq] at h
    rw [← h]
    rfl
  | cons t texts ih =>
    obtain ⟨line, more, hline, hmore, rfl⟩ := scanLines_cons_eq_ok_iff.1 h
    have hfirst := hnumber 0 (by simp)
    rw [Int.natCast_zero, Int.add_zero, Int.add_zero] at hfirst
    refine scanLines_cons_eq_ok_iff.2 ⟨_, _, hfirst ▸ ofText_renumber f hline, ih hmore ?_, rfl⟩
    intro k hk
    have hnext := hnumber (k + 1) (by simpa using hk)
    rw [Int.natCast_succ] at hnext
    rw [Int.add_right_comm, Int.add_assoc, hnext]
    omega

theorem scanLines_add {number : Int} {texts : List Text} {lines : List ScannedLine}
    (h : scanLines number texts = .ok lines) (d : Int) :
    scanLines (number + d) texts = .ok (lines.map (ScannedLine.renumber (· + d))) :=
  scanLines_renumber _ h fun _ _ => Int.add_right_comm _ _ _

theorem scanLines_at {number : Int} {texts : List Text} {lines : List ScannedLine}
    (h : scanLines number texts = .ok lines) (n : Int) :
    scanLines n texts = .ok (lines.map (ScannedLine.renumber (· + (n - number)))) := by
  have hmoved := scanLines_add h (n - number)
  have hnumber : number + (n - number) = n := by omega
  rw [hnumber] at hmoved
  exact hmoved

section

variable (f : Int → Int)

theorem TokenLine.Plain.renumber {l : TokenLine} (h : l.Plain) : (l.renumber f).Plain := by
  intro t ht
  rw [TokenLine.tokens_relocate, List.mem_map] at ht
  obtain ⟨u, hu, rfl⟩ := ht
  exact h u hu

theorem TokenLine.Opens.renumber {l : TokenLine} {paren : Token} (h : l.Opens paren) :
    (l.renumber f).Opens (paren.renumber f) :=
  ⟨congrArg (List.map (Token.renumber f)) h.rest, h.verb, h.paren⟩

theorem TokenLine.OpensAndCloses.renumber {l : TokenLine} {paren closing : Token}
    (h : l.OpensAndCloses paren closing) :
    (l.renumber f).OpensAndCloses (paren.renumber f) (closing.renumber f) :=
  ⟨congrArg (List.map (Token.renumber f)) h.rest, h.verb, h.paren, h.closing⟩

theorem TokenLine.Closes.renumber {l : TokenLine} (h : l.Closes) : (l.renumber f).Closes :=
  ⟨h.first, congrArg (List.map (Token.renumber f)) h.rest⟩

theorem standalone_renumber (waiting : List Comment) :
    standalone (waiting.map (Comment.renumber f)) =
      (standalone waiting).map (Statement.renumber f) := by
  cases waiting with
  | nil => rfl
  | cons first rest =>
    have hlast : (rest.map (Comment.renumber f)).getLastD (first.renumber f) =
        (rest.getLastD first).renumber f :=
      getLastD_relocate (Position.renumber f) first rest
    rw [List.map_cons, standalone, standalone, hlast]
    rfl

theorem Body.renumber {waiting left : List Comment} {body : List ScannedLine}
    {children : List Line} (h : Body waiting body children left) :
    Body (waiting.map (Comment.renumber f)) (body.map (ScannedLine.renumber f))
      (children.map (Line.renumber f)) (left.map (Comment.renumber f)) := by
  induction h with
  | done waiting => exact .done _
  | blank _ ih => exact .blank ih
  | comment c _ ih =>
    rw [List.map_append] at ih
    exact .comment (c.renumber f) ih
  | child l plain _ ih =>
    rw [List.map_cons, List.map_cons, Line.renumber, ← TokenLine.toLine_relocate]
    exact .child (l.renumber f) (plain.renumber f) ih

section

variable {waiting : List Comment} {lines : List ScannedLine} {statements : List Statement}

theorem Layout.blank_renumber (rest : Layout [] lines statements) :
    Layout (waiting.map (Comment.renumber f)) (.blank :: lines)
      ((standalone waiting).map (Statement.renumber f) ++ statements) := by
  rw [← standalone_renumber]
  exact .blank _ rest

theorem Layout.line_renumber {l : TokenLine} (plain : l.Plain)
    (rest : Layout [] lines statements) :
    Layout (waiting.map (Comment.renumber f)) (.tokens (l.renumber f) :: lines)
      (.line ((l.toLine waiting false).renumber f) :: statements) := by
  rw [Line.renumber, ← TokenLine.toLine_relocate]
  exact .line _ (l.renumber f) (plain.renumber f) rest

theorem Layout.emptyBlock_renumber {l : TokenLine} {paren closing : Token}
    (header : l.OpensAndCloses paren closing) (rest : Layout [] lines statements) :
    Layout (waiting.map (Comment.renumber f)) (.tokens (l.renumber f) :: lines)
      (.block ((l.toEmptyBlock waiting closing).renumber f) :: statements) := by
  rw [Block.renumber, ← TokenLine.toEmptyBlock_relocate]
  exact .emptyBlock _ (l.renumber f) (header.renumber f) rest

theorem Layout.block_renumber {body : List ScannedLine} {children : List Line}
    {left : List Comment} {l closing : TokenLine} {paren : Token} (header : l.Opens paren)
    (inside : Body [] body children left) (closes : closing.Closes)
    (rest : Layout [] lines statements) :
    Layout (waiting.map (Comment.renumber f))
      (.tokens (l.renumber f) ::
        (body.map (ScannedLine.renumber f) ++ .tokens (closing.renumber f) :: lines))
      (.block ((l.toBlock waiting children left closing).renumber f) :: statements) := by
  rw [Block.renumber, ← TokenLine.toBlock_relocate]
  exact .block _ (l.renumber f) (header.renumber f) (inside.renumber f) (closing.renumber f)
    (closes.renumber f) rest

/-- **A derivation does not depend on the line numbers.** -/
theorem Layout.renumber (h : Layout waiting lines statements) :
    Layout (waiting.map (Comment.renumber f)) (lines.map (ScannedLine.renumber f))
      (statements.map (Statement.renumber f)) := by
  induction h with
  | done waiting =>
    rw [← standalone_renumber]
    exact .done _
  | blank waiting _ ih =>
    rw [List.map_append]
    exact .blank_renumber f ih
  | comment c _ ih =>
    rw [List.map_append] at ih
    exact .comment (c.renumber f) ih
  | line waiting l plain _ ih => exact .line_renumber f plain ih
  | emptyBlock waiting l header _ ih => exact .emptyBlock_renumber f header ih
  | block waiting l header inside closing closes _ ih =>
    rw [List.map_cons, List.map_append, List.map_cons]
    exact .block_renumber f header inside closes ih

end

end

end Manifest

end ManifestPolicy
