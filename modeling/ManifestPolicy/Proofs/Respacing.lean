import ManifestPolicy.Proofs.LineLayouts
import ManifestPolicy.Proofs.RelatedLayouts
import ManifestPolicy.Proofs.Relocation

/-!
# Columns do not matter

The lines of a manifest can be laid out in another way, each of them with the same tokens and the
same comment. Then the same tree is read but for its columns. Nothing that is declared depends on
columns, and the block of a line is found by line numbers, so the resolution is the same.

Where comments form a statement of their own, the place after them is computed from their length.
So lines at other columns do not always form the statements at other columns. It is compared what
both texts form when the columns are left out.

## Main definitions

* `Position.withoutColumn`: a place without its column.
* `Respaced`: two layouts of the same tokens and the same comment.
* `lineTexts`: what is read from a line but for its places.

## Main statements

* `respaced_iff`: lines that are read with the same texts are such layouts, and no others.
* `exists_layout_of_shifted`: lines at other columns form the same statements at other columns.
* `read_of_respaced`: what is read from lines that are laid out in another way.
* `resolve_of_withoutColumn`: columns do not matter to the resolution.
* `scanFrom_layout`: reading undoes every layout, and no resolution depends on one.
-/

namespace ManifestPolicy

/-- A place without its column. -/
def Position.withoutColumn (p : Position) : Position := ⟨p.line, 0⟩

open Position (withoutColumn)

/-- The same comment on the same line. -/
def Comment.Shifted (c c' : Comment) : Prop :=
  c'.relocate withoutColumn = c.relocate withoutColumn

namespace Manifest

/-- The same tokens and the same comment on the same line. -/
def TokenLine.Shifted (l l' : TokenLine) : Prop :=
  l'.relocate withoutColumn = l.relocate withoutColumn

/-- Lines of the same kind that differ in their columns alone. -/
def ScannedLine.Shifted : ScannedLine → ScannedLine → Prop :=
  ScannedLine.Related TokenLine.Shifted Comment.Shifted

theorem map_relocate_of_shifted {comments comments' : List Comment}
    (h : List.Forall₂ Comment.Shifted comments comments') :
    comments'.map (Comment.relocate withoutColumn) =
      comments.map (Comment.relocate withoutColumn) :=
  map_eq_of_forall₂ h

section

variable {l l' closing closing' : TokenLine} {above above' left left' : List Comment}
  {children children' : List Line}

theorem TokenLine.Shifted.sameParens (h : l.Shifted l') : l.SameParens l' := by
  refine TokenLine.sameParens_of_texts ?_
  rw [← l'.text_tokens_relocate withoutColumn, h, TokenLine.text_tokens_relocate]

theorem TokenLine.Shifted.toLine (h : l.Shifted l')
    (habove : List.Forall₂ Comment.Shifted above above') (inBlock : Bool) :
    (l'.toLine above' inBlock).relocate withoutColumn =
      (l.toLine above inBlock).relocate withoutColumn := by
  rw [← TokenLine.toLine_relocate, ← TokenLine.toLine_relocate, h,
    map_relocate_of_shifted habove]

theorem TokenLine.Shifted.toEmptyBlock (h : l.Shifted l') {paren paren' first last : Token}
    (header : l.OpensAndCloses paren first) (header' : l'.OpensAndCloses paren' last)
    (habove : List.Forall₂ Comment.Shifted above above') :
    (l'.toEmptyBlock above' last).relocate withoutColumn =
      (l.toEmptyBlock above first).relocate withoutColumn := by
  have hrest := congrArg TokenLine.rest h
  rw [TokenLine.relocate, TokenLine.relocate, header.rest, header'.rest] at hrest
  have hclosing : last.relocate withoutColumn = first.relocate withoutColumn := by
    simp only [List.map_cons, List.cons.injEq] at hrest
    exact hrest.2.1
  rw [← TokenLine.toEmptyBlock_relocate, ← TokenLine.toEmptyBlock_relocate, h,
    map_relocate_of_shifted habove, hclosing]

theorem TokenLine.Shifted.toBlock (h : l.Shifted l') (hclosing : closing.Shifted closing')
    (habove : List.Forall₂ Comment.Shifted above above')
    (hchildren : children'.map (Line.relocate withoutColumn) =
      children.map (Line.relocate withoutColumn))
    (hleft : List.Forall₂ Comment.Shifted left left') :
    (l'.toBlock above' children' left' closing').relocate withoutColumn =
      (l.toBlock above children left closing).relocate withoutColumn := by
  rw [← TokenLine.toBlock_relocate, ← TokenLine.toBlock_relocate, h, hclosing, hchildren,
    map_relocate_of_shifted habove, map_relocate_of_shifted hleft]

end

/-- The place after some comments is on the line of the last one. -/
theorem standalone_withoutColumn {waiting waiting' : List Comment}
    (h : List.Forall₂ Comment.Shifted waiting waiting') :
    (standalone waiting').map (Statement.relocate withoutColumn) =
      (standalone waiting).map (Statement.relocate withoutColumn) := by
  have hwaiting := map_relocate_of_shifted h
  cases h with
  | nil => rfl
  | @cons first first' rest rest' hfirst hrest =>
    have hlast : (rest'.getLastD first').relocate withoutColumn =
        (rest.getLastD first).relocate withoutColumn := by
      rw [← getLastD_relocate, ← getLastD_relocate, hfirst, map_relocate_of_shifted hrest]
    have hstart := congrArg Comment.start hfirst
    have hstop := congrArg (fun c => c.start.line) hlast
    simp only [Comment.relocate, withoutColumn] at hstart hstop
    simp only [standalone, List.map_singleton, Statement.relocate, CommentRun.relocate,
      Comments.relocate, hwaiting, withoutColumn, hstart, hstop, List.map_nil]

/-- Statements that stand for such lines differ in their columns alone. -/
theorem StatementsFor.relocate_eq {s s' : Statement}
    (h : StatementsFor TokenLine.Shifted Comment.Shifted s s') :
    s'.relocate withoutColumn = s.relocate withoutColumn := by
  cases h with
  | line lines =>
    cases lines with
    | intro lines _ comments => exact congrArg Statement.line (lines.toLine comments false)
  | emptyBlock headers opens opens' comments =>
    exact congrArg Statement.block (headers.toEmptyBlock opens opens' comments)
  | block headers _ closings comments lefts lines =>
    refine congrArg Statement.block (headers.toBlock closings comments ?_ lefts)
    refine map_eq_of_forall₂ (lines.imp fun c c' hc => ?_)
    cases hc with
    | intro lines _ comments => exact lines.toLine comments true
  | comments comments run run' =>
    have hsame := standalone_withoutColumn comments
    rw [run, run', List.map_singleton, List.map_singleton, List.singleton_inj] at hsame
    exact hsame

/-- **Lines at other columns form the same statements at other columns.** -/
theorem exists_layout_of_shifted {lines lines' : List ScannedLine} {statements : List Statement}
    (h : Layout [] lines statements) (hlines : List.Forall₂ ScannedLine.Shifted lines lines') :
    ∃ statements', Layout [] lines' statements' ∧
      statements'.map (Statement.relocate withoutColumn) =
        statements.map (Statement.relocate withoutColumn) := by
  obtain ⟨statements', hlayout', hstatements⟩ :=
    exists_layout_of_related (fun _ _ hl => TokenLine.Shifted.sameParens hl) h hlines .nil
  exact ⟨statements', hlayout',
    map_eq_of_forall₂ (hstatements.imp fun _ _ => StatementsFor.relocate_eq)⟩

/-- Two layouts of the same tokens and the same comment. -/
def Respaced (t t' : Text) : Prop :=
  ∃ L L' : LineLayout, L.text = t ∧ L'.text = t' ∧ L'.tokens = L.tokens ∧ L'.remark = L.remark

/-- The texts of the tokens and of the comment of a line, where it can be read. -/
def lineTexts (t : Text) : Option (List Text × Option Text) :=
  (scanFrom 1 1 t).toOption.map fun r => (r.1.map Token.text, r.2.map Comment.text)

theorem LineLayout.lineTexts_text (L : LineLayout) :
    lineTexts L.text = some (L.tokens, if L.remark = [] then none else some L.remark) := by
  have htexts := map_text_tokensAt 1 1 L.pieces
  rw [lineTexts, L.scanFrom_text]
  by_cases hremark : L.remark = []
  · simp [Except.toOption, hremark, htexts, LineLayout.tokens]
  · simp [Except.toOption, hremark, htexts, LineLayout.tokens]

/-- Two lines are such layouts where the same texts are read from both. -/
theorem respaced_iff {t t' : Text} :
    Respaced t t' ↔ ∃ texts, lineTexts t = some texts ∧ lineTexts t' = some texts := by
  constructor
  · rintro ⟨L, L', rfl, rfl, htokens, hremark⟩
    exact ⟨_, L.lineTexts_text, by rw [L'.lineTexts_text, htokens, hremark]⟩
  · rintro ⟨texts, h, h'⟩
    obtain ⟨r, hr, -⟩ := Option.map_eq_some_iff.1 h
    obtain ⟨r', hr', -⟩ := Option.map_eq_some_iff.1 h'
    obtain ⟨L, rfl⟩ := exists_lineLayout (toOption_eq_some_iff.1 hr)
    obtain ⟨L', rfl⟩ := exists_lineLayout (toOption_eq_some_iff.1 hr')
    rw [← h, L.lineTexts_text, L'.lineTexts_text, Option.some.injEq, Prod.mk.injEq] at h'
    refine ⟨L, L', rfl, rfl, h'.1, ?_⟩
    have hremark := h'.2
    split_ifs at hremark with hL' hL hL
    · rw [hL', hL]
    · exact Option.some.inj hremark

theorem tokensAt_withoutColumn (number column : Int) (ps : List Piece) :
    (tokensAt number column ps).map (Token.relocate withoutColumn) =
      (ps.map Piece.token).map fun t => ⟨t, ⟨number, 0⟩, ⟨number, 0⟩⟩ := by
  induction ps generalizing column with
  | nil => rfl
  | cons p ps ih =>
    rw [tokensAt, List.map_cons, List.map_cons, List.map_cons, ih]
    rfl

theorem shifted_ofParts {tokens tokens' : List Token} {comment comment' : Option Comment}
    (htokens : tokens'.map (Token.relocate withoutColumn) =
      tokens.map (Token.relocate withoutColumn))
    (hcomment : comment'.map (Comment.relocate withoutColumn) =
      comment.map (Comment.relocate withoutColumn)) :
    (ScannedLine.ofParts tokens comment).Shifted (.ofParts tokens' comment') := by
  cases tokens with
  | cons first rest =>
    cases tokens' with
    | nil => simp at htokens
    | cons first' rest' =>
      obtain ⟨hfirst, hrest⟩ := List.cons.inj htokens
      refine .tokens ?_
      rw [TokenLine.Shifted, TokenLine.relocate, TokenLine.relocate, hfirst, hrest, hcomment]
  | nil =>
    rw [List.map_nil, List.map_eq_nil_iff] at htokens
    rw [htokens]
    cases comment with
    | none =>
      rw [Option.map_none, Option.map_eq_none_iff] at hcomment
      rw [hcomment]
      exact .blank
    | some c =>
      obtain ⟨c', rfl, hc⟩ := Option.map_eq_some_iff.1 hcomment
      exact .comment hc

/-- A line that is laid out in another way is read at other columns. -/
theorem Respaced.exists_shifted {t t' : Text} (h : Respaced t t') {number : Int}
    {line : ScannedLine} (hline : ScannedLine.ofText number t = .ok line) :
    ∃ line', ScannedLine.ofText number t' = .ok line' ∧ line.Shifted line' := by
  obtain ⟨L, L', rfl, rfl, htokens, hremark⟩ := h
  obtain ⟨tokens, comment, hscan, rfl⟩ := ofText_eq_ok_iff.1 hline
  rw [L.scanFrom_text, Except.ok.injEq, Prod.mk.injEq] at hscan
  obtain ⟨rfl, rfl⟩ := hscan
  refine ⟨_, ofText_eq_ok_iff.2 ⟨_, _, L'.scanFrom_text number, rfl⟩, shifted_ofParts ?_ ?_⟩
  · rw [tokensAt_withoutColumn, tokensAt_withoutColumn]
    exact congrArg _ htokens
  · rw [hremark]
    by_cases hnone : L.remark = []
    · rw [if_pos hnone, if_pos hnone]
    · rw [if_neg hnone, if_neg hnone]
      rfl

theorem exists_scanLines_of_respaced {number : Int} {texts texts' : List Text}
    (h : List.Forall₂ Respaced texts texts') {lines : List ScannedLine}
    (hlines : scanLines number texts = .ok lines) :
    ∃ lines', scanLines number texts' = .ok lines' ∧
      List.Forall₂ ScannedLine.Shifted lines lines' := by
  induction h generalizing number lines with
  | nil =>
    cases hlines
    exact ⟨[], rfl, .nil⟩
  | cons hfirst _ ih =>
    obtain ⟨line, more, hline, hmore, rfl⟩ := scanLines_cons_eq_ok_iff.1 hlines
    obtain ⟨line', hline', hshifted⟩ := hfirst.exists_shifted hline
    obtain ⟨more', hmore', hrest⟩ := ih hmore
    exact ⟨line' :: more', scanLines_cons_eq_ok_iff.2 ⟨line', more', hline', hmore', rfl⟩,
      .cons hshifted hrest⟩

/-- What is read from lines that are laid out in another way: the same but for the columns. -/
theorem read_of_respaced {name text text' : Text} {m : Manifest} (h : read name text = .ok m)
    (hlines : List.Forall₂ Respaced text.lines text'.lines) :
    ∃ m', read name text' = .ok m' ∧ m'.relocate withoutColumn = m.relocate withoutColumn := by
  obtain ⟨lines, statements, d, hscan, hlayout, hd, rfl⟩ := read_eq_ok_iff.1 h
  obtain ⟨lines', hscan', hshifted⟩ := exists_scanLines_of_respaced hlines hscan
  obtain ⟨statements', hlayout', hsame⟩ := exists_layout_of_shifted hlayout hshifted
  have hdeclared := declarations_relocate withoutColumn statements'
  rw [hsame, declarations_relocate, hd] at hdeclared
  obtain ⟨d', hd', hsame'⟩ := (relocated_eq_ok_iff withoutColumn).1 hdeclared.symm
  refine ⟨_, read_eq_ok_iff.2 ⟨lines', statements', d', hscan', hlayout', hd', rfl⟩, ?_⟩
  rw [Declarations.relocate, Declarations.relocate, Declarations.mk.injEq] at hsame'
  rw [relocate, relocate, hsame, hsame'.1, hsame'.2.1, hsame'.2.2]

/-- **Columns do not matter to the resolution**, but for the column of a misplaced directive. -/
theorem resolve_of_withoutColumn {m m' : Manifest}
    (h : m'.relocate withoutColumn = m.relocate withoutColumn) (ns nilPolicy : Text) :
    (m'.resolve ns nilPolicy).mapError (MisplacedDirective.relocate withoutColumn) =
      (m.resolve ns nilPolicy).mapError (MisplacedDirective.relocate withoutColumn) := by
  have hresolve (m : Manifest) : (m.relocate withoutColumn).resolve ns nilPolicy =
      (m.resolve ns nilPolicy).mapError (MisplacedDirective.relocate withoutColumn) := by
    rw [resolve_relocate (f := id) (g := withoutColumn) (fun _ => rfl) fun _ _ => Iff.rfl,
      Resolution.renumber_id]
    cases m.resolve ns nilPolicy <;> rfl
  rw [← hresolve m', ← hresolve m, h]

/-- **Reading undoes every layout.** The tokens and the comment of a line are read where they were
put, whatever blanks are around them, and every line that can be read was laid out so. Laying out
the lines of a manifest in another way changes columns alone: the tree stays the same but for
them, and it resolves to the same policies and overwrites, or to the same misplaced directive on
the same line. -/
theorem scanFrom_layout :
    (∀ (L : LineLayout) (number : Int), ∃ tokens comment,
      scanFrom number 1 L.text = .ok (tokens, comment) ∧ L.Scans number tokens comment) ∧
    (∀ (number : Int) (t : Text) (r : List Token × Option Comment),
      scanFrom number 1 t = .ok r → ∃ L : LineLayout, L.text = t) ∧
    ∀ (name text text' : Text) (m : Manifest), read name text = .ok m →
      List.Forall₂ Respaced text.lines text'.lines →
      ∃ m', read name text' = .ok m' ∧ m'.relocate withoutColumn = m.relocate withoutColumn ∧
        ∀ ns nilPolicy,
          (m'.resolve ns nilPolicy).mapError (MisplacedDirective.relocate withoutColumn) =
            (m.resolve ns nilPolicy).mapError (MisplacedDirective.relocate withoutColumn) := by
  refine ⟨LineLayout.exists_scans, fun _ _ _ => exists_lineLayout, ?_⟩
  intro name text text' m h hlines
  obtain ⟨m', hm', hsame⟩ := read_of_respaced h hlines
  exact ⟨m', hm', hsame, resolve_of_withoutColumn hsame⟩

/-- A line without any blanks, and a block whose lines are moved and get blanks between and behind
their tokens. -/
theorem scanFrom_layout_sample :
    (∃ (L : LineLayout) (tokens : List Token) (comment : Option Comment),
      L.text = Text.ofString "a(\"b\"`c`//d" ∧ scanFrom 1 1 L.text = .ok (tokens, comment) ∧
        L.Scans 1 tokens comment) ∧
    ∃ m m', read ['m'] (Text.ofString "require(\na v1//x:p\n)\n") = .ok m ∧
      read ['m'] (Text.ofString "\trequire (\n  a  v1 //x:p \n )\n") = .ok m' ∧
      m'.relocate withoutColumn = m.relocate withoutColumn ∧
      ∀ ns nilPolicy,
        (m'.resolve ns nilPolicy).mapError (MisplacedDirective.relocate withoutColumn) =
          (m.resolve ns nilPolicy).mapError (MisplacedDirective.relocate withoutColumn) := by
  obtain ⟨hscan, hlaid, hread⟩ := scanFrom_layout
  have hglued : (scanFrom 1 1 (Text.ofString "a(\"b\"`c`//d")).isOk = true := by decide +kernel
  obtain ⟨r, hr⟩ := exists_eq_ok hglued
  obtain ⟨L, hL⟩ := hlaid 1 _ r hr
  obtain ⟨tokens, comment, htokens, hscans⟩ := hscan L 1
  have hok : (read ['m'] (Text.ofString "require(\na v1//x:p\n)\n")).isOk = true := by
    decide +kernel
  obtain ⟨m, hm⟩ := exists_eq_ok hok
  have hrespaced : List.Forall₂ Respaced
      (Text.ofString "require(\na v1//x:p\n)\n").lines
      (Text.ofString "\trequire (\n  a  v1 //x:p \n )\n").lines := by
    have hlines : (Text.ofString "require(\na v1//x:p\n)\n").lines =
        ["require(", "a v1//x:p", ")"].map Text.ofString := by
      decide +kernel
    have hlines' : (Text.ofString "\trequire (\n  a  v1 //x:p \n )\n").lines =
        ["\trequire (", "  a  v1 //x:p ", " )"].map Text.ofString := by
      decide +kernel
    rw [hlines, hlines']
    refine .cons ?_ (.cons ?_ (.cons ?_ .nil))
    · exact respaced_iff.2 ⟨(["require", "("].map Text.ofString, none), by decide +kernel⟩
    · exact respaced_iff.2 ⟨(["a", "v1"].map Text.ofString, some (Text.ofString "//x:p")),
        by decide +kernel⟩
    · exact respaced_iff.2 ⟨([")"].map Text.ofString, none), by decide +kernel⟩
  obtain ⟨m', hm', hsame, hresolve⟩ := hread ['m'] _ _ m hm hrespaced
  exact ⟨⟨L, tokens, comment, hL, htokens, hscans⟩, m, m', hm, hm', hsame, hresolve⟩

end Manifest

end ManifestPolicy
