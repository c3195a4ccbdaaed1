import ManifestPolicy.Proofs.Attachment
import ManifestPolicy.Proofs.Renumbering

/-!
# Blank lines

Outside blocks a blank line sets the comments that wait aside. Where none wait, and inside blocks,
it does nothing at all. Comments wait outside blocks only right below one of them, so everywhere
else a blank line can be put in: the same tree is read, with the lines below it moved down by one.
Below a comment it can be put in as well where the comments are set aside anyway, by another blank
line or by the end of the text.

Lines keep their order when some of them move down, so the resolution stays the same.

## Main definitions

* `EndsInTopComment`: the lines end in a comment outside blocks.
* `movedDown`: the numbers of lines below an inserted one.

## Main statements

* `statementsFrom_insert_blank`: the statements of lines do not change with a blank line.
* `read_insert_blank`: what is read from a text with one more blank line, and what it resolves to.
-/

namespace ManifestPolicy

/-- The number of a line when another one was put in below line `n`. -/
def movedDown (n number : Int) : Int := if number ≤ n then number else number + 1

theorem movedDown_of_le {n number : Int} (h : number ≤ n) : movedDown n number = number :=
  if_pos h

theorem movedDown_of_lt {n number : Int} (h : n < number) : movedDown n number = number + 1 :=
  if_neg (Int.not_le.2 h)

/-- The lines keep their order. -/
theorem movedDown_le_iff (n a b : Int) : movedDown n a ≤ movedDown n b ↔ a ≤ b := by
  rw [movedDown, movedDown]
  split_ifs
  all_goals omega

namespace Manifest

theorem scanLines_blank_cons {number : Int} {blank : Text} {texts : List Text}
    {lines : List ScannedLine} (hblank : Blanks blank)
    (h : scanLines (number + 1) texts = .ok lines) :
    scanLines number (blank :: texts) = .ok (.blank :: lines) := by
  refine scanLines_cons_eq_ok_iff.2 ⟨.blank, lines, ?_, h, rfl⟩
  have hscan := scanFrom_blanks number 1 hblank []
  rw [List.append_nil, scanFrom_nil] at hscan
  exact ofText_eq_ok_iff.2 ⟨[], none, hscan, rfl⟩

/-- The comments that wait outside blocks. A blank line sets them aside. -/
def Mode.aside : Mode → List Comment
  | .outside waiting => waiting
  | .inside _ _ _ => []

/-- Whether the reader is inside a block. -/
def Mode.isInside : Mode → Bool
  | .outside _ => false
  | .inside _ _ _ => true

theorem Mode.Step.insideAfter {mode next : Mode} {line : ScannedLine} {done : List Statement}
    (h : mode.Step line done next) : insideAfter mode.isInside [line] = next.isInside := by
  cases h with
  | blank | comment | blankInside | commentInside => rfl
  | line _ plain => exact plain.opensBlock
  | emptyBlock _ header => exact header.opensBlock
  | opens _ header => exact header.opensBlock
  | child _ _ _ plain =>
    simp [Manifest.insideAfter, Mode.isInside, plain.closesBlock]
  | closes _ _ _ closes =>
    simp [Manifest.insideAfter, Mode.isInside, closes.closesBlock]

/-- Outside blocks comments wait only after one of them. -/
theorem Mode.Step.exists_comment {mode next : Mode} {line : ScannedLine} {done : List Statement}
    (h : mode.Step line done next) (hnext : next.aside ≠ []) :
    mode.isInside = false ∧ ∃ c, line = .comment c := by
  cases h with
  | comment _ c => exact ⟨rfl, c, rfl⟩
  | blank | line | emptyBlock | opens => exact absurd rfl hnext
  | blankInside | commentInside | child | closes => exact absurd rfl hnext

theorem advance_singleton_eq_ok_iff {mode next : Mode} {line : ScannedLine}
    {done : List Statement} :
    advance mode [line] = .ok (done, next) ↔ mode.Step line done next := by
  rw [← step_eq_ok_iff, advance]
  simp only [advance, bind_eq_ok_iff, pure_eq_ok_iff, Prod.exists, Prod.mk.injEq,
    Except.ok.injEq]
  constructor
  · rintro ⟨a, b, hstep, c, d, ⟨rfl, rfl⟩, rfl, rfl⟩
    rw [List.append_nil]
    exact hstep
  · intro hstep
    exact ⟨done, next, hstep, [], next, ⟨rfl, rfl⟩, List.append_nil done, rfl⟩

theorem advance_append_eq_ok_iff {mode last : Mode} {l₁ l₂ : List ScannedLine}
    {statements : List Statement} :
    advance mode (l₁ ++ l₂) = .ok (statements, last) ↔
      ∃ done next more, advance mode l₁ = .ok (done, next) ∧
        advance next l₂ = .ok (more, last) ∧ statements = done ++ more := by
  rw [advance_append]
  simp only [bind_eq_ok_iff, pure_eq_ok_iff, Prod.exists, Prod.mk.injEq]
  constructor
  · rintro ⟨done, next, h₁, more, _, h₂, rfl, rfl⟩
    exact ⟨done, next, more, h₁, h₂, rfl⟩
  · rintro ⟨done, next, more, h₁, h₂, rfl⟩
    exact ⟨done, next, h₁, more, last, h₂, rfl, rfl⟩

/-- The reader is inside a block where the lines above say so. -/
theorem insideAfter_of_advance {mode next : Mode} {lines : List ScannedLine}
    {done : List Statement} (h : advance mode lines = .ok (done, next)) :
    insideAfter mode.isInside lines = next.isInside := by
  induction lines generalizing mode done with
  | nil =>
    cases h
    rfl
  | cons line lines ih =>
    have hsplit : advance mode ([line] ++ lines) = .ok (done, next) := h
    obtain ⟨first, middle, more, hfirst, hmore, -⟩ := advance_append_eq_ok_iff.1 hsplit
    rw [← List.singleton_append, insideAfter_append,
      (advance_singleton_eq_ok_iff.1 hfirst).insideAfter]
    exact ih hmore

/-- The lines above comments that wait end in a comment outside blocks. -/
theorem exists_concat_of_aside {mode next : Mode} {lines : List ScannedLine}
    {done : List Statement} (h : advance mode lines = .ok (done, next))
    (hmode : mode.aside = []) (hnext : next.aside ≠ []) :
    ∃ before c, lines = before ++ [.comment c] ∧ insideAfter mode.isInside before = false := by
  cases lines using List.reverseRecOn with
  | nil =>
    cases h
    exact absurd hmode hnext
  | append_singleton before line =>
    obtain ⟨_, middle, _, hbefore, hline, -⟩ := advance_append_eq_ok_iff.1 h
    obtain ⟨houtside, c, rfl⟩ := (advance_singleton_eq_ok_iff.1 hline).exists_comment hnext
    exact ⟨before, c, rfl, (insideAfter_of_advance hbefore).trans houtside⟩

/-- A blank line does nothing where no comments wait, nor above another blank line or at the end
of the text. -/
theorem statementsFrom_blank {mode : Mode} {lines : List ScannedLine}
    {statements : List Statement} (h : statementsFrom mode lines = .ok statements)
    (hgap : mode.aside ≠ [] → ∀ line, lines.head? = some line → line = .blank) :
    statementsFrom mode (.blank :: lines) = .ok statements := by
  cases mode with
  | inside header children waiting =>
    exact statementsFrom_cons_eq_ok_iff.2 ⟨[], _, statements, rfl, h, rfl⟩
  | outside waiting =>
    cases waiting with
    | nil => exact statementsFrom_cons_eq_ok_iff.2 ⟨[], _, statements, rfl, h, rfl⟩
    | cons c waiting =>
      cases lines with
      | nil =>
        rw [statementsFrom_nil_eq_ok_iff, finish, Except.ok.injEq] at h
        exact statementsFrom_cons_eq_ok_iff.2
          ⟨_, .outside [], [], rfl, rfl, h ▸ (List.append_nil _).symm⟩
      | cons line lines =>
        have hline : line = .blank := hgap (by simp [Mode.aside]) line rfl
        subst hline
        obtain ⟨done, next, more, hstep, hmore, rfl⟩ := statementsFrom_cons_eq_ok_iff.1 h
        cases hstep
        exact statementsFrom_cons_eq_ok_iff.2 ⟨_, _, _, rfl,
          statementsFrom_cons_eq_ok_iff.2 ⟨[], _, more, rfl, hmore, rfl⟩, rfl⟩

theorem statementsFrom_append_eq_ok_iff {mode : Mode} {l₁ l₂ : List ScannedLine}
    {statements : List Statement} :
    statementsFrom mode (l₁ ++ l₂) = .ok statements ↔
      ∃ done next more, advance mode l₁ = .ok (done, next) ∧
        statementsFrom next l₂ = .ok more ∧ statements = done ++ more := by
  simp only [statementsFrom, bind_eq_ok_iff, pure_eq_ok_iff, Prod.exists, advance_append_eq_ok_iff]
  constructor
  · rintro ⟨_, last, ⟨done, next, more, h₁, h₂, rfl⟩, final, hfinal, rfl⟩
    exact ⟨done, next, more ++ final, h₁, ⟨more, last, h₂, final, hfinal, rfl⟩,
      List.append_assoc done more final⟩
  · rintro ⟨done, next, _, h₁, ⟨more, last, h₂, final, hfinal, rfl⟩, rfl⟩
    exact ⟨done ++ more, last, ⟨done, next, more, h₁, h₂, rfl⟩, final, hfinal,
      List.append_assoc done more final⟩

/-- **The statements of lines do not change with a blank line**, unless it parts a comment outside
blocks from a line below. -/
theorem statementsFrom_insert_blank {l₁ l₂ : List ScannedLine} {statements : List Statement}
    (h : statementsFrom (.outside []) (l₁ ++ l₂) = .ok statements)
    (hgap : ∀ before c, l₁ = before ++ [.comment c] → insideAfter false before = false →
      ∀ line, l₂.head? = some line → line = .blank) :
    statementsFrom (.outside []) (l₁ ++ .blank :: l₂) = .ok statements := by
  obtain ⟨done, next, more, h₁, h₂, rfl⟩ := statementsFrom_append_eq_ok_iff.1 h
  refine statementsFrom_append_eq_ok_iff.2 ⟨done, next, more, h₁, statementsFrom_blank h₂ ?_, rfl⟩
  intro hnext
  obtain ⟨before, c, hsplit, houtside⟩ := exists_concat_of_aside h₁ rfl hnext
  exact hgap before c hsplit houtside

/-- The last of these lines has only a comment, and it stands outside blocks. -/
def EndsInTopComment (above : List Text) : Prop :=
  ∃ lines c, scanLines 1 above = .ok (lines ++ [.comment c]) ∧ insideAfter false lines = false

theorem head?_eq_blank_of_scanLines {number : Int} {texts : List Text} {lines : List ScannedLine}
    (h : scanLines number texts = .ok lines) (hblank : ∀ t, texts.head? = some t → Blanks t) :
    ∀ line, lines.head? = some line → line = .blank := by
  intro line hline
  cases texts with
  | nil =>
    cases h
    cases hline
  | cons t texts =>
    obtain ⟨first, more, hfirst, hmore, rfl⟩ := scanLines_cons_eq_ok_iff.1 h
    have hsame := (scanLines_blank_cons (hblank t rfl) hmore).symm.trans h
    rw [Except.ok.injEq, List.cons.injEq] at hsame
    rw [List.head?_cons, Option.some.injEq] at hline
    rw [← hline, ← hsame.1]

/-- What is read from a text with one more blank line: the same tree, with everything below that
line moved down. -/
theorem read_of_insert_blank {name text text' : Text} {above below : List Text} {blank : Text}
    {m : Manifest} (h : read name text = .ok m) (hlines : text.lines = above ++ below)
    (hlines' : text'.lines = above ++ blank :: below) (hblank : Blanks blank)
    (hgap : EndsInTopComment above → ∀ t, below.head? = some t → Blanks t) :
    read name text' = .ok (m.relocate (Position.renumber (movedDown above.length))) := by
  obtain ⟨lines, statements, d, hscan, hlayout, hd, rfl⟩ := read_eq_ok_iff.1 h
  rw [hlines, scanLines_append_eq_ok_iff] at hscan
  obtain ⟨l₁, l₂, h₁, h₂, rfl⟩ := hscan
  have hinsert : statementsFrom (.outside []) (l₁ ++ .blank :: l₂) = .ok statements := by
    refine statementsFrom_insert_blank (statementsFrom_eq_ok_iff.2 hlayout) ?_
    intro before c hsplit houtside
    exact head?_eq_blank_of_scanLines h₂ (hgap ⟨before, c, hsplit ▸ h₁, houtside⟩)
  -- The lines above keep their numbers, and those below get the next ones.
  have habove : scanLines 1 above =
      .ok (l₁.map (ScannedLine.renumber (movedDown above.length))) :=
    scanLines_renumber _ h₁ fun k hk => movedDown_of_le (by omega)
  have hbelow : scanLines (1 + above.length + 1) below =
      .ok (l₂.map (ScannedLine.renumber (movedDown above.length))) := by
    refine scanLines_renumber _ h₂ fun k hk => ?_
    rw [movedDown_of_lt (by omega)]
    omega
  have hmoved := (statementsFrom_eq_ok_iff.1 hinsert).renumber (movedDown above.length)
  rw [List.map_append, List.map_cons] at hmoved
  refine read_eq_ok_iff.2 ⟨_, _, d.relocate _, ?_, hmoved, ?_, rfl⟩
  · rw [hlines', scanLines_append_eq_ok_iff]
    exact ⟨_, _, habove, scanLines_blank_cons hblank hbelow, rfl⟩
  · rw [declarations_relocate, hd]
    rfl

/-- **A blank line changes nothing but line numbers**, unless it parts a comment outside blocks
from a line below: the same tree is read with the lines below moved down, and for every namespace
and nil policy it resolves to the same policies and overwrites or to the same misplaced directive,
with the lines moved down. -/
theorem read_insert_blank {name text text' : Text} {above below : List Text} {blank : Text}
    {m : Manifest} (h : read name text = .ok m) (hlines : text.lines = above ++ below)
    (hlines' : text'.lines = above ++ blank :: below) (hblank : Blanks blank)
    (hgap : EndsInTopComment above → ∀ t, below.head? = some t → Blanks t) :
    ∃ m', read name text' = .ok m' ∧
      m' = m.relocate (Position.renumber (movedDown above.length)) ∧
      ∀ ns nilPolicy, m'.resolve ns nilPolicy =
        ((m.resolve ns nilPolicy).map (Resolution.renumber (movedDown above.length))).mapError
          (MisplacedDirective.relocate (Position.renumber (movedDown above.length))) :=
  ⟨_, read_of_insert_blank h hlines hlines' hblank hgap, rfl, fun ns nilPolicy =>
    resolve_relocate (fun _ => rfl) (movedDown_le_iff above.length) ns nilPolicy m⟩

/-- A blank line below a comment inside a block, where the block stays around its line. -/
theorem read_insert_blank_sample :
    ∃ m m', read ['m'] (Text.ofString "require (\n// x:p\na v1\n)\n") = .ok m ∧
      read ['m'] (Text.ofString "require (\n// x:p\n\t\na v1\n)\n") = .ok m' ∧
      m' = m.relocate (Position.renumber (movedDown 2)) ∧
      ∀ ns nilPolicy, m'.resolve ns nilPolicy =
        ((m.resolve ns nilPolicy).map (Resolution.renumber (movedDown 2))).mapError
          (MisplacedDirective.relocate (Position.renumber (movedDown 2))) := by
  have hread : (read ['m'] (Text.ofString "require (\n// x:p\na v1\n)\n")).isOk = true := by
    decide +kernel
  obtain ⟨m, hm⟩ := exists_eq_ok hread
  -- The comment is the last of the lines above, but the block is open there.
  have hinside : (scanLines 1 [Text.ofString "require (", Text.ofString "// x:p"]).toOption.map
      (fun lines => insideAfter false lines.dropLast) = some true := by
    decide +kernel
  have hgap : ¬ EndsInTopComment [Text.ofString "require (", Text.ofString "// x:p"] := by
    intro h
    obtain ⟨lines, c, hscan, houtside⟩ := h
    rw [hscan] at hinside
    simp [Except.toOption, houtside] at hinside
  have hblank : Blanks (Text.ofString "\t") := by
    unfold Blanks
    decide +kernel
  have hlines : (Text.ofString "require (\n// x:p\na v1\n)\n").lines =
      [Text.ofString "require (", Text.ofString "// x:p"] ++
        [Text.ofString "a v1", Text.ofString ")"] := by
    decide +kernel
  have hlines' : (Text.ofString "require (\n// x:p\n\t\na v1\n)\n").lines =
      [Text.ofString "require (", Text.ofString "// x:p"] ++
        Text.ofString "\t" :: [Text.ofString "a v1", Text.ofString ")"] := by
    decide +kernel
  obtain ⟨m', hm', hmoved, hresolve⟩ :=
    read_insert_blank hm hlines hlines' hblank fun h => absurd h hgap
  exact ⟨m, m', hm, hm', hmoved, hresolve⟩

/-- Below a comment outside blocks a blank line counts. Without it the comment is above the
statement on the next line, with it the comment is a statement of its own. -/
example :
    ((read ['m'] (Text.ofString "// c\nmodule m\n")).toOption.map
        fun m => m.statements.length) = some 1 ∧
      ((read ['m'] (Text.ofString "// c\n\nmodule m\n")).toOption.map
        fun m => m.statements.length) = some 2 := by
  decide +kernel

end Manifest

end ManifestPolicy
