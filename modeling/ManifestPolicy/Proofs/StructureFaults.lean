import ManifestPolicy.Proofs.Rows

/-!
# Where the structure breaks

The reader stops at the first row that is not allowed where it stands, and each such row is refused
in one way. Where every row is allowed and the text ends inside a block, it is the opening of that
block that is refused.

So a fault of the structure comes with the rows above it, which are all allowed: they lead from the
top of the text to the place of the row that is refused.

## Main definitions

* `Place.Refuses`: the rows that are not allowed at a place, and what is wrong with them.
* `Reaches`: allowed rows from one place to another.
* `BreaksStructure`: the fault of the structure of some lines.

## Main statements

* `step_eq_error_iff`: a line is refused in one of these ways and in no other.
* `statementsFrom_eq_error_iff`: lines are refused at the first row that is not allowed, or at the
  opening of the block that they end in.
-/

namespace ManifestPolicy.Manifest

/-! ## Refused rows -/

/-- The first parenthesis among some tokens. -/
def FirstParen (tokens : List Token) (t : Token) : Prop :=
  ∃ before after, tokens = before ++ t :: after ∧ (∀ u ∈ before, u.isParen = false) ∧
    t.isParen = true

/-- The line opens a block, or opens and closes one, with these tokens before it. -/
inductive TokenLine.Heads (l : TokenLine) (verb : List Token) : Prop
  | opens {paren : Token} (tokens : l.tokens = verb ++ [paren])
      (isOpening : paren.text = openingParen) : Heads l verb
  | opensAndCloses {paren closing : Token} (tokens : l.tokens = verb ++ [paren, closing])
      (isOpening : paren.text = openingParen) (isClosing : closing.text = closingParen) :
      Heads l verb

/-- The rows that are not allowed at a place, and what is wrong with them. A block has one token
before its opening parenthesis, and nothing stands behind its closing one. Otherwise it is the
first parenthesis of a row that does not belong there. -/
inductive Place.Refuses : Place → TokenLine → Fault → Prop
  | header {l : TokenLine} {verb : List Token} (heads : l.Heads verb) (number : verb.length ≠ 1) :
      Refuses .outside l ⟨.blockHeader, l.first.start⟩
  | verb {l : TokenLine} {t : Token} (heads : l.Heads [t]) (isParen : t.isParen = true) :
      Refuses .outside l ⟨.unexpectedParen t.text, t.start⟩
  | line {l : TokenLine} {t : Token} (noHeader : ∀ verb, ¬ l.Heads verb)
      (first : FirstParen l.tokens t) : Refuses .outside l ⟨.unexpectedParen t.text, t.start⟩
  | afterClosing (verb : Text) {l : TokenLine} {t : Token} {rest : List Token}
      (isClosing : l.first.text = closingParen) (more : l.rest = t :: rest) :
      Refuses (.inside verb) l ⟨.afterClosing, t.start⟩
  | child (verb : Text) {l : TokenLine} {t : Token} (noClosing : l.first.text ≠ closingParen)
      (first : FirstParen l.tokens t) :
      Refuses (.inside verb) l ⟨.unexpectedParen t.text, t.start⟩

theorem rejectParens_eq_error_iff {tokens : List Token} {f : Fault} :
    rejectParens tokens = .error f ↔
      ∃ t, FirstParen tokens t ∧ f = ⟨.unexpectedParen t.text, t.start⟩ := by
  have hfirst (t : Token) : tokens.find? Token.isParen = some t ↔ FirstParen tokens t := by
    rw [List.find?_eq_some_iff_append, FirstParen]
    simp only [Bool.not_eq_true']
    constructor
    · rintro ⟨hparen, before, after, htokens, hbefore⟩
      exact ⟨before, after, htokens, hbefore, hparen⟩
    · rintro ⟨before, after, htokens, hbefore, hparen⟩
      exact ⟨hparen, before, after, htokens, hbefore⟩
  simp only [← hfirst, rejectParens]
  cases tokens.find? Token.isParen with
  | none => simp
  | some t => simp [@eq_comm _ f]

theorem lineOf_eq_error_iff {l : TokenLine} {above : List Comment} {inBlock : Bool} {f : Fault} :
    lineOf l above inBlock = .error f ↔
      ∃ t, FirstParen l.tokens t ∧ f = ⟨.unexpectedParen t.text, t.start⟩ := by
  rw [lineOf, bind_eq_error_iff, rejectParens_eq_error_iff]
  constructor
  · rintro (h | ⟨_, -, h⟩)
    · exact h
    · cases h
  · exact .inl

theorem firstParen_singleton {t u : Token} (h : FirstParen [t] u) : u = t ∧ t.isParen = true := by
  obtain ⟨before, after, htokens, -, hparen⟩ := h
  cases before with
  | nil =>
    rw [List.nil_append, List.cons.injEq] at htokens
    exact ⟨htokens.1.symm, htokens.1 ▸ hparen⟩
  | cons v before => simp at htokens

theorem blockVerb_eq_error_iff {l : TokenLine} {verb : List Token} {f : Fault} :
    blockVerb l verb = .error f ↔
      (verb.length ≠ 1 ∧ f = ⟨.blockHeader, l.first.start⟩) ∨
      ∃ t, verb = [t] ∧ t.isParen = true ∧ f = ⟨.unexpectedParen t.text, t.start⟩ := by
  match verb with
  | [] => simp [blockVerb, @eq_comm _ f]
  | [t] =>
    rw [blockVerb, bind_eq_error_iff, rejectParens_eq_error_iff]
    constructor
    · rintro (⟨u, hu, rfl⟩ | ⟨_, -, h⟩)
      · obtain ⟨rfl, hparen⟩ := firstParen_singleton hu
        exact .inr ⟨u, rfl, hparen, rfl⟩
      · cases h
    · rintro (⟨hlength, -⟩ | ⟨u, hu, hparen, rfl⟩)
      · exact absurd rfl hlength
      · exact .inl ⟨u, ⟨[], [], hu, by simp, hparen⟩, rfl⟩
  | t :: u :: rest => simp [blockVerb, @eq_comm _ f]

theorem TokenLine.shape_eq_opening {l : TokenLine} {verb : List Token} {paren : Token} :
    l.shape = .opening verb paren ↔ l.tokens = verb ++ [paren] ∧ paren.text = openingParen := by
  rw [shape, Shape.ofReversed_eq_opening_iff, List.reverse_eq_iff, List.reverse_cons,
    List.reverse_reverse]

theorem TokenLine.shape_eq_emptyBlock {l : TokenLine} {verb : List Token} {closing : Token} :
    l.shape = .emptyBlock verb closing ↔ ∃ paren, l.tokens = verb ++ [paren, closing] ∧
      closing.text = closingParen ∧ paren.text = openingParen := by
  simp only [shape, Shape.ofReversed_eq_emptyBlock_iff, List.reverse_eq_iff, List.reverse_cons,
    List.reverse_reverse, List.append_assoc, List.singleton_append]

theorem TokenLine.heads_iff {l : TokenLine} {verb : List Token} :
    l.Heads verb ↔ (∃ paren, l.shape = .opening verb paren) ∨
      ∃ closing, l.shape = .emptyBlock verb closing := by
  simp only [shape_eq_opening, shape_eq_emptyBlock]
  constructor
  · rintro (⟨htokens, hopening⟩ | ⟨htokens, hopening, hclosing⟩)
    · exact .inl ⟨_, htokens, hopening⟩
    · exact .inr ⟨_, _, htokens, hclosing, hopening⟩
  · rintro (⟨paren, htokens, hopening⟩ | ⟨closing, paren, htokens, hclosing, hopening⟩)
    · exact .opens htokens hopening
    · exact .opensAndCloses htokens hopening hclosing

/-- The verb of a header is refused for its number of tokens, or as a parenthesis. -/
theorem refuses_of_blockVerb {l : TokenLine} {verb : List Token} {f : Fault}
    (heads : l.Heads verb) (h : blockVerb l verb = .error f) : Place.Refuses .outside l f := by
  rcases blockVerb_eq_error_iff.1 h with ⟨hlength, rfl⟩ | ⟨t, rfl, hparen, rfl⟩
  · exact .header heads hlength
  · exact .verb heads hparen

theorem stepOutside_eq_error_iff {waiting : List Comment} {l : TokenLine} {f : Fault} :
    stepOutside waiting l = .error f ↔ Place.Refuses .outside l f := by
  have hverb {verb : List Token} {f : Fault} {α : Type} {next : Text → Except Fault α}
      (hnext : ∀ v, next v ≠ .error f) :
      (blockVerb l verb >>= next) = .error f ↔ blockVerb l verb = .error f := by
    rw [bind_eq_error_iff]
    exact ⟨fun h => h.resolve_right fun ⟨v, _, hv⟩ => hnext v hv, .inl⟩
  constructor
  · intro h
    rw [stepOutside] at h
    cases hshape : l.shape with
    | opening verb paren =>
      simp only [hshape] at h
      rw [hverb (by simp [pure, Except.pure])] at h
      exact refuses_of_blockVerb (TokenLine.heads_iff.2 (.inl ⟨paren, hshape⟩)) h
    | emptyBlock verb closing =>
      simp only [hshape] at h
      rw [hverb (by simp [pure, Except.pure])] at h
      exact refuses_of_blockVerb (TokenLine.heads_iff.2 (.inr ⟨closing, hshape⟩)) h
    | plain =>
      have hnoHeader : ∀ verb, ¬ l.Heads verb := by
        intro verb hheads
        rw [TokenLine.heads_iff, hshape] at hheads
        simp at hheads
      simp only [hshape, bind_eq_error_iff, lineOf_eq_error_iff] at h
      rcases h with ⟨t, hfirst, rfl⟩ | ⟨_, -, h⟩
      · exact .line hnoHeader hfirst
      · cases h
  · intro h
    have hheads {verb : List Token} (heads : l.Heads verb) (h : blockVerb l verb = .error f) :
        stepOutside waiting l = .error f := by
      rw [stepOutside]
      rcases TokenLine.heads_iff.1 heads with ⟨paren, hshape⟩ | ⟨closing, hshape⟩
      · simp only [hshape]
        exact bind_eq_error_iff.2 (.inl h)
      · simp only [hshape]
        exact bind_eq_error_iff.2 (.inl h)
    cases h with
    | header heads number => exact hheads heads (blockVerb_eq_error_iff.2 (.inl ⟨number, rfl⟩))
    | verb heads isParen =>
      exact hheads heads (blockVerb_eq_error_iff.2 (.inr ⟨_, rfl, isParen, rfl⟩))
    | line noHeader first =>
      rw [stepOutside]
      cases hshape : l.shape with
      | opening verb paren =>
        exact absurd (TokenLine.heads_iff.2 (.inl ⟨paren, hshape⟩)) (noHeader verb)
      | emptyBlock verb closing =>
        exact absurd (TokenLine.heads_iff.2 (.inr ⟨closing, hshape⟩)) (noHeader verb)
      | plain => exact bind_eq_error_iff.2 (.inl (lineOf_eq_error_iff.2 ⟨_, first, rfl⟩))

theorem stepInside_eq_error_iff {header : Header} {lines : List Line} {waiting : List Comment}
    {l : TokenLine} {f : Fault} :
    stepInside header lines waiting l = .error f ↔ Place.Refuses (.inside header.verb) l f := by
  rw [stepInside]
  by_cases hfirst : l.first.text = closingParen
  · rw [if_pos hfirst]
    constructor
    · intro h
      cases hrest : l.rest with
      | nil => simp [hrest] at h
      | cons t rest =>
        rw [hrest, Except.error.injEq] at h
        exact h ▸ .afterClosing _ hfirst hrest
    · intro h
      cases h with
      | afterClosing _ _ more => rw [more]
      | child _ noClosing => exact absurd hfirst noClosing
  · rw [if_neg hfirst, bind_eq_error_iff, lineOf_eq_error_iff]
    constructor
    · rintro (⟨t, ht, rfl⟩ | ⟨_, -, h⟩)
      · exact .child _ hfirst ht
      · cases h
    · intro h
      cases h with
      | afterClosing _ isClosing => exact absurd isClosing hfirst
      | child _ _ first => exact .inl ⟨_, first, rfl⟩

/-- **A line is refused in one of these ways and in no other.** -/
theorem step_eq_error_iff {mode : Mode} {line : ScannedLine} {f : Fault} :
    step mode line = .error f ↔ ∃ l, line = .tokens l ∧ mode.place.Refuses l f := by
  cases line with
  | blank => cases mode <;> simp [step]
  | comment c => cases mode <;> simp [step]
  | tokens l =>
    simp only [ScannedLine.tokens.injEq, exists_eq_left']
    cases mode with
    | outside waiting => exact stepOutside_eq_error_iff
    | inside header lines waiting => exact stepInside_eq_error_iff

/-! ## The reader over several lines -/

/-- Allowed rows from one place to another. -/
inductive Reaches : Place → List Row → Place → Prop
  | nil (place : Place) : Reaches place [] place
  | cons {place next last : Place} {row : Row} {rows : List Row} {entries : List RowEntry}
      (first : place.Step row entries next) (rest : Reaches next rows last) :
      Reaches place (row :: rows) last

/-- A line that the reader accepts has no row, or one that is allowed. -/
theorem Mode.Step.reaches {mode mode' : Mode} {line : ScannedLine} {done : List Statement}
    (h : mode.Step line done mode') : Reaches mode.place line.row?.toList mode'.place := by
  cases h with
  | blank | comment | blankInside | commentInside => exact .nil _
  | line waiting plain => exact .cons (step_outside_iff.2 (.inl ⟨plain, rfl, rfl⟩)) (.nil _)
  | emptyBlock waiting header =>
    exact .cons (step_outside_iff.2 (.inr (.inl ⟨_, _, header, rfl, rfl⟩))) (.nil _)
  | opens waiting header =>
    exact .cons (step_outside_iff.2 (.inr (.inr ⟨_, header, rfl, rfl⟩))) (.nil _)
  | child header lines waiting plain =>
    exact .cons (step_inside_iff.2 (.inl ⟨plain, rfl, rfl⟩)) (.nil _)
  | closes header lines waiting closes =>
    exact .cons (step_inside_iff.2 (.inr ⟨closes, rfl, rfl⟩)) (.nil _)

/-- The reader accepts some lines and stands there after them. -/
inductive Mode.Reads : Mode → List ScannedLine → Mode → Prop
  | nil (mode : Mode) : Reads mode [] mode
  | cons {mode next last : Mode} {line : ScannedLine} {lines : List ScannedLine}
      {done : List Statement} (first : mode.Step line done next) (rest : Reads next lines last) :
      Reads mode (line :: lines) last

theorem Mode.Reads.append {mode next last : Mode} {l₁ l₂ : List ScannedLine}
    (h₁ : mode.Reads l₁ next) (h₂ : next.Reads l₂ last) : mode.Reads (l₁ ++ l₂) last := by
  induction h₁ with
  | nil => exact h₂
  | cons first _ ih => exact .cons first (ih h₂)

theorem Reaches.append {place next last : Place} {r₁ r₂ : List Row} (h₁ : Reaches place r₁ next)
    (h₂ : Reaches next r₂ last) : Reaches place (r₁ ++ r₂) last := by
  induction h₁ with
  | nil => exact h₂
  | cons first _ ih => exact .cons first (ih h₂)

/-- Lines that the reader accepts have allowed rows. -/
theorem Mode.Reads.reaches {mode last : Mode} {lines : List ScannedLine}
    (h : mode.Reads lines last) :
    Reaches mode.place (lines.filterMap ScannedLine.row?) last.place := by
  induction h with
  | nil => exact .nil _
  | cons first _ ih =>
    rw [filterMap_row?_cons]
    exact first.reaches.append ih

/-- Lines with allowed rows are accepted by the reader. -/
theorem exists_reads_of_reaches {mode : Mode} {lines : List ScannedLine} {place : Place}
    (h : Reaches mode.place (lines.filterMap ScannedLine.row?) place) :
    ∃ last, mode.Reads lines last ∧ last.place = place := by
  induction lines generalizing mode with
  | nil =>
    cases h
    exact ⟨mode, .nil mode, rfl⟩
  | cons line lines ih =>
    rw [filterMap_row?_cons] at h
    cases hrow : line.row? with
    | none =>
      rw [hrow] at h
      obtain ⟨done, next, hstep, hplace⟩ := exists_step_of_no_row mode line hrow
      obtain ⟨last, hreads, hlast⟩ := ih (hplace ▸ h)
      exact ⟨last, .cons hstep hreads, hlast⟩
    | some row =>
      obtain ⟨l, rfl, rfl⟩ := exists_tokens_of_row hrow
      rw [hrow] at h
      generalize hplace : mode.place = start at h
      cases h with
      | cons first rest =>
        obtain ⟨done, next, hstep, rfl⟩ := exists_step_of_placeStep (hplace ▸ first)
        obtain ⟨last, hreads, hlast⟩ := ih rest
        exact ⟨last, .cons hstep hreads, hlast⟩

theorem statementsFrom_cons (mode : Mode) (line : ScannedLine) (rest : List ScannedLine) :
    statementsFrom mode (line :: rest) = do
      let (done, next) ← step mode line
      return done ++ (← statementsFrom next rest) := by
  rw [statementsFrom, advance]
  cases step mode line with
  | error f => rfl
  | ok r =>
    simp only [statementsFrom, bind, Except.bind]
    cases advance r.2 rest with
    | error f => rfl
    | ok q =>
      simp only [pure, Except.pure]
      cases finish q.2 with
      | error f => rfl
      | ok last => simp

theorem statementsFrom_cons_eq_error_iff {mode : Mode} {line : ScannedLine}
    {rest : List ScannedLine} {f : Fault} :
    statementsFrom mode (line :: rest) = .error f ↔ step mode line = .error f ∨
      ∃ done next, mode.Step line done next ∧ statementsFrom next rest = .error f := by
  rw [statementsFrom_cons, bind_eq_error_iff]
  refine or_congr_right ⟨?_, ?_⟩
  · rintro ⟨⟨done, next⟩, hstep, h⟩
    rcases bind_eq_error_iff.1 h with hrest | ⟨_, -, h⟩
    · exact ⟨done, next, step_eq_ok_iff.1 hstep, hrest⟩
    · cases h
  · rintro ⟨done, next, hstep, hrest⟩
    exact ⟨(done, next), step_eq_ok_iff.2 hstep, bind_eq_error_iff.2 (.inl hrest)⟩

/-- Lines are refused at the first line that is, or at their end. -/
theorem statementsFrom_eq_error_iff_reads {mode : Mode} {lines : List ScannedLine} {f : Fault} :
    statementsFrom mode lines = .error f ↔
      (∃ above line below last, lines = above ++ line :: below ∧ mode.Reads above last ∧
        step last line = .error f) ∨
      ∃ last, mode.Reads lines last ∧ finish last = .error f := by
  induction lines generalizing mode with
  | nil =>
    have hend : statementsFrom mode [] = .error f ↔ finish mode = .error f := by
      rw [statementsFrom, advance, bind_eq_error_iff]
      constructor
      · rintro (h | ⟨_, hr, h⟩)
        · cases h
        · cases hr
          rcases bind_eq_error_iff.1 h with h | ⟨_, -, h⟩
          · exact h
          · cases h
      · exact fun h => .inr ⟨_, rfl, bind_eq_error_iff.2 (.inl h)⟩
    rw [hend]
    constructor
    · exact fun h => .inr ⟨mode, .nil mode, h⟩
    · rintro (⟨above, line, below, last, hlines, -, -⟩ | ⟨last, hreads, h⟩)
      · simp at hlines
      · cases hreads
        exact h
  | cons line lines ih =>
    rw [statementsFrom_cons_eq_error_iff]
    constructor
    · rintro (h | ⟨done, next, hstep, h⟩)
      · exact .inl ⟨[], line, lines, mode, rfl, .nil mode, h⟩
      · rcases ih.1 h with ⟨above, line', below, last, rfl, hreads, hrefused⟩ | ⟨last, hreads, hend⟩
        · exact .inl ⟨line :: above, line', below, last, rfl, .cons hstep hreads, hrefused⟩
        · exact .inr ⟨last, .cons hstep hreads, hend⟩
    · rintro (⟨above, line', below, last, hlines, hreads, hrefused⟩ | ⟨last, hreads, hend⟩)
      · cases hreads with
        | nil =>
          rw [List.nil_append, List.cons.injEq] at hlines
          exact .inl (hlines.1 ▸ hrefused)
        | cons first rest =>
          rw [List.cons_append, List.cons.injEq] at hlines
          obtain ⟨rfl, rfl⟩ := hlines
          exact .inr ⟨_, _, first, ih.2 (.inl ⟨_, _, _, last, rfl, rest, hrefused⟩)⟩
      · cases hreads with
        | cons first rest => exact .inr ⟨_, _, first, ih.2 (.inr ⟨last, rest, hend⟩)⟩

/-- The fault of the structure of some lines: that of the first row that is not allowed, or, where
all rows are allowed and no row closes the last block, the opening parenthesis of that block. -/
inductive BreaksStructure (lines : List ScannedLine) : Fault → Prop
  | row {above below : List ScannedLine} {l : TokenLine} {place : Place} {f : Fault}
      (split : lines = above ++ .tokens l :: below)
      (allowed : Reaches .outside (above.filterMap ScannedLine.row?) place)
      (refuses : place.Refuses l f) : BreaksStructure lines f
  | unterminated {above below : List ScannedLine} {l : TokenLine} {paren : Token}
      (split : lines = above ++ .tokens l :: below)
      (allowed : Reaches .outside (above.filterMap ScannedLine.row?) .outside)
      (opens : l.Opens paren) (inside : ∀ k, .tokens k ∈ below → k.Plain) :
      BreaksStructure lines ⟨.unterminatedBlock, paren.start⟩

/-- Where the reader stands inside a block, a row above opened it or it stood there before, and only
children follow. -/
theorem opens_or_inside_of_reads {mode last : Mode} {lines : List ScannedLine}
    (h : mode.Reads lines last) {header : Header} {children : List Line} {left : List Comment}
    (hlast : last = .inside header children left) :
    (∃ above below l paren, lines = above ++ .tokens l :: below ∧
      Reaches mode.place (above.filterMap ScannedLine.row?) .outside ∧ l.Opens paren ∧
      paren.start = header.paren ∧ ∀ k, .tokens k ∈ below → k.Plain) ∨
    (∃ children' left', mode = .inside header children' left') ∧
      ∀ k, .tokens k ∈ lines → k.Plain := by
  induction h with
  | nil => exact .inr ⟨⟨children, left, hlast⟩, by simp⟩
  | @cons mode next last line lines done first _ ih =>
    rcases ih hlast with ⟨above, below, l, paren, rfl, hreaches, hopens, hparen, hbelow⟩ |
      ⟨⟨children', left', rfl⟩, hplain⟩
    · refine .inl ⟨line :: above, below, l, paren, rfl, ?_, hopens, hparen, hbelow⟩
      rw [filterMap_row?_cons]
      exact first.reaches.append hreaches
    · cases first with
      | opens waiting hl => exact .inl ⟨[], lines, _, _, rfl, .nil _, hl, rfl, hplain⟩
      | blankInside => exact .inr ⟨⟨_, _, rfl⟩, by simpa using hplain⟩
      | commentInside => exact .inr ⟨⟨_, _, rfl⟩, by simpa using hplain⟩
      | @child _ _ _ l plain =>
        refine .inr ⟨⟨_, _, rfl⟩, fun k hk => ?_⟩
        rcases List.mem_cons.1 hk with hk | hk
        · cases hk
          exact plain
        · exact hplain k hk

/-- Inside a block the reader accepts blank lines, comments and children, and stays there. -/
theorem exists_reads_inside {lines : List ScannedLine} (h : ∀ k, .tokens k ∈ lines → k.Plain)
    (header : Header) (children : List Line) (left : List Comment) :
    ∃ children' left',
      (Mode.inside header children left).Reads lines (.inside header children' left') := by
  induction lines generalizing children left with
  | nil => exact ⟨children, left, .nil _⟩
  | cons line lines ih =>
    have hrest : ∀ k, .tokens k ∈ lines → k.Plain := fun k hk => h k (List.mem_cons_of_mem _ hk)
    cases line with
    | blank =>
      obtain ⟨children', left', hreads⟩ := ih hrest children left
      exact ⟨children', left', .cons (.blankInside _ _ _) hreads⟩
    | comment c =>
      obtain ⟨children', left', hreads⟩ := ih hrest children (left ++ [c])
      exact ⟨children', left', .cons (.commentInside _ _ _ c) hreads⟩
    | tokens l =>
      obtain ⟨children', left', hreads⟩ := ih hrest (children ++ [l.toLine left true]) []
      exact ⟨children', left', .cons (.child _ _ _ (h l List.mem_cons_self)) hreads⟩

/-- **Lines are refused for the fault of their structure.** -/
theorem statementsFrom_eq_error_iff {waiting : List Comment} {lines : List ScannedLine}
    {f : Fault} :
    statementsFrom (.outside waiting) lines = .error f ↔ BreaksStructure lines f := by
  rw [statementsFrom_eq_error_iff_reads]
  constructor
  · rintro (⟨above, line, below, last, hlines, hreads, hrefused⟩ | ⟨last, hreads, hend⟩)
    · obtain ⟨l, rfl, hrefuses⟩ := step_eq_error_iff.1 hrefused
      exact .row hlines hreads.reaches hrefuses
    · cases last with
      | outside left => simp [finish] at hend
      | inside header children left =>
        rw [finish, Except.error.injEq] at hend
        rcases opens_or_inside_of_reads hreads rfl with
          ⟨above, below, l, paren, hlines, hreaches, hopens, hparen, hbelow⟩ | ⟨⟨_, _, hmode⟩, -⟩
        · rw [← hend, ← hparen]
          exact .unterminated hlines hreaches hopens hbelow
        · cases hmode
  · intro h
    cases h with
    | @row above below l place f split allowed refuses =>
      have hallowed : Reaches (Mode.outside waiting).place _ place := allowed
      obtain ⟨last, hreads, rfl⟩ := exists_reads_of_reaches hallowed
      exact .inl ⟨above, _, below, last, split, hreads, step_eq_error_iff.2 ⟨l, rfl, refuses⟩⟩
    | @unterminated above below l paren split allowed opens inside =>
      have hallowed : Reaches (Mode.outside waiting).place _ .outside := allowed
      obtain ⟨last, hreads, hlast⟩ := exists_reads_of_reaches hallowed
      cases last with
      | inside => cases hlast
      | outside left =>
        let header : Header := ⟨l.first.start, paren.start, l.first.text, ⟨left, l.suffix⟩⟩
        obtain ⟨children, left', hinside⟩ := exists_reads_inside inside header [] []
        refine .inr ⟨.inside header children left', ?_, rfl⟩
        rw [split]
        exact hreads.append (.cons (.opens left opens) hinside)

end ManifestPolicy.Manifest
