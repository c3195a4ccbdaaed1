import ManifestPolicy.Proofs.Acceptance

/-!
# Related lines form related statements

Two texts are compared by a relation on their lines with tokens and a relation on their comments.
Whatever the relations are, the second text has a derivation where the first has one, as long as
related lines have their parentheses at the same places, and the statements of both stand for
related lines.

The induction over a derivation is made here once. A change to a text is then a relation on lines:
other comments, other columns, or another spelling of a token.

## Main definitions

* `TokenLine.SameParens`: two lines with their parentheses at the same places.
* `StandFor`, `StatementsFor`: lines and statements that stand for related lines.

## Main statements

* `exists_body_of_related`: related lines of a block form children that stand for related lines.
* `exists_layout_of_related`: related lines form statements that stand for related lines.
-/

namespace ManifestPolicy.Manifest

/-- Both tokens are the same parenthesis, or neither is one. -/
structure Token.SameParen (t t' : Token) : Prop where
  opening : t'.text = openingParen ↔ t.text = openingParen
  closing : t'.text = closingParen ↔ t.text = closingParen

/-- The lines have equally many tokens, and their parentheses at the same places. -/
def TokenLine.SameParens (l l' : TokenLine) : Prop :=
  List.Forall₂ Token.SameParen l.tokens l'.tokens

theorem sameParen_of_text {t t' : Token}
    (h : t'.text = t.text ∨ t.isParen = false ∧ t'.isParen = false) : t.SameParen t' := by
  rcases h with htext | ⟨ht, ht'⟩
  · exact ⟨by rw [htext], by rw [htext]⟩
  · rw [Token.isParen_eq_false_iff] at ht ht'
    exact ⟨iff_of_false ht'.1 ht.1, iff_of_false ht'.2 ht.2⟩

/-- Lines with the same texts are such lines. -/
theorem TokenLine.sameParens_of_texts {l l' : TokenLine}
    (h : l'.tokens.map Token.text = l.tokens.map Token.text) : l.SameParens l' := by
  rw [← List.forall₂_eq_eq_eq, List.forall₂_map_left_iff, List.forall₂_map_right_iff] at h
  exact h.flip.imp fun _ _ htext => sameParen_of_text (.inl htext)

theorem TokenLine.sameParens_refl (l : TokenLine) : l.SameParens l :=
  sameParens_of_texts rfl

/-- Lines without parentheses and with equally many tokens are such lines. -/
theorem TokenLine.sameParens_of_plain {l l' : TokenLine} (plain : l.Plain) (plain' : l'.Plain)
    (h : l.tokens.length = l'.tokens.length) : l.SameParens l' :=
  List.forall₂_iff_get.2 ⟨h, fun _ _ _ =>
    sameParen_of_text (.inr ⟨plain _ (List.get_mem _ _), plain' _ (List.get_mem _ _)⟩)⟩

section

variable {l l' : TokenLine}

theorem Token.SameParen.isParen_eq_false {t t' : Token} (h : t.SameParen t')
    (ht : t.isParen = false) : t'.isParen = false := by
  rw [Token.isParen_eq_false_iff] at ht ⊢
  exact ⟨fun hopen => ht.1 (h.opening.1 hopen), fun hclose => ht.2 (h.closing.1 hclose)⟩

theorem TokenLine.SameParens.plain (h : l.SameParens l') (plain : l.Plain) : l'.Plain := by
  intro t' ht'
  obtain ⟨t, ht, hsame⟩ := exists_of_forall₂_left h.flip t' ht'
  exact hsame.isParen_eq_false (plain t ht)

theorem TokenLine.SameParens.opens (h : l.SameParens l') {paren : Token} (opens : l.Opens paren) :
    ∃ paren', l'.Opens paren' := by
  obtain ⟨hrest, hverb, hparen⟩ := opens
  rw [TokenLine.SameParens, tokens, hrest, tokens] at h
  generalize hrest' : l'.rest = rest' at h
  cases h with
  | cons hfirst h =>
    cases h with
    | cons hsecond h =>
      cases h
      exact ⟨_, hrest', hfirst.isParen_eq_false hverb, hsecond.opening.2 hparen⟩

theorem TokenLine.SameParens.opensAndCloses (h : l.SameParens l') {paren closing : Token}
    (header : l.OpensAndCloses paren closing) :
    ∃ paren' closing', l'.OpensAndCloses paren' closing' := by
  obtain ⟨hrest, hverb, hparen, hclosing⟩ := header
  rw [TokenLine.SameParens, tokens, hrest, tokens] at h
  generalize hrest' : l'.rest = rest' at h
  cases h with
  | cons hfirst h =>
    cases h with
    | cons hsecond h =>
      cases h with
      | cons hthird h =>
        cases h
        exact ⟨_, _, hrest', hfirst.isParen_eq_false hverb, hsecond.opening.2 hparen,
          hthird.closing.2 hclosing⟩

theorem TokenLine.SameParens.closes (h : l.SameParens l') (closes : l.Closes) : l'.Closes := by
  obtain ⟨hclosing, hrest⟩ := closes
  rw [TokenLine.SameParens, tokens, hrest, tokens] at h
  generalize hrest' : l'.rest = rest' at h
  cases h with
  | cons hfirst h =>
    cases h
    exact ⟨hfirst.closing.2 hclosing, hrest'⟩

end

section

variable (K : TokenLine → TokenLine → Prop) (Q : Comment → Comment → Prop)

/-- Scanned lines of the same kind that are related. -/
inductive ScannedLine.Related : ScannedLine → ScannedLine → Prop
  | blank : Related .blank .blank
  | comment {c c' : Comment} (comments : Q c c') : Related (.comment c) (.comment c')
  | tokens {l l' : TokenLine} (lines : K l l') : Related (.tokens l) (.tokens l')

/-- Two lines that stand for related lines, below related comments. -/
inductive StandFor (inBlock : Bool) : Line → Line → Prop
  | intro {l l' : TokenLine} {above above' : List Comment} (lines : K l l') (plain : l.Plain)
      (comments : List.Forall₂ Q above above') :
      StandFor inBlock (l.toLine above inBlock) (l'.toLine above' inBlock)

/-- Two statements that stand for related lines. -/
inductive StatementsFor : Statement → Statement → Prop
  | line {l l' : Line} (lines : StandFor K Q false l l') : StatementsFor (.line l) (.line l')
  | emptyBlock {header header' : TokenLine} {paren paren' closing closing' : Token}
      {above above' : List Comment} (headers : K header header')
      (opens : header.OpensAndCloses paren closing)
      (opens' : header'.OpensAndCloses paren' closing') (comments : List.Forall₂ Q above above') :
      StatementsFor (.block (header.toEmptyBlock above closing))
        (.block (header'.toEmptyBlock above' closing'))
  | block {header header' closing closing' : TokenLine} {paren : Token}
      {above above' left left' : List Comment} {children children' : List Line}
      (headers : K header header') (opens : header.Opens paren) (closings : K closing closing')
      (comments : List.Forall₂ Q above above') (lefts : List.Forall₂ Q left left')
      (lines : List.Forall₂ (StandFor K Q true) children children') :
      StatementsFor (.block (header.toBlock above children left closing))
        (.block (header'.toBlock above' children' left' closing'))
  | comments {waiting waiting' : List Comment} {r r' : CommentRun}
      (comments : List.Forall₂ Q waiting waiting') (run : standalone waiting = [.comments r])
      (run' : standalone waiting' = [.comments r']) : StatementsFor (.comments r) (.comments r')

end

section

variable {K : TokenLine → TokenLine → Prop} {Q : Comment → Comment → Prop}

theorem statementsFor_standalone {waiting waiting' : List Comment}
    (h : List.Forall₂ Q waiting waiting') :
    List.Forall₂ (StatementsFor K Q) (standalone waiting) (standalone waiting') := by
  cases h with
  | nil => exact .nil
  | cons hfirst hrest => exact .cons (.comments (.cons hfirst hrest) rfl rfl) .nil

/-- What is the same of related elements is the same of the lists. -/
theorem map_eq_of_forall₂ {α β : Type} {f : α → β} {l l' : List α}
    (h : List.Forall₂ (fun a a' => f a' = f a) l l') : l'.map f = l.map f := by
  induction h with
  | nil => rfl
  | cons hfirst _ ih => rw [List.map_cons, List.map_cons, hfirst, ih]

theorem exists_append_of_forall₂ {α β : Type} {p : α → β → Prop} {l₁ l₂ : List α} {l' : List β}
    (h : List.Forall₂ p (l₁ ++ l₂) l') :
    ∃ l₁' l₂', l' = l₁' ++ l₂' ∧ List.Forall₂ p l₁ l₁' ∧ List.Forall₂ p l₂ l₂' := by
  induction l₁ generalizing l' with
  | nil => exact ⟨[], l', rfl, .nil, h⟩
  | cons a l₁ ih =>
    cases h with
    | cons hab h =>
      obtain ⟨l₁', l₂', rfl, h₁, h₂⟩ := ih h
      exact ⟨_ :: l₁', l₂', rfl, .cons hab h₁, h₂⟩

variable (hK : ∀ l l', K l l' → l.SameParens l')

include hK

/-- Related lines of a block form children that stand for related lines. -/
theorem exists_body_of_related {waiting waiting' left : List Comment}
    {body body' : List ScannedLine} {children : List Line} (h : Body waiting body children left)
    (hbody : List.Forall₂ (ScannedLine.Related K Q) body body')
    (hwaiting : List.Forall₂ Q waiting waiting') :
    ∃ children' left', Body waiting' body' children' left' ∧
      List.Forall₂ (StandFor K Q true) children children' ∧ List.Forall₂ Q left left' := by
  induction h generalizing waiting' body' with
  | done waiting =>
    cases hbody
    exact ⟨[], waiting', .done waiting', .nil, hwaiting⟩
  | blank _ ih =>
    cases hbody with
    | cons hline hbody =>
      cases hline
      obtain ⟨children', left', hrest, hchildren⟩ := ih hbody hwaiting
      exact ⟨children', left', .blank hrest, hchildren⟩
  | comment c _ ih =>
    cases hbody with
    | cons hline hbody =>
      cases hline with
      | @comment _ c' hc =>
        obtain ⟨children', left', hrest, hchildren⟩ :=
          ih hbody (List.rel_append hwaiting (.cons hc .nil))
        exact ⟨children', left', .comment c' hrest, hchildren⟩
  | child l plain _ ih =>
    cases hbody with
    | cons hline hbody =>
      cases hline with
      | @tokens _ l' hl =>
        obtain ⟨children', left', hrest, hchildren, hleft⟩ := ih hbody .nil
        exact ⟨_, left', .child l' ((hK l l' hl).plain plain) hrest,
          .cons (.intro hl plain hwaiting) hchildren, hleft⟩

/-- Related lines form statements that stand for related lines. -/
theorem exists_layout_of_related {waiting waiting' : List Comment}
    {lines lines' : List ScannedLine} {statements : List Statement}
    (h : Layout waiting lines statements)
    (hlines : List.Forall₂ (ScannedLine.Related K Q) lines lines')
    (hwaiting : List.Forall₂ Q waiting waiting') :
    ∃ statements', Layout waiting' lines' statements' ∧
      List.Forall₂ (StatementsFor K Q) statements statements' := by
  induction h generalizing waiting' lines' with
  | done waiting =>
    cases hlines
    exact ⟨_, .done waiting', statementsFor_standalone hwaiting⟩
  | blank waiting _ ih =>
    cases hlines with
    | cons hline hlines =>
      cases hline
      obtain ⟨statements', hrest, hstatements⟩ := ih hlines .nil
      exact ⟨_, .blank waiting' hrest,
        List.rel_append (statementsFor_standalone hwaiting) hstatements⟩
  | comment c _ ih =>
    cases hlines with
    | cons hline hlines =>
      cases hline with
      | @comment _ c' hc =>
        obtain ⟨statements', hrest, hstatements⟩ :=
          ih hlines (List.rel_append hwaiting (.cons hc .nil))
        exact ⟨statements', .comment c' hrest, hstatements⟩
  | line waiting l plain _ ih =>
    cases hlines with
    | cons hline hlines =>
      cases hline with
      | @tokens _ l' hl =>
        obtain ⟨statements', hrest, hstatements⟩ := ih hlines .nil
        exact ⟨_, .line waiting' l' ((hK l l' hl).plain plain) hrest,
          .cons (.line (.intro hl plain hwaiting)) hstatements⟩
  | emptyBlock waiting l header _ ih =>
    cases hlines with
    | cons hline hlines =>
      cases hline with
      | @tokens _ l' hl =>
        obtain ⟨paren', closing', header'⟩ := (hK l l' hl).opensAndCloses header
        obtain ⟨statements', hrest, hstatements⟩ := ih hlines .nil
        exact ⟨_, .emptyBlock waiting' l' header' hrest,
          .cons (.emptyBlock hl header header' hwaiting) hstatements⟩
  | block waiting l header inside closing closes _ ih =>
    cases hlines with
    | cons hline hlines =>
      obtain ⟨body', below', rfl, hbody, hbelow⟩ := exists_append_of_forall₂ hlines
      cases hline with
      | @tokens _ l' hl =>
        cases hbelow with
        | cons hclosing hrest =>
          cases hclosing with
          | @tokens _ closing' hc =>
            obtain ⟨paren', header'⟩ := (hK l l' hl).opens header
            obtain ⟨children', left', inside', hchildren, hleft⟩ :=
              exists_body_of_related hK inside hbody .nil
            obtain ⟨statements', below, hstatements⟩ := ih hrest .nil
            exact ⟨_, .block waiting' l' header' inside' closing' ((hK _ _ hc).closes closes) below,
              .cons (.block hl header hc hwaiting hleft hchildren) hstatements⟩

end

end ManifestPolicy.Manifest
