import ManifestPolicy.Proofs.OutlyingComments

/-!
# Manifests with related lines

A line of a text can be changed without a change to what the manifest declares, as when a token of
it is spelled in another way. Related lines form statements that stand for related lines, so the
entries of both texts stand on related lines as well. Where the relation keeps the places and the
texts of comments, the entries take the same policies.

What remains to be done for a change to a text is to say how it relates the lines, and to see
from the lines what becomes of the entries.

## Main definitions

* `EntryFor`: entries that stand on related lines.
* `Keeps`: what a relation on lines must keep for the policies to stay.
* `SamePolicies`: lines that take the same policies in two manifests.

## Main statements

* `Keeps.exists_layout`: the entries of both texts take the same policies.
* `exists_declarations_of_restated`: entries that say the same resolve to the same.
* `eq_of_mem_entries`: no two entries stand on one line.
-/

namespace ManifestPolicy

namespace Manifest

/-- Two entries that stand on related lines. -/
inductive EntryFor (K : TokenLine → TokenLine → Prop) (Q : Comment → Comment → Prop) :
    Entry → Entry → Prop
  | line {l l' : TokenLine} {above above' : List Comment} (lines : K l l') (plain : l.Plain)
      (comments : List.Forall₂ Q above above') :
      EntryFor K Q ⟨l.first.text, l.rest.map Token.text, l.toLine above false⟩
        ⟨l'.first.text, l'.rest.map Token.text, l'.toLine above' false⟩
  | child {header header' l l' : TokenLine} {paren : Token} {above above' : List Comment}
      (headers : K header header') (opens : header.Opens paren) (lines : K l l')
      (plain : l.Plain) (comments : List.Forall₂ Q above above') :
      EntryFor K Q ⟨header.first.text, l.tokens.map Token.text, l.toLine above true⟩
        ⟨header'.first.text, l'.tokens.map Token.text, l'.toLine above' true⟩

/-- Lines that take the same policies in two manifests, and stand at the same place. -/
structure SamePolicies (m m' : Manifest) (l l' : Line) : Prop where
  start : l'.start.line = l.start.line
  own : ∀ ns, l'.policy? ns = l.policy? ns
  block : ∀ ns, m'.blockPolicy? ns l' = m.blockPolicy? ns l

/-- Related lines have their parentheses at the same places and comments with the same texts, and
stand at the same places. -/
structure Keeps (K : TokenLine → TokenLine → Prop) (Q : Comment → Comment → Prop) : Prop where
  parens : ∀ l l', K l l' → l.SameParens l'
  number : ∀ l l', K l l' → l'.first.start.line = l.first.start.line
  suffix : ∀ l l', K l l' → l'.suffix.map Comment.text = l.suffix.map Comment.text
  text : ∀ c c', Q c c' → c'.text = c.text

theorem policies_eq_of_map_text {ns : Text} {comments comments' : List Comment}
    (h : comments'.map Comment.text = comments.map Comment.text) :
    Directive.policies ns comments' = Directive.policies ns comments := by
  rw [Directive.policies_map_text, Directive.policies_map_text, h]

section

variable {K : TokenLine → TokenLine → Prop} {Q : Comment → Comment → Prop} (hkeeps : Keeps K Q)

include hkeeps

theorem Keeps.policies_eq {l l' : TokenLine} {above above' : List Comment} (hl : K l l')
    (habove : List.Forall₂ Q above above') (ns : Text) :
    Directive.policies ns (above' ++ l'.suffix) = Directive.policies ns (above ++ l.suffix) := by
  have htexts : above'.map Comment.text = above.map Comment.text :=
    map_eq_of_forall₂ (habove.imp hkeeps.text)
  refine policies_eq_of_map_text ?_
  rw [List.map_append, List.map_append, htexts, hkeeps.suffix l l' hl]

/-- Entries of statements that stand for related lines stand on related lines, and take the same
policies. -/
theorem Keeps.entriesOf {m m' : Manifest} {s s' : Statement} (h : StatementsFor K Q s s')
    (hgives : ∀ ns, Statement.Gives ns (m.blockPolicy? ns) s)
    (hgives' : ∀ ns, Statement.Gives ns (m'.blockPolicy? ns) s') :
    List.Forall₂ (fun e e' => EntryFor K Q e e' ∧ SamePolicies m m' e.line e'.line)
      (entriesOf s) (entriesOf s') := by
  cases h with
  | comments | emptyBlock => exact .nil
  | line lines =>
    cases lines with
    | @intro l l' _ _ hl plain habove =>
      refine .cons ⟨.line hl plain habove, hkeeps.number l l' hl, fun ns => ?_, fun ns => ?_⟩ .nil
      · exact congrArg List.getLast? (hkeeps.policies_eq hl habove ns)
      · exact (hgives' ns).trans (hgives ns).symm
  | @block header header' closing closing' paren above above' left left' children children'
      headers opens _ comments _ lines =>
    change List.Forall₂ _ (children.map _) (children'.map _)
    rw [List.forall₂_map_left_iff, List.forall₂_map_right_iff]
    refine forall₂_imp_of_mem lines fun c hc c' hc' hline => ?_
    have hblock (ns : Text) : m'.blockPolicy? ns c' = m.blockPolicy? ns c := by
      rw [hgives ns c hc, hgives' ns c' hc']
      exact congrArg List.head? (hkeeps.policies_eq headers comments ns)
    cases hline with
    | @intro l l' _ _ hl plain habove =>
      exact ⟨.child headers opens hl plain habove, hkeeps.number l l' hl,
        fun ns => congrArg List.getLast? (hkeeps.policies_eq hl habove ns), hblock⟩

/-- Where the lines of a text have a derivation, related lines have one, and the entries of both
take the same policies. -/
theorem Keeps.exists_layout {n : Int} {lines lines' : List ScannedLine}
    {statements : List Statement} (h : Layout [] lines statements)
    (hlines : List.Forall₂ (ScannedLine.Related K Q) lines lines') (hnumbered : Numbered n lines)
    (hnumbered' : Numbered n lines') :
    ∃ statements', Layout [] lines' statements' ∧ ∀ name d d', List.Forall₂
      (fun e e' => EntryFor K Q e e' ∧ SamePolicies (ofDeclarations name statements d)
        (ofDeclarations name statements' d') e.line e'.line)
      (statements.flatMap Manifest.entriesOf) (statements'.flatMap Manifest.entriesOf) := by
  obtain ⟨statements', hlayout', hstatements⟩ :=
    exists_layout_of_related hkeeps.parens h hlines .nil
  refine ⟨statements', hlayout', fun name d d' => ?_⟩
  refine List.rel_flatMap (forall₂_imp_of_mem hstatements fun s hs s' hs' hss => ?_) fun _ _ h => h
  exact hkeeps.entriesOf hss
    (fun ns => gives_of_ordered (m := ofDeclarations name statements d)
      (ordered_of_numbered h hnumbered) (wellNested_of_layout h hnumbered) s hs)
    fun ns => gives_of_ordered (m := ofDeclarations name statements' d')
      (ordered_of_numbered hlayout' hnumbered') (wellNested_of_layout hlayout' hnumbered') s' hs'

end

/-- Declarations that say the same, on lines with the same policies, resolve to the same, if the
go entry is refused in both or in neither. -/
theorem resolve_eq_of_samePolicies {ns nilPolicy : Text} {m m' : Manifest}
    (h : Declarations.Related (fun _ => SamePolicies m m') m.declared m'.declared)
    (hmisplaced : m'.misplaced? ns = m.misplaced? ns) :
    m'.resolve ns nilPolicy = m.resolve ns nilPolicy := by
  have hdefault : m'.defaultPolicy? ns = m.defaultPolicy? ns :=
    bind_eq_of_rel h.module fun _ _ he => he.2.own ns
  refine resolve_congr hmisplaced (h.requirements.imp fun r r' ⟨hpath, hline⟩ => ?_)
  refine ⟨hpath, hline.start, ?_⟩
  rw [effectivePolicy, effectivePolicy, hline.own ns, hline.block ns, hdefault]

/-- What the line of an entry keeps: its policies, and all of it for the go entry, where the place
of a comment is reported. -/
structure KeepsLine (m m' : Manifest) (verb : Text) (l l' : Line) : Prop where
  policies : SamePolicies m m' l l'
  go : verb = Text.ofString "go" → l' = l

/-- Statements whose entries are restated and keep their lines declare requirements of the same
paths, and resolve to the same. -/
theorem exists_declarations_of_restated {name : Text} {statements statements' : List Statement}
    {d : Declarations} (hd : declarations statements = .ok d)
    (h : List.Forall₂ (Entry.Restated (KeepsLine (ofDeclarations name statements {})
      (ofDeclarations name statements' {})))
      (statements.flatMap entriesOf) (statements'.flatMap entriesOf)) :
    ∃ d', declarations statements' = .ok d' ∧
      d'.requirements.map Requirement.path = d.requirements.map Requirement.path ∧
      ∀ ns nilPolicy, (ofDeclarations name statements' d').resolve ns nilPolicy =
        (ofDeclarations name statements d).resolve ns nilPolicy := by
  obtain ⟨d', hd', hrelated⟩ := related_of_restated h hd
  have hpolicies : Declarations.Related (fun _ => SamePolicies (ofDeclarations name statements d)
      (ofDeclarations name statements' d')) d d' :=
    hrelated.imp fun _ l l' ⟨⟨hstart, hown, hblock⟩, _⟩ => ⟨hstart, hown, hblock⟩
  have hpaths := map_eq_of_forall₂ (hrelated.requirements.imp fun _ _ hr => hr.1)
  refine ⟨d', hd', hpaths, fun ns nilPolicy => resolve_eq_of_samePolicies hpolicies ?_⟩
  exact bind_eq_of_rel hrelated.go fun e e' he => by rw [he.2.go rfl]; rfl

/-- The entries of a statement stand between its first line and its last one. -/
theorem span_of_mem_entriesOf {s : Statement} {e : Entry} (hwell : s.WellNested)
    (h : e ∈ entriesOf s) :
    s.start.line ≤ e.line.start.line ∧ e.line.start.line ≤ s.stop.line := by
  have hmem := line_mem_of_mem_entriesOf h
  cases s with
  | line l =>
    rw [List.mem_singleton.1 hmem]
    exact ⟨Int.le_refl _, Int.le_of_eq hwell.2⟩
  | block b =>
    have hlower := hwell.lower _ hmem
    have hupper := hwell.upper _ hmem
    have honeLine := hwell.oneLine _ hmem
    exact ⟨by simp only [Statement.start]; omega, by simp only [Statement.stop]; omega⟩
  | comments r => simp [Statement.lines] at hmem

/-- Entries stand one below the other. -/
theorem entries_pairwise {n : Int} {statements : List Statement} (hordered : Ordered n statements)
    (hwell : ∀ s ∈ statements, s.WellNested) :
    (statements.flatMap entriesOf).Pairwise fun e e' => e.line.start.line < e'.line.start.line := by
  rw [List.pairwise_flatMap]
  constructor
  · intro s hs
    cases s with
    | line l =>
      rw [entriesOf]
      split
      · exact .nil
      · exact List.pairwise_singleton _ _
    | block b =>
      rw [entriesOf]
      split
      · exact .nil
      · exact List.pairwise_map.2 (hwell _ hs).sorted
    | comments r => exact .nil
  · refine List.Pairwise.imp_of_mem ?_ hordered.pairwise
    intro s t hs ht hlt e he e' he'
    have hstop := (span_of_mem_entriesOf (hwell s hs) he).2
    have hstart := (span_of_mem_entriesOf (hwell t ht) he').1
    have htop := (hordered.bounds t ht).2.1
    omega

/-- No two entries stand on one line. -/
theorem eq_of_mem_entries {n : Int} {statements : List Statement} (hordered : Ordered n statements)
    (hwell : ∀ s ∈ statements, s.WellNested) {e e' : Entry} (he : e ∈ statements.flatMap entriesOf)
    (he' : e' ∈ statements.flatMap entriesOf) (hline : e.line.start.line = e'.line.start.line) :
    e = e' := by
  have hnodup : ((statements.flatMap entriesOf).map fun e => e.line.start.line).Nodup :=
    List.pairwise_map.2 ((entries_pairwise hordered hwell).imp Int.ne_of_lt)
  exact List.inj_on_of_nodup_map hnodup he he' hline

/-- An entry stands on a line with tokens that is no part of the parentheses of a block. The
lines are related to themselves to see where it comes from. -/
theorem exists_tokens_of_mem_entries {n : Int} {lines : List ScannedLine}
    {statements : List Statement} (h : Layout [] lines statements) (hnumbered : Numbered n lines)
    {e : Entry} (he : e ∈ statements.flatMap entriesOf) :
    ∃ l above inBlock, .tokens l ∈ lines ∧ l.Plain ∧ e.line = l.toLine above inBlock := by
  have hkeeps : Keeps (fun l l' => l' = l ∧ .tokens l ∈ lines) Eq := by
    constructor
    · rintro l _ ⟨rfl, -⟩
      exact TokenLine.sameParens_refl _
    · rintro l _ ⟨rfl, -⟩
      rfl
    · rintro l _ ⟨rfl, -⟩
      rfl
    · rintro c _ rfl
      rfl
  have hself : List.Forall₂
      (ScannedLine.Related (fun l l' => l' = l ∧ .tokens l ∈ lines) Eq) lines lines := by
    rw [List.forall₂_same]
    intro line hline
    cases line with
    | blank => exact .blank
    | comment c => exact .comment rfl
    | tokens l => exact .tokens ⟨rfl, hline⟩
  obtain ⟨statements', -, hentries⟩ :=
    hkeeps.exists_layout h hself hnumbered hnumbered
  obtain ⟨e', -, hentry, -⟩ := exists_of_forall₂_left (hentries [] {} {}) e he
  cases hentry with
  | line lines plain => exact ⟨_, _, _, lines.2, plain, rfl⟩
  | child _ _ lines plain => exact ⟨_, _, _, lines.2, plain, rfl⟩

/-- The lines have the numbers from the first one on. -/
theorem Numbered.bounds {n : Int} {lines : List ScannedLine} (h : Numbered n lines) {l : TokenLine}
    (hl : .tokens l ∈ lines) :
    n ≤ l.first.start.line ∧ l.first.start.line < n + lines.length := by
  induction h with
  | nil => simp at hl
  | cons first _ ih =>
    rw [add_length_cons]
    rcases List.mem_cons.1 hl with rfl | hl
    · have hfirst := first.first.1
      omega
    · obtain ⟨hlower, hupper⟩ := ih hl
      omega

/-- The only line with tokens of this number is the one between the lines above and below. -/
theorem eq_of_number {n : Int} {above below : List ScannedLine} {l t : TokenLine}
    (hnumbered : Numbered n (above ++ .tokens l :: below))
    (ht : .tokens t ∈ above ++ .tokens l :: below)
    (hnumber : t.first.start.line = n + above.length) : t = l := by
  obtain ⟨habove, hrest⟩ := numbered_append_iff.1 hnumbered
  obtain ⟨-, hbelow⟩ := numbered_cons_iff.1 hrest
  rcases List.mem_append.1 ht with ht | ht
  · have hlt := (habove.bounds ht).2
    omega
  · rcases List.mem_cons.1 ht with ht | ht
    · exact ScannedLine.tokens.inj ht
    · have hle := (hbelow.bounds ht).1
      omega

end Manifest

end ManifestPolicy
