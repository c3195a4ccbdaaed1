import ManifestPolicy.Proofs.CommentEdits
import ManifestPolicy.Proofs.Flattening
import Mathlib.Data.List.Forall2

/-!
# Blocks of requirements are sugar

A manifest and the same manifest without its blocks of requirements resolve to the same
policies. The two ways differ: the policy of a block is the first directive of its opening
line, and the block is found by its place; a flat requirement has the policy of its block
as a directive of its own, of which the last one counts. They agree because that directive
stands above all others, so it counts only where the requirement has no directive itself.

The argument goes over the entries in order. An entry and the one that stands for it say the same,
so both are accepted, on lines that keep the policies of all requirements.

## Main definitions

* `FlatLine`: the line of an entry and the one that stands for it.
* `SameOutcome`: two resolutions that differ in line numbers alone.
* `flatLines`: the lines of a manifest without its blocks of requirements.

## Main statements

* `related_of_flattens`: the entries of both manifests say the same.
* `sameOutcome_of_related`: the flat declarations resolve to the same policies.
* `read_flat`: blocks of requirements are sugar.
-/

namespace ManifestPolicy

theorem Comments.map_text_all (c : Comments) :
    c.all.map Comment.text = c.before.map Comment.text ++ c.suffix.map Comment.text :=
  List.map_append

theorem Directive.filterMap_written {ns : Text} (hns : Writable ns) {policy : Option Text}
    (hpolicy : ∀ p ∈ policy, p ≠ [] ∧ ∀ c ∈ p, c.isBlank = false) :
    (policy.toList.map (written ns)).filterMap (policy? ns) = policy.toList := by
  cases policy with
  | none => rfl
  | some p =>
    obtain ⟨hne, hblank⟩ := hpolicy p rfl
    have hwritten := policy?_written hns hne hblank
    simp [hwritten]

/-- A flat requirement has the policy of its child, or else the one of the block. -/
theorem Line.StandsFor.policy? {ns : Text} {policy : Option Text} {l l' : Line}
    (h : l.StandsFor ns policy l') (hns : Directive.Writable ns)
    (hpolicy : ∀ p ∈ policy, p ≠ [] ∧ ∀ c ∈ p, c.isBlank = false) :
    l'.policy? ns = (l.policy? ns).or policy := by
  have hall : l'.comments.all.map Comment.text =
      policy.toList.map (Directive.written ns) ++ l.comments.all.map Comment.text := by
    rw [Comments.map_text_all, Comments.map_text_all, h.before, h.suffix, List.append_assoc]
  rw [Line.policy?, Line.policy?, Directive.policies_map_text, hall, List.filterMap_append,
    Directive.filterMap_written hns hpolicy, ← Directive.policies_map_text,
    List.getLast?_append]
  cases policy with
  | none => rfl
  | some p => rfl

namespace Manifest

/-- The line of an entry and the one that stands for it in the flat manifest. What a line takes
from its block is given by `policyOf`. -/
structure FlatLine (ns : Text) (policyOf : Line → Option Text) (verb : Text) (l l' : Line) :
    Prop where
  /-- A requirement has the policy of its block as its own. -/
  require : verb = requireVerb → l'.inBlock = false ∧
    l'.policy? ns = (l.policy? ns).or (policyOf l)
  /-- The line of any other entry is the same. -/
  other : verb ≠ requireVerb → ∃ f, l' = l.renumber f

section

variable {ns : Text} {policyOf : Line → Option Text}

/-- A statement that is kept has the same entries. -/
theorem related_renumber {s : Statement} (other : s.isRequireBlock = false) (f : Int → Int)
    (hline : ∀ l, s = .line l → l.inBlock = false)
    (hnone : ∀ l : Line, l.inBlock = false → policyOf l = none) :
    List.Forall₂ (Entry.Related (FlatLine ns policyOf)) (entriesOf s)
      (entriesOf (s.renumber f)) := by
  cases s with
  | comments r => exact .nil
  | line l =>
    have houtside := hline l rfl
    have htokens : (l.renumber f).tokens = l.tokens := rfl
    rw [Statement.renumber, Statement.relocate, entriesOf, entriesOf, htokens]
    cases l.tokens with
    | nil => exact .nil
    | cons verb arguments =>
      refine .cons ⟨rfl, rfl, fun _ => ⟨houtside, ?_⟩, fun _ => ⟨f, rfl⟩⟩ .nil
      rw [Line.policy?_relocate, hnone l houtside, Option.or_none]
  | block b =>
    have htokens : (b.renumber f).tokens = b.tokens := rfl
    have hlines : (b.renumber f).lines = b.lines.map (Line.renumber f) := rfl
    rw [Statement.renumber, Statement.relocate, entriesOf, entriesOf, htokens, hlines]
    cases hb : b.tokens with
    | nil => exact .nil
    | cons verb more =>
      have hverb : verb ≠ requireVerb := by
        simpa [Statement.isRequireBlock, Block.isRequire, hb] using other
      simp only [List.forall₂_map_left_iff, List.forall₂_map_right_iff, List.forall₂_same]
      exact fun l _ => ⟨rfl, rfl, fun h => absurd h hverb, fun _ => ⟨f, rfl⟩⟩

/-- The children of a block of requirements have the entries of their lines. -/
theorem related_children {policy : Option Text} {children lines : List Line}
    (h : List.Forall₂ (Line.StandsFor ns policy) children lines) (hns : Directive.Writable ns)
    (hpolicy : ∀ p ∈ policy, p ≠ [] ∧ ∀ c ∈ p, c.isBlank = false)
    (hof : ∀ l ∈ children, policyOf l = policy) :
    List.Forall₂ (Entry.Related (FlatLine ns policyOf))
      (children.map fun l => ⟨requireVerb, l.tokens, l⟩)
      ((lines.map Statement.line).flatMap entriesOf) := by
  induction h with
  | nil => exact .nil
  | @cons l l' children lines hl _ ih =>
    have hrest := ih fun k hk => hof k (List.mem_cons_of_mem _ hk)
    have hentry : entriesOf (.line l') = [⟨requireVerb, l.tokens, l'⟩] := by
      rw [entriesOf, hl.tokens]
    rw [List.map_cons, List.map_cons, List.flatMap_cons, hentry]
    refine .cons ⟨rfl, rfl, fun _ => ⟨hl.outside, ?_⟩, fun h => absurd rfl h⟩ hrest
    rw [hl.policy? hns hpolicy, hof l List.mem_cons_self]

/-- What is read from the flat text has entries that correspond. -/
theorem related_of_flattens {statements flat : List Statement}
    (h : Flattens ns statements flat) (hns : Directive.Writable ns)
    (hblock : ∀ b, .block b ∈ statements → ∀ l ∈ b.lines, policyOf l = b.policy? ns)
    (hline : ∀ l, .line l ∈ statements → l.inBlock = false)
    (hnone : ∀ l : Line, l.inBlock = false → policyOf l = none) :
    List.Forall₂ (Entry.Related (FlatLine ns policyOf)) (statements.flatMap entriesOf)
      (flat.flatMap entriesOf) := by
  induction h with
  | nil => exact .nil
  | @keep s rest flat other f _ ih =>
    have hrest := ih (fun b hb => hblock b (List.mem_cons_of_mem _ hb))
      (fun l hl => hline l (List.mem_cons_of_mem _ hl))
    rw [List.flatMap_cons, List.flatMap_cons]
    refine List.rel_append (related_renumber other f (fun l hl => ?_) hnone) hrest
    exact hline l (hl ▸ List.mem_cons_self)
  | @block b lines rest flat require children _ ih =>
    have hrest := ih (fun b hb => hblock b (List.mem_cons_of_mem _ hb))
      (fun l hl => hline l (List.mem_cons_of_mem _ hl))
    have hentries : entriesOf (.block b) = b.lines.map fun l => ⟨requireVerb, l.tokens, l⟩ := by
      rw [Block.isRequire, decide_eq_true_eq, List.head?_eq_some_iff] at require
      obtain ⟨more, htokens⟩ := require
      rw [entriesOf, htokens]
    rw [List.flatMap_cons, List.flatMap_append, hentries]
    exact List.rel_append (related_children children hns Block.exists_of_policy?
      (hblock b List.mem_cons_self)) hrest

end

/-- Two resolutions that differ in the line numbers of overwrites alone. -/
structure SameResolution (res res' : Resolution) : Prop where
  policies : res'.policies = res.policies
  overwrites : res'.overwrites.map (fun o => (o.path, o.old, o.new)) =
    res.overwrites.map fun o => (o.path, o.old, o.new)

/-- Two outcomes that differ in line numbers alone. -/
inductive SameOutcome : Except MisplacedDirective Resolution →
    Except MisplacedDirective Resolution → Prop
  | resolved {res res' : Resolution} (same : SameResolution res res') :
      SameOutcome (.ok res) (.ok res')
  | refused {e e' : MisplacedDirective} (policy : e'.policy = e.policy) (name : e'.name = e.name)
      (column : e'.position.column = e.position.column) : SameOutcome (.error e) (.error e')

theorem SameResolution.assign {nilPolicy policy : Text} {res res' : Resolution}
    {r r' : Requirement} (h : SameResolution res res') (hpath : r'.path = r.path) :
    SameResolution (res.assign nilPolicy r policy) (res'.assign nilPolicy r' policy) := by
  refine ⟨?_, ?_⟩
  · rw [Resolution.assign, Resolution.assign, h.policies, hpath]
  · have hnew : (res'.overwrite? r' policy).toList.map (fun o => (o.path, o.old, o.new)) =
        (res.overwrite? r policy).toList.map fun o => (o.path, o.old, o.new) := by
      rw [Resolution.overwrite?, Resolution.overwrite?, h.policies, hpath]
      cases res.policies.get? r.path with
      | none => rfl
      | some old =>
        by_cases hold : old = policy
        · simp [hold]
        · simp [hold]
    rw [Resolution.assign, Resolution.assign, List.map_append, List.map_append, h.overwrites, hnew]

/-- Requirements with the same paths and the same policies resolve to the same. -/
theorem sameResolution_foldl {nilPolicy : Text} {policyOf policyOf' : Requirement → Text}
    {requirements requirements' : List Requirement}
    (h : List.Forall₂ (fun r r' => r'.path = r.path ∧ policyOf' r' = policyOf r)
      requirements requirements') {res res' : Resolution} (hres : SameResolution res res') :
    SameResolution
      (requirements.foldl (fun res r => res.assign nilPolicy r (policyOf r)) res)
      (requirements'.foldl (fun res r => res.assign nilPolicy r (policyOf' r)) res') := by
  refine List.rel_foldl (fun res res' hres r r' hr => ?_) hres h
  rw [hr.2]
  exact hres.assign hr.1

/-- A line of a text, by its number. -/
def textAt (text : Text) (number : Int) : Text := text.lines[(number - 1).toNat]?.getD []

/-- The lines of a text without the blocks of requirements of its manifest. -/
def flatLines (ns text : Text) (m : Manifest) : List Text :=
  replaceBlocks ns (textAt text) 1 m.statements text.lines

/-- A child takes its policy from the block it is a child of. -/
theorem blockPolicy?_of_child {ns : Text} {m : Manifest} {k : Int} {b : Block} {l : Line}
    (hordered : Ordered k m.statements) (hwell : (Statement.block b).WellNested)
    (hb : .block b ∈ m.statements) (hl : l ∈ b.lines) :
    m.blockPolicy? ns l = b.policy? ns := by
  obtain ⟨above, below, hsplit⟩ := List.append_of_mem hb
  have hfirst : enclosingBlock? l m.statements = some b := by
    rw [enclosingBlock?_eq_some_iff, hsplit]
    exact firstWithin_of_child (hsplit ▸ hordered) hwell hl
  rw [blockPolicy?, if_pos (hwell.inBlock l hl), hfirst]
  rfl

theorem blockPolicy?_of_outside {ns : Text} {m : Manifest} {l : Line} (h : l.inBlock = false) :
    m.blockPolicy? ns l = none := by
  rw [blockPolicy?, h]
  rfl

section

variable {ns name : Text} {policyOf : Line → Option Text} {statements flat : List Statement}
  {d d' : Declarations}

/-- The manifest with these statements and declarations. -/
def ofDeclarations (name : Text) (statements : List Statement) (d : Declarations) : Manifest :=
  ⟨name, statements, d.moduleEntry, d.goEntry, d.requirements⟩

/-- A requirement of the flat manifest has the policy of the one it stands for. -/
theorem effectivePolicy_of_related {nilPolicy : Text}
    {r r' : Requirement} (h : Declarations.Related (FlatLine ns policyOf) d d')
    (hpolicy : (ofDeclarations name statements d).blockPolicy? ns = policyOf)
    (hr : FlatLine ns policyOf requireVerb r.line r'.line) :
    (ofDeclarations name flat d').effectivePolicy ns nilPolicy r' =
      (ofDeclarations name statements d).effectivePolicy ns nilPolicy r := by
  have hdefault : (ofDeclarations name flat d').defaultPolicy? ns =
      (ofDeclarations name statements d).defaultPolicy? ns :=
    bind_eq_of_rel h.module fun e e' he => by
      obtain ⟨f, hline⟩ := he.2.other (by decide)
      rw [hline, Line.policy?_relocate]
  obtain ⟨houtside, hown⟩ := hr.require rfl
  rw [effectivePolicy, effectivePolicy, hdefault, blockPolicy?_of_outside houtside, hown, hpolicy,
    Option.none_or, Option.or_assoc]

theorem exists_renumber_of_rel {x x' : Option GoEntry}
    (h : Option.Rel (fun e e' => e'.version = e.version ∧
      FlatLine ns policyOf (Text.ofString "go") e.line e'.line) x x') :
    ∃ f, x' = x.map (GoEntry.renumber f) := by
  cases h with
  | none => exact ⟨id, rfl⟩
  | some hx =>
    obtain ⟨f, hline⟩ := hx.2.other (by decide)
    exact ⟨f, by rw [Option.map_some, GoEntry.renumber, GoEntry.relocate, ← hx.1, ← Line.renumber,
      ← hline]⟩

/-- A misplaced directive of the flat manifest is one on another line. -/
theorem exists_misplaced?_of_related
    (h : Declarations.Related (FlatLine ns policyOf) d d') :
    ∃ f, (ofDeclarations name flat d').misplaced? ns =
      ((ofDeclarations name statements d).misplaced? ns).map
        (MisplacedDirective.relocate (Position.renumber f)) := by
  obtain ⟨f, hgo⟩ := exists_renumber_of_rel h.go
  refine ⟨f, ?_⟩
  rw [← misplaced?_relocate, misplaced?, misplaced?, ofDeclarations, hgo]
  rfl

/-- The flat declarations resolve to the same policies. -/
theorem sameOutcome_of_related
    (h : Declarations.Related (FlatLine ns policyOf) d d')
    (hpolicy : (ofDeclarations name statements d).blockPolicy? ns = policyOf) (nilPolicy : Text) :
    SameOutcome ((ofDeclarations name statements d).resolve ns nilPolicy)
      ((ofDeclarations name flat d').resolve ns nilPolicy) := by
  obtain ⟨f, hmisplaced⟩ : ∃ f, (ofDeclarations name flat d').misplaced? ns =
      ((ofDeclarations name statements d).misplaced? ns).map
        (MisplacedDirective.relocate (Position.renumber f)) := exists_misplaced?_of_related h
  rw [resolve, resolve, hmisplaced]
  cases (ofDeclarations name statements d).misplaced? ns with
  | some e => exact .refused rfl rfl rfl
  | none =>
    refine .resolved (sameResolution_foldl (h.requirements.imp fun r r' hr => ?_) ⟨rfl, rfl⟩)
    exact ⟨hr.1, effectivePolicy_of_related h hpolicy hr.2⟩

end

theorem readFrom_of_scanLines {text : Text} {above below : List Text} {lines : List ScannedLine}
    (htext : text.lines = above ++ below)
    (hscan : scanLines (above.length + 1) below = .ok lines) :
    ReadFrom (textAt text) (above.length + 1) lines := by
  induction below generalizing above lines with
  | nil =>
    rw [scanLines, Except.ok.injEq] at hscan
    exact hscan ▸ .nil _
  | cons t below ih =>
    obtain ⟨line, more, hline, hmore, rfl⟩ := scanLines_cons_eq_ok_iff.1 hscan
    have hat : textAt text (above.length + 1) = t := by
      have hindex : ((above.length : Int) + 1 - 1).toNat = above.length := by omega
      rw [textAt, hindex, htext, List.getElem?_append_right (Nat.le_refl _), Nat.sub_self]
      rfl
    have hmem : t ∈ text.lines := by
      rw [htext]
      simp
    have hlen : ((above ++ [t]).length : Int) + 1 = above.length + 1 + 1 := by
      rw [List.length_append, List.length_singleton]
      omega
    refine .cons (hat.symm ▸ Text.oneLine_of_mem_lines hmem) (hat.symm ▸ hline) ?_
    rw [← hlen] at hmore ⊢
    exact ih (by rw [htext, List.append_assoc]; rfl) hmore

theorem rewrites_flatLines {ns text : Text} {lines : List ScannedLine}
    {statements : List Statement} (hns : Directive.Writable ns)
    (hlines : scanLines 1 text.lines = .ok lines) (hlayout : Layout [] lines statements) :
    Rewrites ns (replaceBlocks ns (textAt text) 1 statements text.lines) statements := by
  have hall : text.lines = [] ++ text.lines := rfl
  have hread : ReadFrom (textAt text) 1 lines := readFrom_of_scanLines hall hlines
  have honeLine : ∀ t ∈ text.lines, t.OneLine := by
    intro t ht
    exact Text.oneLine_of_mem_lines ht
  exact rewrites_of_layout hlayout hns (written_of_layout hlayout hread) honeLine hlines

/-- The flat statements declare the same, with the policies of blocks as directives. -/
theorem exists_declarations_of_flattens {ns name : Text} {k : Int}
    {statements flat : List Statement} {d : Declarations} (h : Flattens ns statements flat)
    (hns : Directive.Writable ns) (hordered : Ordered k statements)
    (hwell : ∀ s ∈ statements, s.WellNested) (hd : declarations statements = .ok d) :
    ∃ d', declarations flat = .ok d' ∧ Declarations.Related
      (FlatLine ns ((ofDeclarations name statements d).blockPolicy? ns)) d d' := by
  have hentries : List.Forall₂
      (Entry.Related (FlatLine ns ((ofDeclarations name statements d).blockPolicy? ns)))
      (statements.flatMap entriesOf) (flat.flatMap entriesOf) := by
    refine related_of_flattens h hns ?_ ?_ ?_
    · intro b hb l hl
      exact blockPolicy?_of_child hordered (hwell _ hb) hb hl
    · intro l hl
      exact (hwell _ hl).1
    · intro l hl
      exact blockPolicy?_of_outside hl
  exact related_of_declarations hentries hd

/-- **Blocks of requirements are sugar.** The flat lines of a manifest that was read are the
lines of a text, and every text with these lines is read, has no block of requirements, and
resolves in the same way, whatever the nil policy is. -/
theorem read_flat {ns name text : Text} {m : Manifest} (hns : Directive.Writable ns)
    (h : read name text = .ok m) :
    (Text.ofLines (flatLines ns text m)).lines = flatLines ns text m ∧
    ∀ text' : Text, text'.lines = flatLines ns text m → ∃ m', read name text' = .ok m' ∧
      (∀ b, .block b ∈ m'.statements → b.isRequire = false) ∧
      ∀ nilPolicy, SameOutcome (m.resolve ns nilPolicy) (m'.resolve ns nilPolicy) := by
  obtain ⟨lines, statements, d, hlines, hlayout, hd, rfl⟩ := read_eq_ok_iff.1 h
  have hnumbered := numbered_of_scanLines hlines
  have hrewrites := rewrites_flatLines hns hlines hlayout
  refine ⟨Text.lines_ofLines hrewrites.oneLine, ?_⟩
  intro text' htext'
  obtain ⟨lines', flat, hlines', hlayout', hflattens⟩ := hrewrites.reads 1
  obtain ⟨d', hd', hrelated⟩ := exists_declarations_of_flattens hflattens hns
    (ordered_of_numbered hlayout hnumbered) (wellNested_of_layout hlayout hnumbered) hd
  refine ⟨ofDeclarations name flat d', ?_, ?_, ?_⟩
  · refine read_eq_ok_iff.2 ⟨lines', flat, d', ?_, hlayout', hd', rfl⟩
    rw [htext']
    exact hlines'
  · intro b hb
    exact hflattens.isRequireBlock_eq_false _ hb
  · intro nilPolicy
    exact sameOutcome_of_related hrelated rfl nilPolicy

/-- A block with a policy, one child with a policy of its own, and an empty block. -/
theorem read_flat_sample :
    (read [] (Text.ofString
        "// ns:p\nrequire (\n a v1 // b\n\n // ns:q\n c v2\n)\nrequire ( )\n")).toOption.map
      (flatLines (Text.ofString "ns") (Text.ofString
        "// ns:p\nrequire (\n a v1 // b\n\n // ns:q\n c v2\n)\nrequire ( )\n")) =
      some [Text.ofString "// ns:p", Text.ofString "require a v1 // b", Text.ofString "// ns:p",
        Text.ofString "// ns:q", Text.ofString "require c v2"] ∧
    ∃ m m', read [] (Text.ofString
        "// ns:p\nrequire (\n a v1 // b\n\n // ns:q\n c v2\n)\nrequire ( )\n") = .ok m ∧
      read [] (Text.ofLines (flatLines (Text.ofString "ns") (Text.ofString
        "// ns:p\nrequire (\n a v1 // b\n\n // ns:q\n c v2\n)\nrequire ( )\n") m)) = .ok m' ∧
      (∀ b, .block b ∈ m'.statements → b.isRequire = false) ∧
      ∀ nilPolicy, SameOutcome (m.resolve (Text.ofString "ns") nilPolicy)
        (m'.resolve (Text.ofString "ns") nilPolicy) := by
  refine ⟨by decide +kernel, ?_⟩
  have hns : Directive.Writable (Text.ofString "ns") := ⟨by decide, by decide⟩
  have hread : (read [] (Text.ofString
      "// ns:p\nrequire (\n a v1 // b\n\n // ns:q\n c v2\n)\nrequire ( )\n")).isOk = true := by
    decide +kernel
  obtain ⟨m, hm⟩ := exists_eq_ok hread
  obtain ⟨hlines, hflat⟩ := read_flat hns hm
  obtain ⟨m', hm', hnone, hsame⟩ := hflat _ hlines
  exact ⟨m, m', hm, hm', hnone, hsame⟩

end Manifest

end ManifestPolicy
