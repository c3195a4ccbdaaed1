import ManifestPolicy.Proofs.Nesting

/-!
# Directives on the go entry

A directive on the line of the go entry is refused, in every namespace and whatever the nil
policy is. The entry may also be a line of a block, and then its statement has comments in a
second place, on the opening line. The resolution reads these for blocks of requirements
only. So a directive on the opening line of a go block is not refused; it applies to nothing
and is passed over without a word.

## Main definitions

* `Statement.Holds`: a statement and the line of one of its entries.
* `Statement.commentsFor`: the comments of a statement that are about one of its lines.
* `Directive.Named`: some comment of a list names a policy.

## Main statements

* `holds_of_declarations`: what is declared stands on the line of an entry with its verb.
* `resolve_go`: when a directive on the statement of the go entry is refused.
-/

namespace ManifestPolicy

/-- The statement has an entry with this verb on this line: it is the line itself, or a block
with the line among its children. -/
inductive Statement.Holds (verb : Text) (l : Line) : Statement → Prop
  | line (first : l.tokens.head? = some verb) : Holds verb l (.line l)
  | block {b : Block} (opening : b.tokens.head? = some verb) (child : l ∈ b.lines) :
      Holds verb l (.block b)

/-- The comments of a statement that are about one of its lines: those of the opening line, if
it is a block, and those of the line. -/
def Statement.commentsFor (l : Line) : Statement → List Comment
  | .line _ => l.comments.all
  | .block b => b.comments.all ++ l.comments.all
  | .comments _ => []

/-- Some comment names a policy. -/
def Directive.Named (ns : Text) (comments : List Comment) : Prop :=
  ∃ c ∈ comments, policy? ns c.text ≠ none

instance (ns : Text) (comments : List Comment) : Decidable (Directive.Named ns comments) :=
  inferInstanceAs (Decidable (∃ c ∈ comments, Directive.policy? ns c.text ≠ none))

theorem Directive.named_append {ns : Text} {c₁ c₂ : List Comment} :
    Named ns (c₁ ++ c₂) ↔ Named ns c₁ ∨ Named ns c₂ := by
  simp only [Named, List.mem_append, or_and_right, exists_or]

namespace Manifest

theorem holds_of_mem_entriesOf {s : Statement} {e : Entry} (h : e ∈ entriesOf s) :
    s.Holds e.verb e.line := by
  cases s with
  | line l =>
    rw [entriesOf] at h
    split at h
    · simp at h
    · next verb arguments htokens =>
      obtain rfl := List.mem_singleton.1 h
      exact .line (by rw [htokens]; rfl)
  | block b =>
    rw [entriesOf] at h
    split at h
    · simp at h
    · next verb more htokens =>
      obtain ⟨l, hl, rfl⟩ := List.mem_map.1 h
      exact .block (by rw [htokens]; rfl) hl
  | comments r => simp [entriesOf] at h

/-- What is declared stands on the line of an entry with the right verb. -/
theorem holds_of_declarations {statements : List Statement} {d : Declarations}
    (h : declarations statements = .ok d) :
    Declarations.Related (fun verb l _ => ∃ s ∈ statements, s.Holds verb l) d d := by
  refine related_self_of_declarations (P := fun verb l => ∃ s ∈ statements, s.Holds verb l) ?_ h
  intro e he
  obtain ⟨s, hs, he⟩ := List.mem_flatMap.1 he
  exact ⟨s, hs, holds_of_mem_entriesOf he⟩

/-- A manifest is refused for the line of the go entry and for nothing else. -/
theorem exists_resolve_eq_error_iff {m : Manifest} {g : GoEntry} (hg : m.goEntry = some g)
    (ns nilPolicy : Text) :
    (∃ e, m.resolve ns nilPolicy = .error e) ↔ Directive.Named ns g.line.comments.all := by
  simp only [resolve_eq_error_iff, exists_misplaces_iff, hg, Option.some.injEq, exists_eq_left']
  rfl

/-- **When a directive on the go statement is refused.** In a manifest that was read the go
entry belongs to a statement with its verb. The manifest is refused exactly where the line of
the entry itself has a directive. So every directive on the statement is refused, except where
the statement is a block whose opening line has a directive and the line of the entry has
none. -/
theorem resolve_go {name text : Text} {m : Manifest} {g : GoEntry} (h : read name text = .ok m)
    (hg : m.goEntry = some g) :
    ∃ s ∈ m.statements, s.Holds (Text.ofString "go") g.line ∧ ∀ ns nilPolicy,
      ((∃ e, m.resolve ns nilPolicy = .error e) ↔ Directive.Named ns g.line.comments.all) ∧
      ((Directive.Named ns (s.commentsFor g.line) → ∃ e, m.resolve ns nilPolicy = .error e) ↔
        ∀ b, s = .block b → Directive.Named ns b.comments.all →
          Directive.Named ns g.line.comments.all) := by
  obtain ⟨lines, statements, d, -, -, hd, rfl⟩ := read_eq_ok_iff.1 h
  have hgo : d.goEntry = some g := hg
  have hrelated := (holds_of_declarations hd).go
  rw [hgo] at hrelated
  cases hrelated with
  | some hx =>
    obtain ⟨-, s, hs, hholds⟩ := hx
    refine ⟨s, hs, hholds, fun ns nilPolicy => ?_⟩
    rw [exists_resolve_eq_error_iff hg]
    refine ⟨Iff.rfl, ?_⟩
    cases hholds with
    | line first => simp [Statement.commentsFor]
    | @block b opening child =>
      simp only [Statement.commentsFor, Directive.named_append, Statement.block.injEq,
        forall_eq']
      exact ⟨fun hall hheader => hall (.inl hheader), fun hheader hany => hany.elim hheader id⟩

/-- A directive above a go line. -/
theorem resolve_go_sample :
    ∃ m g, (read [] (Text.ofString "// s:p\ngo 1\n") = .ok m ∧ m.goEntry = some g) ∧
      ∃ s ∈ m.statements, s.Holds (Text.ofString "go") g.line ∧ ∀ ns nilPolicy,
        ((∃ e, m.resolve ns nilPolicy = .error e) ↔ Directive.Named ns g.line.comments.all) ∧
        ((Directive.Named ns (s.commentsFor g.line) → ∃ e, m.resolve ns nilPolicy = .error e) ↔
          ∀ b, s = .block b → Directive.Named ns b.comments.all →
            Directive.Named ns g.line.comments.all) := by
  have hread :
      ((read [] (Text.ofString "// s:p\ngo 1\n")).toOption.bind goEntry).isSome = true := by
    decide +kernel
  obtain ⟨g, hfound⟩ := Option.isSome_iff_exists.1 hread
  obtain ⟨m, hm, hg⟩ := Option.bind_eq_some_iff.1 hfound
  rw [toOption_eq_some_iff] at hm
  exact ⟨m, g, ⟨hm, hg⟩, resolve_go hm hg⟩

/-- A directive on the opening line of a go block is passed over: the requirement is left
without a policy. -/
theorem resolve_go_block :
    ∃ m g s, read (Text.ofString "go.mod") (Text.ofString
        "module m\n\ngo ( // gomodjail:confined\n\t1.23\n)\n\nrequire a v1\n") = .ok m ∧
      m.goEntry = some g ∧ s ∈ m.statements ∧ s.Holds (Text.ofString "go") g.line ∧
      Directive.Named (Text.ofString "gomodjail") (s.commentsFor g.line) ∧
      m.resolve (Text.ofString "gomodjail") (Text.ofString "unconfined") = .ok .empty := by
  have hread : (read (Text.ofString "go.mod") (Text.ofString
      "module m\n\ngo ( // gomodjail:confined\n\t1.23\n)\n\nrequire a v1\n")).toOption.map
        (fun m => (m.goEntry, m.statements[1]?,
          (m.resolve (Text.ofString "gomodjail") (Text.ofString "unconfined")).toOption)) =
      some (some ⟨Text.ofString "1.23", ⟨⟨4, 2⟩, ⟨4, 6⟩, [Text.ofString "1.23"], {}, true⟩⟩,
        some (.block ⟨⟨3, 1⟩, ⟨5, 2⟩, [Text.ofString "go"],
          [⟨⟨4, 2⟩, ⟨4, 6⟩, [Text.ofString "1.23"], {}, true⟩],
          ⟨[], [⟨⟨3, 6⟩, Text.ofString "// gomodjail:confined"⟩]⟩, {}⟩), some .empty) := by
    decide +kernel
  obtain ⟨m, hm, hfound⟩ := Option.map_eq_some_iff.1 hread
  simp only [Prod.mk.injEq, toOption_eq_some_iff] at hm hfound
  obtain ⟨hgo, hblock, hresolve⟩ := hfound
  refine ⟨m, _, _, hm, hgo, List.mem_of_getElem? hblock, .block rfl (by simp), ?_, hresolve⟩
  decide +kernel

end Manifest

end ManifestPolicy
