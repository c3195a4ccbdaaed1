import ManifestPolicy.Proofs.CommentEdits
import ManifestPolicy.Proofs.Directives
import ManifestPolicy.Proofs.Grammar

/-!
# Directives that name no policy

A field with nothing after the colon is a directive without a policy. Between comments such a
directive counts for nothing: the comments of a line, of an opening line and of the go entry
are asked for the policies they name, and it names none. Within one comment it counts like any
other field of the namespace, since the first of them is the only one that is read. So it
hides a policy that the same comment names further on.

Hence an empty directive can be put anywhere into a comment, but not in front of the field
from which the comment has its policy. There it takes the policy away, and also the refusal of
a manifest with a directive on its go entry.

## Main definitions

* `Directive.InsertsField`: a comment with one more field.
* `Directive.Hides`: an empty directive would stand in front of the field that counts.

## Main statements

* `Directive.policy?_insertsField`: what a comment names after an empty directive was put in.
* `Manifest.resolve_emptyDirective`: which empty directives change no resolution.
-/

namespace ManifestPolicy

namespace Directive

/-- The text `t'` is the comment `t` with one more field, which stands after the fields `before`
and in front of the fields `after`. -/
structure InsertsField (field : Text) (before after : List Text) (t t' : Text) : Prop where
  old : Text.fields (Text.dropStart commentMarker t) = before ++ after
  new : Text.fields (Text.dropStart commentMarker t') = before ++ field :: after

/-- The first field of the namespace stands among the fields `after`, and it names a policy. -/
def Hides (ns : Text) (before after : List Text) : Prop :=
  before.findSome? (fieldValue? ns) = none ∧
    ∃ policy, after.findSome? (fieldValue? ns) = some policy ∧ policy ≠ []

variable {ns : Text}

/-- A label alone is a field of the namespace that names nothing. -/
theorem fieldValue?_label (hns : Writable ns) : fieldValue? ns (label ns) = some [] := by
  have hdrop := hns.dropStart []
  rw [List.append_nil] at hdrop
  rw [fieldValue?, hdrop, Text.dropStart?_eq_some_iff, List.append_nil]

/-- Where no earlier field is one of the namespace, an empty directive makes the comment name
nothing. Elsewhere it changes nothing. -/
theorem policy?_insertsField (hns : Writable ns) {before after : List Text} {t t' : Text}
    (h : InsertsField (label ns) before after t t') :
    policy? ns t' =
      if before.findSome? (fieldValue? ns) = none then none else policy? ns t := by
  rw [policy?, policy?, value?, value?, h.old, h.new, List.findSome?_append, List.findSome?_append,
    List.findSome?_cons, fieldValue?_label hns]
  cases before.findSome? (fieldValue? ns) with
  | none => rfl
  | some value => rfl

/-- What a comment names, by the fields around a place. -/
theorem policy?_eq_some_of_hides {before after : List Text} {t : Text}
    (hold : Text.fields (Text.dropStart commentMarker t) = before ++ after)
    (h : Hides ns before after) : ∃ policy, policy? ns t = some policy := by
  obtain ⟨hbefore, policy, hafter, hne⟩ := h
  refine ⟨policy, ?_⟩
  rw [policy?, value?, hold, List.findSome?_append, hbefore, hafter, Option.none_or,
    Option.filter_some, if_pos (by simpa using hne)]

/-- An empty directive changes what a comment names exactly where it hides a policy. -/
theorem policy?_eq_iff_not_hides (hns : Writable ns) {before after : List Text} {t t' : Text}
    (h : InsertsField (label ns) before after t t') :
    policy? ns t' = policy? ns t ↔ ¬ Hides ns before after := by
  rw [policy?_insertsField hns h]
  by_cases hbefore : before.findSome? (fieldValue? ns) = none
  · rw [if_pos hbefore]
    constructor
    · intro hnone hhides
      obtain ⟨policy, hpolicy⟩ := policy?_eq_some_of_hides h.old hhides
      rw [hpolicy] at hnone
      exact absurd hnone (by simp)
    · intro hhides
      rw [eq_comm, Option.eq_none_iff_forall_ne_some]
      intro policy hpolicy
      rw [policy?, value?, h.old, List.findSome?_append, hbefore, Option.none_or,
        Option.filter_eq_some_iff] at hpolicy
      exact hhides ⟨hbefore, policy, hpolicy.1, by simpa using hpolicy.2⟩
  · rw [if_neg hbefore]
    exact ⟨fun _ hhides => hbefore hhides.1, fun _ => rfl⟩

end Directive

namespace Manifest

open Directive

/-- A tree with nothing but a go entry and a comment after it. -/
def ofGoComment (comment : Text) : Manifest :=
  let l : Line := ⟨⟨1, 1⟩, ⟨1, 5⟩, [Text.ofString "go", Text.ofString "1"],
    ⟨[], [⟨⟨1, 6⟩, comment⟩]⟩, false⟩
  ⟨[], [.line l], none, some ⟨Text.ofString "1", l⟩, []⟩

theorem edited_ofGoComment {E : Text → Text → Prop} {t t' : Text} (h : E t t') :
    (ofGoComment t).Edited E (ofGoComment t') := by
  have hcomment : Comment.Edited E ⟨⟨1, 6⟩, t⟩ ⟨⟨1, 6⟩, t'⟩ := ⟨rfl, .inr h⟩
  have hcomments : Comments.Edited E ⟨[], [⟨⟨1, 6⟩, t⟩]⟩ ⟨[], [⟨⟨1, 6⟩, t'⟩]⟩ :=
    ⟨.nil, .cons hcomment .nil⟩
  exact ⟨rfl, .cons (.line ⟨rfl, rfl, rfl, hcomments, rfl⟩) .nil, .none,
    .some ⟨rfl, rfl, rfl, rfl, hcomments, rfl⟩, .nil⟩

/-- The tree is refused where the comment names a policy. -/
theorem resolve_ofGoComment (ns nilPolicy t : Text) :
    (∃ e, (ofGoComment t).resolve ns nilPolicy = .error e) ↔ policy? ns t ≠ none := by
  simp only [resolve_eq_error_iff, exists_misplaces_iff, ofGoComment, Comments.all,
    Option.some.injEq, exists_eq_left', List.nil_append, List.mem_singleton, exists_eq_left]

/-- **Which empty directives change no resolution.** Let edits put an empty directive at some
place into a comment. Then any number of these edits, in any tree, keep the resolution, if none
of them puts the directive in front of the field from which the comment has its policy; and an
edit that does so changes the resolution of some tree. -/
theorem resolve_emptyDirective {ns : Text} (hns : Writable ns) {E : Text → Text → Prop}
    (hE : ∀ t t', E t t' → ∃ before after, InsertsField (label ns) before after t t') :
    (∀ m m' : Manifest, m.Edited E m' →
      ∀ nilPolicy, m'.resolve ns nilPolicy = m.resolve ns nilPolicy) ↔
    ∀ t t', E t t' → ∀ before after, InsertsField (label ns) before after t t' →
      ¬ Hides ns before after := by
  constructor
  · intro hkeep t t' ht before after hinserts hhides
    have hsame := hkeep _ _ (edited_ofGoComment ht) []
    have hpolicy : policy? ns t ≠ none := by
      obtain ⟨policy, hpolicy⟩ := policy?_eq_some_of_hides hinserts.old hhides
      simp [hpolicy]
    have hpolicy' : policy? ns t' = none := by
      rw [policy?_insertsField hns hinserts, if_pos hhides.1]
    obtain ⟨e, he⟩ := (resolve_ofGoComment ns [] t).2 hpolicy
    rw [← hsame] at he
    exact (resolve_ofGoComment ns [] t').1 ⟨e, he⟩ hpolicy'
  · intro hhides m m' hedited
    refine hedited.resolve_eq fun t t' ht => ?_
    obtain ⟨before, after, hinserts⟩ := hE t t' ht
    exact (policy?_eq_iff_not_hides hns hinserts).2 (hhides t t' ht before after hinserts)

/-- An empty directive after the one that counts. -/
theorem resolve_emptyDirective_sample :
    let E (t t' : Text) : Prop := t = Text.ofString "// s:p" ∧ t' = Text.ofString "// s:p s:"
    (Writable (Text.ofString "s") ∧ ∀ t t', E t t' → ∃ before after,
      InsertsField (label (Text.ofString "s")) before after t t') ∧
    ∀ m m' : Manifest, m.Edited E m' → ∀ nilPolicy,
      m'.resolve (Text.ofString "s") nilPolicy = m.resolve (Text.ofString "s") nilPolicy := by
  intro E
  have hns : Writable (Text.ofString "s") := ⟨by decide, by decide⟩
  have hE : ∀ t t', E t t' → ∃ before after,
      InsertsField (label (Text.ofString "s")) before after t t' := by
    rintro t t' ⟨rfl, rfl⟩
    exact ⟨[Text.ofString "s:p"], [], by decide, by decide⟩
  refine ⟨⟨hns, hE⟩, (resolve_emptyDirective hns hE).2 ?_⟩
  rintro t t' ⟨rfl, rfl⟩ before after hinserts
  exact (policy?_eq_iff_not_hides hns hinserts).1 (by decide)

/-- An empty directive in front of the one that counts takes its policy away. -/
theorem resolve_hiddenDirective :
    ∃ m m' res, read [] (Text.ofString "require a v1 // gomodjail:confined\n") = .ok m ∧
      read [] (Text.ofString "require a v1 // gomodjail: gomodjail:confined\n") = .ok m' ∧
      m.Edited (InsertsField (label (Text.ofString "gomodjail")) []
        [Text.ofString "gomodjail:confined"]) m' ∧
      m.resolve (Text.ofString "gomodjail") (Text.ofString "unconfined") = .ok res ∧
      res.policies.get? (Text.ofString "a") = some (Text.ofString "confined") ∧
      m'.resolve (Text.ofString "gomodjail") (Text.ofString "unconfined") = .ok .empty := by
  obtain ⟨tree, htree⟩ : ∃ tree : Text → Manifest, tree = fun comment =>
      let l : Line := ⟨⟨1, 1⟩, ⟨1, 13⟩, [Text.ofString "require", Text.ofString "a",
        Text.ofString "v1"], ⟨[], [⟨⟨1, 14⟩, comment⟩]⟩, false⟩
      ⟨[], [.line l], none, none, [⟨Text.ofString "a", Text.ofString "v1", l, false⟩]⟩ := ⟨_, rfl⟩
  have hread : (read [] (Text.ofString "require a v1 // gomodjail:confined\n")).toOption =
      some (tree (Text.ofString "// gomodjail:confined")) := by
    rw [htree]
    decide +kernel
  have hread' :
      (read [] (Text.ofString "require a v1 // gomodjail: gomodjail:confined\n")).toOption =
      some (tree (Text.ofString "// gomodjail: gomodjail:confined")) := by
    rw [htree]
    decide +kernel
  rw [toOption_eq_some_iff] at hread hread'
  have hinserts : InsertsField (label (Text.ofString "gomodjail")) []
      [Text.ofString "gomodjail:confined"] (Text.ofString "// gomodjail:confined")
      (Text.ofString "// gomodjail: gomodjail:confined") := ⟨by decide +kernel, by decide +kernel⟩
  refine ⟨_, _, ⟨Dictionary.empty.insert (Text.ofString "a") (Text.ofString "confined"), []⟩,
    hread, hread', ?_, ?_, by decide +kernel, ?_⟩
  · subst htree
    have hcomments : Comments.Edited (InsertsField (label (Text.ofString "gomodjail")) []
        [Text.ofString "gomodjail:confined"])
        ⟨[], [⟨⟨1, 14⟩, Text.ofString "// gomodjail:confined"⟩]⟩
        ⟨[], [⟨⟨1, 14⟩, Text.ofString "// gomodjail: gomodjail:confined"⟩]⟩ :=
      ⟨.nil, .cons ⟨rfl, .inr hinserts⟩ .nil⟩
    exact ⟨rfl, .cons (.line ⟨rfl, rfl, rfl, hcomments, rfl⟩) .nil, .none, .none,
      .cons ⟨rfl, rfl, rfl, rfl, rfl, hcomments, rfl⟩ .nil⟩
  · subst htree
    decide +kernel
  · subst htree
    decide +kernel

end Manifest

end ManifestPolicy
