import ManifestPolicy.Proofs.CommentEdits
import ManifestPolicy.Proofs.Directives

/-!
# Namespaces are isolated

Several tools can keep their directives in one manifest, each in a namespace of its own. What
a field names for one of them it names for no other, even where one namespace is the beginning
or the end of another: the colon of a label ends the namespace, so two labels that start the
same field are equal.

A field of another namespace is thus like a field without any directive, and it can be
replaced by another one without changing what the comment names.

## Main definitions

* `Directive.FieldOf`: the fields of a namespace.
* `Directive.ReplacesFields`: a comment with other fields of a namespace at the same places.

## Main statements

* `Directive.fieldValue?_of_fieldOf`: a field of one namespace names nothing in another.
* `Manifest.resolve_isolated`: the directives of other namespaces never count.
-/

namespace ManifestPolicy

namespace Directive

/-- The fields of a namespace: with a marker of their own, or without. -/
inductive FieldOf (ns : Text) : Text → Prop
  | bare (x : Text) : FieldOf ns (label ns ++ x)
  | marked (x : Text) : FieldOf ns (commentMarker ++ (label ns ++ x))

/-- Some fields of a namespace are replaced by other fields of it. Every other field is kept. -/
def ReplacesFields (ns t t' : Text) : Prop :=
  List.Forall₂ (fun f f' => f' = f ∨ FieldOf ns f ∧ FieldOf ns f')
    (Text.fields (Text.dropStart commentMarker t)) (Text.fields (Text.dropStart commentMarker t'))

variable {ns₁ ns₂ : Text}

/-- What stands before the first colon of a field is its namespace. -/
theorem takeWhile_label {ns : Text} (h : (':' : CodePoint) ∉ ns) (x : Text) :
    (label ns ++ x).takeWhile (fun c => c ≠ (':' : CodePoint)) = ns := by
  have hcolon : label ns ++ x = ns ++ (':' : CodePoint) :: x := by
    rw [label, List.append_assoc]
    rfl
  rw [hcolon, List.takeWhile_append_of_pos, List.takeWhile_cons_of_neg (by simp), List.append_nil]
  intro c hc
  simpa using ne_of_mem_of_not_mem hc h

/-- A field of one namespace names nothing in another. -/
theorem fieldValue?_of_fieldOf (h₂ : Writable ns₂) (hcolon₁ : (':' : CodePoint) ∉ ns₁)
    (hcolon₂ : (':' : CodePoint) ∉ ns₂) (hne : ns₁ ≠ ns₂) {field : Text}
    (h : FieldOf ns₂ field) : fieldValue? ns₁ field = none := by
  have hother (x : Text) : Text.dropStart? (label ns₁) (label ns₂ ++ x) = none := by
    rw [Option.eq_none_iff_forall_ne_some]
    intro rest hrest
    rw [Text.dropStart?_eq_some_iff] at hrest
    have hsame := congrArg (List.takeWhile fun c => c ≠ (':' : CodePoint)) hrest
    rw [takeWhile_label hcolon₁, takeWhile_label hcolon₂] at hsame
    exact hne hsame.symm
  rw [fieldValue?]
  cases h with
  | bare x =>
    rw [h₂.dropStart]
    exact hother x
  | marked x =>
    rw [Text.dropStart, Text.dropStart?_append, Option.getD_some]
    exact hother x

theorem findSome?_eq_of_forall₂ {α β : Type} {f : α → Option β} {l l' : List α}
    (h : List.Forall₂ (fun a a' => f a' = f a) l l') : l'.findSome? f = l.findSome? f := by
  induction h with
  | nil => rfl
  | cons ha _ ih => rw [List.findSome?_cons, List.findSome?_cons, ha, ih]

/-- The fields of one namespace can be replaced without changing what a comment names in
another. -/
theorem policy?_of_replacesFields (h₂ : Writable ns₂) (hcolon₁ : (':' : CodePoint) ∉ ns₁)
    (hcolon₂ : (':' : CodePoint) ∉ ns₂) (hne : ns₁ ≠ ns₂) {t t' : Text}
    (h : ReplacesFields ns₂ t t') : policy? ns₁ t' = policy? ns₁ t := by
  have hvalues : List.Forall₂ (fun f f' => fieldValue? ns₁ f' = fieldValue? ns₁ f)
      (Text.fields (Text.dropStart commentMarker t))
      (Text.fields (Text.dropStart commentMarker t')) := by
    refine h.imp fun f f' hf => ?_
    rcases hf with rfl | ⟨hf, hf'⟩
    · rfl
    · rw [fieldValue?_of_fieldOf h₂ hcolon₁ hcolon₂ hne hf,
        fieldValue?_of_fieldOf h₂ hcolon₁ hcolon₂ hne hf']
  rw [policy?, policy?, value?, value?, findSome?_eq_of_forall₂ hvalues]

end Directive

namespace Manifest

open Directive

/-- **Namespaces are isolated.** In any tree the fields of one namespace can be replaced, in any
number of comments, and the resolution in another namespace stays the same: its policies, its
overwrites, and the directive it is refused for. -/
theorem resolve_isolated {ns₁ ns₂ : Text} (h₂ : Writable ns₂) (hcolon₁ : (':' : CodePoint) ∉ ns₁)
    (hcolon₂ : (':' : CodePoint) ∉ ns₂) (hne : ns₁ ≠ ns₂) {m m' : Manifest}
    (h : m.Edited (ReplacesFields ns₂) m') (nilPolicy : Text) :
    m'.resolve ns₁ nilPolicy = m.resolve ns₁ nilPolicy :=
  h.resolve_eq (fun _ _ ht => policy?_of_replacesFields h₂ hcolon₁ hcolon₂ hne ht) nilPolicy

/-- Fields of the namespace `a` before and after one of the namespace `ab`. -/
theorem resolve_isolated_sample :
    let tree (comment : Text) : Manifest :=
      let l : Line := ⟨⟨2, 1⟩, ⟨2, 4⟩, [Text.ofString "b", Text.ofString "v"],
        ⟨[], [⟨⟨2, 5⟩, comment⟩]⟩, true⟩
      ⟨[], [.block ⟨⟨1, 1⟩, ⟨3, 2⟩, [Text.ofString "require"], [l], {}, {}⟩], none, none,
        [⟨Text.ofString "b", Text.ofString "v", l, false⟩]⟩
    let m := tree (Text.ofString "// a:x ab:p //a:y")
    let m' := tree (Text.ofString "////a:z ab:p a:")
    (Writable (Text.ofString "a") ∧ m.Edited (ReplacesFields (Text.ofString "a")) m') ∧
      m'.resolve (Text.ofString "ab") [] = m.resolve (Text.ofString "ab") [] := by
  intro tree m m'
  have hwritable : Writable (Text.ofString "a") := ⟨by decide, by decide⟩
  have hfields : ReplacesFields (Text.ofString "a") (Text.ofString "// a:x ab:p //a:y")
      (Text.ofString "////a:z ab:p a:") :=
    .cons (.inr ⟨.bare (Text.ofString "x"), .marked (Text.ofString "z")⟩)
      (.cons (.inl rfl) (.cons (.inr ⟨.marked (Text.ofString "y"), .bare []⟩) .nil))
  have hline : Line.Edited (ReplacesFields (Text.ofString "a"))
      ⟨⟨2, 1⟩, ⟨2, 4⟩, [Text.ofString "b", Text.ofString "v"],
        ⟨[], [⟨⟨2, 5⟩, Text.ofString "// a:x ab:p //a:y"⟩]⟩, true⟩
      ⟨⟨2, 1⟩, ⟨2, 4⟩, [Text.ofString "b", Text.ofString "v"],
        ⟨[], [⟨⟨2, 5⟩, Text.ofString "////a:z ab:p a:"⟩]⟩, true⟩ :=
    ⟨rfl, rfl, rfl, ⟨.nil, .cons ⟨rfl, .inr hfields⟩ .nil⟩, rfl⟩
  have hedited : m.Edited (ReplacesFields (Text.ofString "a")) m' :=
    ⟨rfl, .cons (.block ⟨rfl, rfl, rfl, .cons hline .nil, ⟨.nil, .nil⟩, ⟨.nil, .nil⟩⟩) .nil,
      .none, .none, .cons ⟨rfl, rfl, hline⟩ .nil⟩
  exact ⟨⟨hwritable, hedited⟩,
    resolve_isolated hwritable (by decide) (by decide) (by decide) hedited []⟩

end Manifest

end ManifestPolicy
