import ManifestPolicy.Manifest.Entry
import ManifestPolicy.Proofs.EmptyDirectives

/-!
# Where a directive is found

A comment is a row of fields with blanks between them, and a directive is one of the fields. It
counts wherever it stands, as long as no field of the namespace stands in front of it. Other
annotations around it, more blanks than needed, and a second marker glued to it do not hide it.

Nothing else counts. A namespace with a blank in it is never found, because no field reaches over
a blank. Whether a requirement is indirect is said by the first field alone, so directives behind
that field do not change it.

## Main definitions

* `Text.Spaced`: a text as its fields and the blanks around them.
* `HasBody`: what stands behind the marker of a comment.
* `Directive.Carries`: a directive among the fields of a comment.
* `Line.Annotates`: a line whose comment gets a directive.

## Main statements

* `Text.spaced_iff`: every text is its fields with blanks around them, in one way.
* `Directive.policy?_eq_some_iff`: what the first field of the namespace names.
* `Directive.found_iff_carried`: a directive is found where it is, and nowhere else.
-/

namespace ManifestPolicy

namespace Text

/-- A part of a text that blanks can set apart. -/
structure IsField (t : Text) : Prop where
  nonempty : t ≠ []
  noBlank : ∀ c ∈ t, c.isBlank = false

/-- The text has these fields, with blanks between each two of them and any blanks at both
ends. -/
inductive Spaced : List Text → Text → Prop
  | blank {gap : Text} (blanks : Manifest.Blanks gap) : Spaced [] gap
  | field {gap field rest : Text} {fields : List Text} (blanks : Manifest.Blanks gap)
      (isField : IsField field) (apart : ∀ c ∈ rest.head?, c.isBlank = true)
      (spaced : Spaced fields rest) : Spaced (field :: fields) (gap ++ (field ++ rest))

theorem fields_blanks_append {gap : Text} (h : Manifest.Blanks gap) (t : Text) :
    fields (gap ++ t) = fields t := by
  induction gap with
  | nil => rfl
  | cons c gap ih =>
    rw [List.cons_append, fields_blank_cons _ (h c List.mem_cons_self)]
    exact ih fun d hd => h d (List.mem_cons_of_mem c hd)

/-- A field ends where a blank or nothing follows. -/
theorem fields_field_append {field rest : Text} (h : IsField field)
    (apart : ∀ c ∈ rest.head?, c.isBlank = true) :
    fields (field ++ rest) = field :: fields rest := by
  have hfield : fields field = [field] := fields_of_noBlank h.noBlank h.nonempty
  cases rest with
  | nil => rw [List.append_nil, hfield, fields_nil]
  | cons b rest =>
    have hb : b.isBlank = true := apart b rfl
    rw [fields_append_blank field rest hb, hfield, fields_blank_cons rest hb]
    rfl

theorem fields_of_spaced {fs : List Text} {t : Text} (h : Spaced fs t) : fields t = fs := by
  induction h with
  | @blank gap blanks =>
    have hnil := fields_blanks_append blanks []
    rwa [List.append_nil] at hnil
  | field blanks isField apart _ ih =>
    rw [fields_blanks_append blanks, fields_field_append isField apart, ih]

theorem Spaced.isField {fs : List Text} {t : Text} (h : Spaced fs t) :
    ∀ field ∈ fs, IsField field := by
  induction h with
  | blank => simp
  | field _ isField _ _ ih => exact List.forall_mem_cons.2 ⟨isField, ih⟩

theorem Spaced.blank_cons {fs : List Text} {t : Text} (h : Spaced fs t) {b : CodePoint}
    (hb : b.isBlank = true) : Spaced fs (b :: t) := by
  cases h with
  | blank blanks => exact .blank (List.forall_mem_cons.2 ⟨hb, blanks⟩)
  | @field gap _ _ _ blanks isField apart spaced =>
    have hgap : Manifest.Blanks (b :: gap) := List.forall_mem_cons.2 ⟨hb, blanks⟩
    exact .field hgap isField apart spaced

/-- A code point that is no blank begins a field or is put to the front of one. -/
theorem exists_spaced_cons {fs : List Text} {t : Text} (h : Spaced fs t) {c : CodePoint}
    (hc : c.isBlank = false) : ∃ fs', Spaced fs' (c :: t) := by
  have hnil : Manifest.Blanks [] := fun d hd => absurd hd List.not_mem_nil
  have alone (apart : ∀ d ∈ t.head?, d.isBlank = true) : ∃ fs', Spaced fs' (c :: t) := by
    have hfield : IsField [c] := ⟨by simp, by simpa using hc⟩
    exact ⟨_, .field hnil hfield apart h⟩
  cases h with
  | blank blanks => exact alone fun d hd => blanks d (List.mem_of_mem_head? hd)
  | @field gap field rest fields blanks isField apart spaced =>
    cases gap with
    | nil =>
      have hfield : IsField (c :: field) :=
        ⟨by simp, List.forall_mem_cons.2 ⟨hc, isField.noBlank⟩⟩
      exact ⟨_, .field hnil hfield apart spaced⟩
    | cons b gap =>
      refine alone fun d hd => ?_
      rw [List.cons_append, List.head?_cons, Option.mem_some_iff] at hd
      exact hd ▸ blanks b List.mem_cons_self

theorem exists_spaced (t : Text) : ∃ fs, Spaced fs t := by
  induction t with
  | nil => exact ⟨[], .blank fun c hc => absurd hc List.not_mem_nil⟩
  | cons c t ih =>
    obtain ⟨fs, h⟩ := ih
    by_cases hc : c.isBlank = true
    · exact ⟨fs, h.blank_cons hc⟩
    · exact exists_spaced_cons h (by simpa using hc)

/-- **A text is its fields with blanks around them.** -/
theorem spaced_iff {fs : List Text} {t : Text} : Spaced fs t ↔ fields t = fs := by
  constructor
  · exact fields_of_spaced
  · rintro rfl
    obtain ⟨fs, h⟩ := exists_spaced t
    rwa [fields_of_spaced h]

/-- An initial part is removed once, or there is none. -/
theorem dropStart_eq_iff {start t rest : Text} :
    dropStart start t = rest ↔ t = start ++ rest ∨ ¬ start <+: t ∧ t = rest := by
  cases h : dropStart? start t with
  | none =>
    have hstart : ¬ start <+: t := by
      rintro ⟨rest, rfl⟩
      rw [dropStart?_append] at h
      exact absurd h (by simp)
    have hne : t ≠ start ++ rest := fun heq => hstart ⟨rest, heq.symm⟩
    simp [dropStart, h, hstart, hne]
  | some more =>
    rw [dropStart?_eq_some_iff] at h
    subst h
    simp [dropStart]

end Text

/-- What stands behind the marker of a comment. A text without a marker is all body. -/
inductive HasBody : Text → Text → Prop
  | marked (body : Text) : HasBody (commentMarker ++ body) body
  | bare {body : Text} (unmarked : ¬ commentMarker <+: body) : HasBody body body

theorem hasBody_iff {comment body : Text} :
    HasBody comment body ↔ Text.dropStart commentMarker comment = body := by
  rw [Text.dropStart_eq_iff]
  constructor
  · intro h
    cases h with
    | marked => exact .inl rfl
    | bare unmarked => exact .inr ⟨unmarked, rfl⟩
  · rintro (rfl | ⟨hunmarked, rfl⟩)
    · exact .marked body
    · exact .bare hunmarked

namespace Directive

/-- A field that names the policy, with a marker of its own or without. -/
inductive Names (ns policy : Text) : Text → Prop
  | bare : Names ns policy (label ns ++ policy)
  | marked : Names ns policy (commentMarker ++ (label ns ++ policy))

/-- The fields of a comment with a directive among them, in front of which there is no other field
of the namespace. -/
inductive Carries (ns policy : Text) : Text → Prop
  | intro {before after : List Text} {field body : Text} (names : Names ns policy field)
      (others : ∀ f ∈ before, ¬ label ns <+: Text.dropStart commentMarker f)
      (spaced : Text.Spaced (before ++ field :: after) body) : Carries ns policy body

variable {ns policy comment : Text}

theorem fieldValue?_eq_some_iff {field : Text} :
    fieldValue? ns field = some policy ↔
      Text.dropStart commentMarker field = label ns ++ policy :=
  Text.dropStart?_eq_some_iff

theorem fieldValue?_eq_none_iff {field : Text} :
    fieldValue? ns field = none ↔ ¬ label ns <+: Text.dropStart commentMarker field := by
  rw [Option.eq_none_iff_forall_ne_some]
  simp only [ne_eq, fieldValue?_eq_some_iff]
  constructor
  · rintro h ⟨policy, hpolicy⟩
    exact h policy hpolicy.symm
  · intro h policy hpolicy
    exact h ⟨policy, hpolicy.symm⟩

theorem Names.noBlank {field : Text} (h : Names ns policy field) (hfield : Text.IsField field) :
    (∀ c ∈ ns, c.isBlank = false) ∧ ∀ c ∈ policy, c.isBlank = false := by
  have hsubset : label ns ++ policy ⊆ field := by
    cases h with
    | bare => exact List.Subset.refl _
    | marked => exact List.subset_append_right _ _
  constructor
  · intro c hc
    exact hfield.noBlank c (hsubset (List.mem_append_left _ (List.mem_append_left _ hc)))
  · intro c hc
    exact hfield.noBlank c (hsubset (List.mem_append_right _ hc))

theorem Names.fieldValue? {field : Text} (h : Names ns policy field) (hns : Writable ns) :
    fieldValue? ns field = some policy := by
  rw [fieldValue?_eq_some_iff]
  cases h with
  | bare => exact hns.dropStart policy
  | marked => exact Text.dropStart_eq_iff.2 (.inl rfl)

/-- What a comment names is what its first field of the namespace names. -/
theorem policy?_eq_some_iff {body : Text} (hbody : HasBody comment body) :
    policy? ns comment = some policy ↔
      policy ≠ [] ∧ ∃ before field after, Text.Spaced (before ++ field :: after) body ∧
        fieldValue? ns field = some policy ∧ ∀ f ∈ before, fieldValue? ns f = none := by
  rw [policy?, Option.filter_eq_some_iff, value?, hasBody_iff.1 hbody, List.findSome?_eq_some_iff]
  simp only [Text.spaced_iff, Bool.not_eq_true', List.isEmpty_eq_false_iff, and_comm (b := _ ≠ [])]

/-- A directive is found, whatever surrounds it. -/
theorem Carries.policy? {body : Text} (h : Carries ns policy body) (hbody : HasBody comment body)
    (hns : Text.startsWith commentMarker ns = false) (hne : policy ≠ []) :
    policy? ns comment = some policy := by
  obtain ⟨names, others, spaced⟩ := h
  have hnoBlank := (names.noBlank (spaced.isField _ (by simp))).1
  exact (policy?_eq_some_iff hbody).2 ⟨hne, _, _, _, spaced, names.fieldValue? ⟨hnoBlank, hns⟩,
    fun f hf => fieldValue?_eq_none_iff.2 (others f hf)⟩

/-- What is found is a directive of the namespace. -/
theorem exists_carries (h : policy? ns comment = some policy) :
    policy ≠ [] ∧ (∀ c ∈ ns, c.isBlank = false) ∧ (∀ c ∈ policy, c.isBlank = false) ∧
      ∃ body, HasBody comment body ∧ Carries ns policy body := by
  have hbody : HasBody comment (Text.dropStart commentMarker comment) := hasBody_iff.2 rfl
  obtain ⟨hne, before, field, after, spaced, hvalue, hothers⟩ := (policy?_eq_some_iff hbody).1 h
  have hnames : Names ns policy field := by
    rw [fieldValue?_eq_some_iff, Text.dropStart_eq_iff] at hvalue
    rcases hvalue with rfl | ⟨-, rfl⟩
    · exact .marked
    · exact .bare
  obtain ⟨hns, hpolicy⟩ := hnames.noBlank (spaced.isField field (by simp))
  exact ⟨hne, hns, hpolicy, _, hbody,
    .intro hnames (fun f hf => fieldValue?_eq_none_iff.1 (hothers f hf)) spaced⟩

end Directive

/-- The first comment at the end of the line gets a directive, as a field behind its first one. -/
inductive Line.Annotates (ns : Text) (l : Line) : Line → Prop
  | intro {c : Comment} {more : List Comment} {first policy field text : Text}
      {before after : List Text} (suffix : l.comments.suffix = c :: more)
      (names : Directive.Names ns policy field)
      (inserts : Directive.InsertsField field (first :: before) after c.text text) :
      Annotates ns l
        { l with comments := { l.comments with suffix := { c with text := text } :: more } }

/-- Only the first field says whether a requirement is indirect. -/
theorem Line.Annotates.isIndirect_eq {ns : Text} {l l' : Line} (h : l.Annotates ns l') :
    l'.isIndirect = l.isIndirect := by
  obtain ⟨suffix, -, inserts⟩ := h
  simp only [Line.isIndirect, suffix, inserts.old, inserts.new, List.cons_append]

namespace Directive

/-- **A directive is found wherever it stands, and nothing else is.** A comment names the policy
of a directive that it carries, whatever fields and blanks surround it. If it names a policy, then
it carries a directive, and neither the namespace nor the policy has a blank in it. A directive
behind the first field of a comment does not change whether the requirement is indirect. -/
theorem found_iff_carried (ns : Text) :
    (Text.startsWith commentMarker ns = false → ∀ comment body policy, policy ≠ [] →
      HasBody comment body → Carries ns policy body → policy? ns comment = some policy) ∧
    (∀ comment policy, policy? ns comment = some policy →
      policy ≠ [] ∧ (∀ c ∈ ns, c.isBlank = false) ∧ (∀ c ∈ policy, c.isBlank = false) ∧
        ∃ body, HasBody comment body ∧ Carries ns policy body) ∧
    (∀ b ∈ ns, b.isBlank = true → ∀ comment, policy? ns comment = none) ∧
    ∀ l l' : Line, l.Annotates ns l' → l'.isIndirect = l.isIndirect := by
  refine ⟨fun hns comment body policy hne hbody hcarries => hcarries.policy? hbody hns hne,
    fun comment policy => exists_carries, fun b hb hblank comment => ?_,
    fun l l' => Line.Annotates.isIndirect_eq⟩
  rw [Option.eq_none_iff_forall_ne_some]
  intro policy hpolicy
  have hplain : b.isBlank = false := (exists_carries hpolicy).2.1 b hb
  rw [hblank] at hplain
  exact absurd hplain (by decide)

/-- A glued marker, other annotations, a directive of another namespace that is longer, and a
second directive. -/
theorem found_iff_carried_sample :
    let ns := Text.ofString "s"
    let body := Text.ofString "//\tindirect;s:x  ////s:q //s:p\u00a0 s:r "
    let line (comment : Text) : Line := ⟨⟨1, 1⟩, ⟨1, 5⟩, [Text.ofString "a", Text.ofString "v"],
      ⟨[], [⟨⟨1, 6⟩, comment⟩]⟩, true⟩
    let l := line (Text.ofString "//indirect; b")
    let l' := line (Text.ofString "//indirect; //s:p b")
    (Text.startsWith commentMarker ns = false ∧ HasBody (commentMarker ++ body) body ∧
        Carries ns (Text.ofString "p") body ∧ l.Annotates ns l') ∧
      policy? ns (commentMarker ++ body) = some (Text.ofString "p") ∧
      (∃ body', HasBody (Text.ofString "s:p") body' ∧ Carries ns (Text.ofString "p") body') ∧
      policy? (Text.ofString "a b") (Text.ofString "// a b:p") = none ∧
      l'.isIndirect = l.isIndirect := by
  intro ns body line l l'
  have hns : Text.startsWith commentMarker ns = false := by decide
  have hbody : HasBody (commentMarker ++ body) body := .marked body
  have hcarries : Carries ns (Text.ofString "p") body := by
    have hspaced : Text.Spaced ([Text.ofString "//", Text.ofString "indirect;s:x",
        Text.ofString "////s:q"] ++ Text.ofString "//s:p" :: [Text.ofString "s:r"]) body :=
      Text.spaced_iff.2 (by decide)
    exact .intro .marked (by decide) hspaced
  have hinserts : InsertsField (Text.ofString "//s:p") [Text.ofString "indirect;"]
      [Text.ofString "b"] (Text.ofString "//indirect; b") (Text.ofString "//indirect; //s:p b") :=
    ⟨by decide, by decide⟩
  have hnames : Names ns (Text.ofString "p") (Text.ofString "//s:p") := .marked
  have hline : l.Annotates ns l' := .intro (l := l) rfl hnames hinserts
  obtain ⟨hfound, hcarried, -, hindirect⟩ := found_iff_carried ns
  obtain ⟨-, -, hblank, -⟩ := found_iff_carried (Text.ofString "a b")
  exact ⟨⟨hns, hbody, hcarries, hline⟩, hfound hns _ body _ (by decide) hbody hcarries,
    (hcarried (Text.ofString "s:p") (Text.ofString "p") (by decide)).2.2.2,
    hblank ' ' (by decide) (by decide) _, hindirect l l' hline⟩

end Directive

end ManifestPolicy
