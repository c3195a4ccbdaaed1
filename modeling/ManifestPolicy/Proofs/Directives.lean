import ManifestPolicy.Directive
import ManifestPolicy.Proofs.Spelling
import Mathlib.Data.List.DropRight

/-!
# Comments and directives as texts

A comment can be written on a line of its own and is then read back as it was: it starts
with its marker, it ends with no blank, and no code point of it ends a line. A policy can be
written as a comment that names it and no other, because a policy is part of a field and
has no blank in it.

## Main definitions

* `Text.OneLine`, `Text.ofLines`: a text without line ends, and the text with given lines.
* `IsCommentText`: what the text of a comment satisfies.
* `Directive.written`: the comment that names a policy.

## Main statements

* `Text.lines_ofLines`: the lines of a text that was put together from lines.
* `Directive.policy?_written`: a written policy is read back.
* `Directive.not_isBlank_of_policy?`: a policy has no blank in it.
-/

namespace ManifestPolicy

/-- A code point that ends a line is a blank. -/
theorem CodePoint.isBlank_of_endsLine {c : CodePoint} (h : c.endsLine = true) :
    c.isBlank = true := by
  have hmem : c.val ∈ lineEnds := List.contains_iff_mem.1 h
  simp only [lineEnds, List.mem_cons, List.not_mem_nil, or_false] at hmem
  rcases hmem with h | h | h | h | h | h | h | h | h | h
  all_goals simp [isBlank, blankRanges, between, h]

theorem CodePoint.not_endsLine_of_not_isBlank {c : CodePoint} (h : c.isBlank = false) :
    c.endsLine = false := by
  by_cases hend : c.endsLine = true
  · rw [isBlank_of_endsLine hend] at h
    exact absurd h (by decide)
  · simpa using hend

namespace Text

theorem not_cuts_of_mem_cutAt {cuts : CodePoint → Bool} {t p : Text} (h : p ∈ cutAt cuts t) :
    ∀ c ∈ p, cuts c = false := by
  induction t generalizing p with
  | nil =>
    rw [cutAt, List.mem_singleton] at h
    simp [h]
  | cons d t ih =>
    rw [cutAt] at h
    by_cases hd : cuts d = true
    · rw [if_pos hd] at h
      rcases List.mem_cons.1 h with rfl | h
      · simp
      · exact ih h
    · rw [if_neg hd] at h
      cases hcut : cutAt cuts t with
      | nil => exact absurd hcut (cutAt_ne_nil cuts t)
      | cons q qs =>
        rw [hcut] at h ih
        rcases List.mem_cons.1 h with rfl | h
        · intro c hc
          rcases List.mem_cons.1 hc with rfl | hc
          · simpa using hd
          · exact ih List.mem_cons_self c hc
        · exact ih (List.mem_cons_of_mem _ h)

theorem not_isBlank_of_mem_fields {t field : Text} (h : field ∈ fields t) :
    ∀ c ∈ field, c.isBlank = false :=
  not_cuts_of_mem_cutAt (List.mem_filter.1 h).1

theorem trimEnd_eq (t : Text) : trimEnd t = t.rdropWhile CodePoint.isBlank := rfl

@[simp] theorem trimEnd_trimEnd (t : Text) : trimEnd (trimEnd t) = trimEnd t :=
  List.rdropWhile_idempotent _ t

/-- Nothing is trimmed where the last code point is no blank. -/
theorem trimEnd_concat (t : Text) {c : CodePoint} (h : c.isBlank = false) :
    trimEnd (t ++ [c]) = t ++ [c] :=
  List.rdropWhile_concat_neg _ t c (by simp [h])

theorem mem_of_mem_trimEnd {t : Text} {c : CodePoint} (h : c ∈ trimEnd t) : c ∈ t := by
  rw [trimEnd_eq] at h
  exact (List.rdropWhile_prefix _ t).mem h

/-- No code point of the text ends a line. -/
def OneLine (t : Text) : Prop := ∀ c ∈ t, c.endsLine = false

instance (t : Text) : Decidable t.OneLine :=
  inferInstanceAs (Decidable (∀ c ∈ t, c.endsLine = false))

theorem oneLine_of_noBlank {t : Text} (h : ∀ c ∈ t, c.isBlank = false) : t.OneLine :=
  fun c hc => CodePoint.not_endsLine_of_not_isBlank (h c hc)

theorem OneLine.append {s t : Text} (hs : s.OneLine) (ht : t.OneLine) : OneLine (s ++ t) := by
  intro c hc
  rcases List.mem_append.1 hc with hc | hc
  · exact hs c hc
  · exact ht c hc

theorem OneLine.of_subset {s t : Text} (h : t.OneLine) (hs : s ⊆ t) : s.OneLine :=
  fun c hc => h c (hs hc)

/-- The text with these lines, each ended by a line feed. -/
def ofLines (ls : List Text) : Text := ls.flatMap fun l => l ++ [('\n' : CodePoint)]

theorem oneLine_of_mem_cutLines {t l : Text} (h : l ∈ cutLines t) : l.OneLine := by
  induction t generalizing l with
  | nil => simp [cutLines] at h
  | cons d t ih =>
    rw [cutLines] at h
    by_cases hd : d.endsLine = true
    · rw [if_pos hd] at h
      rcases List.mem_cons.1 h with rfl | h
      · simp [OneLine]
      · exact ih h
    · rw [if_neg hd] at h
      cases hcut : cutLines t with
      | nil =>
        rw [hcut, List.mem_singleton] at h
        simpa [h, OneLine] using hd
      | cons k ks =>
        rw [hcut] at h ih
        rcases List.mem_cons.1 h with rfl | h
        · intro c hc
          rcases List.mem_cons.1 hc with rfl | hc
          · simpa using hd
          · exact ih List.mem_cons_self c hc
        · exact ih (List.mem_cons_of_mem _ h)

theorem oneLine_of_mem_lines {t l : Text} (h : l ∈ lines t) : l.OneLine :=
  oneLine_of_mem_cutLines h

theorem cutLines_append {l : Text} (h : l.OneLine) {c : CodePoint} (hc : c.endsLine = true)
    (t : Text) : cutLines (l ++ c :: t) = l :: cutLines t := by
  induction l with
  | nil => rw [List.nil_append, cutLines, if_pos hc]
  | cons d l ih =>
    rw [List.cons_append, cutLines, if_neg (by simp [h d List.mem_cons_self]),
      ih fun e he => h e (List.mem_cons_of_mem _ he)]

theorem carriageReturn_not_mem_ofLines {ls : List Text} (h : ∀ l ∈ ls, l.OneLine) :
    ('\r' : CodePoint) ∉ ofLines ls := by
  rw [ofLines, List.mem_flatMap]
  rintro ⟨l, hl, hc⟩
  rcases List.mem_append.1 hc with hc | hc
  · exact absurd (h l hl _ hc) (by decide)
  · exact absurd (List.mem_singleton.1 hc) (by decide)

/-- A text that was put together from lines has these lines. -/
theorem lines_ofLines {ls : List Text} (h : ∀ l ∈ ls, l.OneLine) :
    lines (ofLines ls) = ls := by
  rw [lines, unifyNewlines_of_not_mem (carriageReturn_not_mem_ofLines h)]
  induction ls with
  | nil => rfl
  | cons l ls ih =>
    have hl := h l List.mem_cons_self
    rw [ofLines, List.flatMap_cons, List.append_assoc, List.singleton_append,
      cutLines_append hl (by decide)]
    exact congrArg (l :: ·) (ih fun k hk => h k (List.mem_cons_of_mem _ hk))

end Text

/-- What the text of a comment satisfies. -/
structure IsCommentText (t : Text) : Prop where
  marker : Text.startsWith commentMarker t = true
  trimmed : Text.trimEnd t = t
  oneLine : t.OneLine

/-- The blanks at the end of a comment are not in its marker. -/
theorem startsWith_trimEnd {t : Text} (h : Text.startsWith commentMarker t = true) :
    Text.startsWith commentMarker (Text.trimEnd t) = true := by
  obtain ⟨rest, rfl⟩ := Manifest.startsWith_commentMarker_iff.1 h
  have hdrop : (commentMarker ++ rest).reverse = rest.reverse ++ commentMarker.reverse :=
    List.reverse_append
  have hmarker : commentMarker.reverse.dropWhile CodePoint.isBlank = commentMarker.reverse := by
    decide
  change Text.startsWith commentMarker (Text.trimEnd (commentMarker ++ rest)) = true
  rw [Text.trimEnd, hdrop, List.dropWhile_append]
  by_cases hrest : (rest.reverse.dropWhile CodePoint.isBlank).isEmpty = true
  · rw [if_pos hrest, hmarker]
    rfl
  · rw [if_neg hrest, List.reverse_append, List.reverse_reverse]
    exact Manifest.startsWith_commentMarker_iff.2 ⟨_, rfl⟩

/-- A text from a marker on, without the blanks at its end, is the text of a comment. -/
theorem isCommentText_trimEnd {t : Text} (h : Text.startsWith commentMarker t = true)
    (hline : t.OneLine) : IsCommentText (Text.trimEnd t) :=
  ⟨startsWith_trimEnd h, Text.trimEnd_trimEnd t,
    hline.of_subset fun _ hc => Text.mem_of_mem_trimEnd hc⟩

namespace Directive

/-- The comment that names a policy. -/
def written (ns policy : Text) : Text := commentMarker ++ (' ' : CodePoint) :: (label ns ++ policy)

theorem exists_of_policy? {ns comment policy : Text} (h : policy? ns comment = some policy) :
    policy ≠ [] ∧ ∃ field ∈ Text.fields (Text.dropStart commentMarker comment),
      Text.dropStart commentMarker field = label ns ++ policy := by
  rw [policy?, Option.filter_eq_some_iff] at h
  obtain ⟨hvalue, hne⟩ := h
  obtain ⟨field, hfield, hfound⟩ := List.exists_of_findSome?_eq_some hvalue
  exact ⟨by simpa using hne, field, hfield, Text.dropStart?_eq_some_iff.1 hfound⟩

theorem mem_of_mem_dropStart {start t : Text} {c : CodePoint}
    (h : c ∈ Text.dropStart start t) : c ∈ t := by
  rw [Text.dropStart] at h
  cases hdrop : Text.dropStart? start t with
  | none => rwa [hdrop] at h
  | some rest =>
    rw [hdrop] at h
    rw [Text.dropStart?_eq_some_iff.1 hdrop]
    exact List.mem_append_right start h

/-- A policy has no blank in it. -/
theorem not_isBlank_of_policy? {ns comment policy : Text}
    (h : policy? ns comment = some policy) : ∀ c ∈ policy, c.isBlank = false := by
  intro c hc
  obtain ⟨-, field, hfield, hdrop⟩ := exists_of_policy? h
  have hmem : c ∈ Text.dropStart commentMarker field := by
    rw [hdrop]
    exact List.mem_append_right _ hc
  exact Text.not_isBlank_of_mem_fields hfield c (mem_of_mem_dropStart hmem)

/-- A namespace that directives can be written with: a field can start with it, and it is
not taken for a marker. -/
structure Writable (ns : Text) : Prop where
  noBlank : ∀ c ∈ ns, c.isBlank = false
  noMarker : Text.startsWith commentMarker ns = false

theorem Writable.dropStart {ns : Text} (h : Writable ns) (policy : Text) :
    Text.dropStart commentMarker (label ns ++ policy) = label ns ++ policy := by
  have hnone : Text.dropStart? commentMarker (label ns ++ policy) = none := by
    rw [Option.eq_none_iff_forall_ne_some]
    intro rest hrest
    rw [Text.dropStart?_eq_some_iff, label, List.append_assoc] at hrest
    have hmarker := h.noMarker
    -- the colon ends the namespace before a marker is complete
    match ns with
    | [] =>
      rw [List.nil_append, commentMarker] at hrest
      exact absurd (List.cons.inj hrest).1 (by decide)
    | [c] =>
      have htail := (List.cons.inj hrest).2
      exact absurd (List.cons.inj htail).1 (by decide)
    | c :: d :: ns =>
      obtain ⟨rfl, htail⟩ := List.cons.inj hrest
      obtain ⟨rfl, -⟩ := List.cons.inj htail
      have hstart : Text.startsWith commentMarker (commentMarker ++ ns) = true :=
        Manifest.startsWith_commentMarker_iff.2 ⟨ns, rfl⟩
      exact absurd (hstart.symm.trans hmarker) (by decide)
  rw [Text.dropStart, hnone]
  rfl

/-- A written policy is read back. -/
theorem policy?_written {ns policy : Text} (hns : Writable ns) (hne : policy ≠ [])
    (hpolicy : ∀ c ∈ policy, c.isBlank = false) :
    policy? ns (written ns policy) = some policy := by
  have hblank : ∀ c ∈ label ns ++ policy, c.isBlank = false := by
    intro c hc
    rcases List.mem_append.1 hc with hc | hc
    · rcases List.mem_append.1 hc with hc | hc
      · exact hns.noBlank c hc
      · rw [List.mem_singleton.1 hc]
        decide
    · exact hpolicy c hc
  have hfields : Text.fields (Text.dropStart commentMarker (written ns policy)) =
      [label ns ++ policy] := by
    rw [written, Text.dropStart, Text.dropStart?_append, Option.getD_some,
      Text.fields_blank_cons _ (by decide), Text.fields_of_noBlank hblank (by simp [hne])]
  have hvalue : value? ns (written ns policy) = some policy := by
    rw [value?, hfields, List.findSome?_singleton, fieldValue?, hns.dropStart,
      Text.dropStart?_append]
  rw [policy?, hvalue, Option.filter_some, if_pos (by simpa using hne)]

/-- A written policy is the text of a comment. -/
theorem isCommentText_written {ns policy : Text} (hns : Writable ns) (hne : policy ≠ [])
    (hpolicy : ∀ c ∈ policy, c.isBlank = false) : IsCommentText (written ns policy) := by
  refine ⟨Manifest.startsWith_commentMarker_iff.2 ⟨_, rfl⟩, ?_, ?_⟩
  · have hlast : policy = policy.dropLast ++ [policy.getLast hne] :=
      (List.dropLast_concat_getLast hne).symm
    rw [written, hlast, ← List.append_assoc, ← List.cons_append, ← List.append_assoc]
    exact Text.trimEnd_concat _ (hpolicy _ (List.getLast_mem hne))
  · have hmarker : Text.OneLine (commentMarker ++ [(' ' : CodePoint)]) := by decide
    have hcolon : Text.OneLine (Text.ofString ":") := by decide
    have hlabel : (label ns).OneLine := (Text.oneLine_of_noBlank hns.noBlank).append hcolon
    exact hmarker.append (hlabel.append (Text.oneLine_of_noBlank hpolicy))

end Directive

end ManifestPolicy
