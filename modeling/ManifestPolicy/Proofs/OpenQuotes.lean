import ManifestPolicy.Proofs.Acceptance

/-!
# Open quotes

A line that cannot be cut into tokens has a quote that is never closed. Which quote that is can be
said without the reader: it stands outside comments and outside the quoted strings before it, and
nothing after it on the line closes it. A line has at most one such quote.

## Main definitions

* `InQuotes`: what stands between two quotes.
* `OpensQuote`: a place of a line where a quote opens that is never closed.

## Main statements

* `cutQuoted_eq_some_iff`: a quoted string ends at the first quote that is not escaped.
* `OpensQuote.unique`: a line has at most one open quote.
* `scanFrom_eq_error_iff`, `scanLines_eq_error_iff`: lines are refused at their open quotes.
-/

namespace ManifestPolicy.Manifest

/-- What stands between two quotes: code points that do not close the string. Between double
quotes an escape mark comes with the code point after it, whatever that is. -/
inductive InQuotes (quote : CodePoint) : Text → Prop
  | nil : InQuotes quote []
  | plain {c : CodePoint} {t : Text} (noQuote : c ≠ quote)
      (noEscape : quote = quotation → c ≠ backslash) (more : InQuotes quote t) :
      InQuotes quote (c :: t)
  | pair {c : CodePoint} {t : Text} (string : quote = quotation) (more : InQuotes quote t) :
      InQuotes quote (backslash :: c :: t)

/-- What is cut off as a quoted string ends with its quote, and nothing before it closes the
string. The induction is on the length, as an escape mark takes two code points. -/
theorem exists_inQuotes_of_cutQuoted {quote : CodePoint} {t body rest : Text}
    (h : cutQuoted quote false t = some (body, rest)) :
    ∃ inside, InQuotes quote inside ∧ body = inside ++ [quote] := by
  induction hn : t.length using Nat.strongRecOn generalizing t body rest with
  | ind n ih =>
    cases t with
    | nil => simp [cutQuoted] at h
    | cons c t =>
      rw [List.length_cons] at hn
      rw [cutQuoted] at h
      by_cases hescape : quote = quotation ∧ c = backslash
      · rw [if_pos hescape] at h
        obtain ⟨cut, hcut, hb⟩ := Option.map_eq_some_iff.1 h
        cases t with
        | nil => simp [cutQuoted] at hcut
        | cons d t =>
          rw [List.length_cons] at hn
          rw [cutQuoted] at hcut
          obtain ⟨⟨body, rest⟩, hrest, rfl⟩ := Option.map_eq_some_iff.1 hcut
          cases hb
          obtain ⟨inside, hinside, rfl⟩ := ih t.length (by omega) hrest rfl
          exact ⟨backslash :: d :: inside, .pair hescape.1 hinside, by rw [hescape.2]; rfl⟩
      · rw [if_neg hescape] at h
        by_cases hclose : c = quote
        · rw [if_pos hclose, Option.some.injEq, Prod.mk.injEq] at h
          exact ⟨[], .nil, by rw [← h.1, hclose]; rfl⟩
        · rw [if_neg hclose] at h
          obtain ⟨⟨body, rest⟩, hcut, hb⟩ := Option.map_eq_some_iff.1 h
          cases hb
          obtain ⟨inside, hinside, rfl⟩ := ih t.length (by omega) hcut rfl
          have hplain : quote = quotation → c ≠ backslash := fun hq hc => hescape ⟨hq, hc⟩
          exact ⟨c :: inside, .plain hclose hplain hinside, rfl⟩

theorem quotation_ne_backslash : quotation ≠ backslash := by decide

theorem cutQuoted_of_inQuotes {quote : CodePoint} {inside : Text} (h : InQuotes quote inside)
    (rest : Text) :
    cutQuoted quote false (inside ++ quote :: rest) = some (inside ++ [quote], rest) := by
  induction h with
  | nil =>
    have hescape : ¬ (quote = quotation ∧ quote = backslash) :=
      fun hq => quotation_ne_backslash (hq.1.symm.trans hq.2)
    rw [List.nil_append, cutQuoted, if_neg hescape, if_pos rfl]
    rfl
  | @plain c t noQuote noEscape _ ih =>
    have hescape : ¬ (quote = quotation ∧ c = backslash) := fun hq => noEscape hq.1 hq.2
    rw [List.cons_append, cutQuoted, if_neg hescape, if_neg noQuote, ih]
    rfl
  | pair string _ ih =>
    rw [List.cons_append, List.cons_append, cutQuoted, if_pos ⟨string, rfl⟩, cutQuoted, ih]
    rfl

/-- **A quoted string ends at the first quote that closes it.** -/
theorem cutQuoted_eq_some_iff {quote : CodePoint} {t body rest : Text} :
    cutQuoted quote false t = some (body, rest) ↔
      ∃ inside, InQuotes quote inside ∧ body = inside ++ [quote] ∧ t = inside ++ quote :: rest := by
  constructor
  · intro h
    obtain ⟨inside, hinside, hbody⟩ := exists_inQuotes_of_cutQuoted h
    have happend := append_of_cutQuoted h
    rw [hbody, List.append_assoc, List.singleton_append] at happend
    exact ⟨inside, hinside, hbody, happend.symm⟩
  · rintro ⟨inside, hinside, rfl, rfl⟩
    exact cutQuoted_of_inQuotes hinside rest

theorem cutQuoted_eq_none_iff {quote : CodePoint} {t : Text} :
    cutQuoted quote false t = none ↔
      ∀ inside rest, InQuotes quote inside → t ≠ inside ++ quote :: rest := by
  rw [Option.eq_none_iff_forall_ne_some]
  constructor
  · intro h inside rest hinside ht
    exact h (inside ++ [quote], rest) (cutQuoted_eq_some_iff.2 ⟨inside, hinside, rfl, ht⟩)
  · rintro h ⟨body, rest⟩ hcut
    obtain ⟨inside, hinside, -, ht⟩ := cutQuoted_eq_some_iff.1 hcut
    exact h inside rest hinside ht

/-- A quote that opens outside comments and outside the quoted strings before it, and that nothing
after it closes. -/
structure OpensQuote (before : Text) (quote : CodePoint) (after : Text) : Prop where
  outside : Passes .outside before (quote :: after)
  isQuote : isQuote quote = true
  neverClosed : ∀ inside rest, InQuotes quote inside → after ≠ inside ++ quote :: rest

theorem OpensQuote.prepend {s before after : Text} {quote : CodePoint}
    (h : OpensQuote before quote after) (hs : Passes .outside s (before ++ quote :: after)) :
    OpensQuote (s ++ before) quote after :=
  ⟨hs.append h.outside, h.isQuote, h.neverClosed⟩

/-- A line that is refused has an open quote. -/
theorem exists_opensQuote_of_scanFrom {number column : Int} {t : Text} {f : Fault}
    (h : scanFrom number column t = .error f) :
    ∃ before quote after, t = before ++ quote :: after ∧ OpensQuote before quote after ∧
      f = ⟨.unterminatedQuote, ⟨number, column + before.length⟩⟩ := by
  induction t using lineInduction generalizing column with
  | nil => simp at h
  | blank c t hblank ih =>
    rw [scanFrom, if_pos hblank] at h
    obtain ⟨before, quote, after, rfl, hopens, rfl⟩ := ih h
    have hpasses : Passes .outside [c] (before ++ quote :: after) :=
      passes_blanks (by simpa [Blanks] using hblank) _
    exact ⟨c :: before, quote, after, rfl, hopens.prepend hpasses, by rw [add_length_cons]⟩
  | remark t hmarker =>
    rw [scanFrom_remark _ _ (.inr hmarker)] at h
    cases h
  | openQuote c t hquote hopen =>
    rw [scanFrom_openQuote _ _ hquote hopen, Except.error.injEq] at h
    exact ⟨[], c, t, rfl, ⟨.done _, hquote, cutQuoted_eq_none_iff.1 hopen⟩, by simp [← h]⟩
  | token token rest hcuts ih =>
    rw [scanFrom_token _ _ hcuts] at h
    cases hrest : scanFrom number (column + token.length) rest with
    | ok r => simp [hrest, Except.map] at h
    | error g =>
      rw [hrest] at h
      obtain rfl : g = f := Except.error.inj h
      obtain ⟨before, quote, after, rfl, hopens, rfl⟩ := ih hrest
      refine ⟨token ++ before, quote, after, ?_, hopens.prepend (passes_token hcuts), ?_⟩
      · rw [List.append_assoc]
      · rw [List.length_append, Int.natCast_add, Int.add_assoc]

/-- Inside a quoted string the walk can reach the outside only where the string is closed. -/
theorem cutQuoted_ne_none_of_passes {quoting : Quoting} {s rest : Text}
    (h : Passes quoting s rest) {quote : CodePoint} {escaped : Bool}
    (hwithin : quoting = .within quote escaped) : cutQuoted quote escaped (s ++ rest) ≠ none := by
  induction h generalizing escaped with
  | done rest => simp at hwithin
  | @step quoting c t rest _ more ih =>
    rw [List.cons_append]
    cases escaped with
    | true =>
      rw [cutQuoted, ne_eq, Option.map_eq_none_iff]
      exact ih (by rw [hwithin]; rfl)
    | false =>
      rw [cutQuoted]
      split
      · next hescape =>
        rw [ne_eq, Option.map_eq_none_iff]
        exact ih (by rw [hwithin, Quoting.next, if_pos hescape])
      · next hescape =>
        split
        · simp
        · next hclose =>
          rw [ne_eq, Option.map_eq_none_iff]
          exact ih (by rw [hwithin, Quoting.next, if_neg hescape, if_neg hclose])

/-- A walk to a place on the way to another place goes on from there. -/
theorem Passes.of_append {quoting : Quoting} {s t rest : Text} (h : Passes quoting (s ++ t) rest)
    (hs : Passes quoting s (t ++ rest)) : Passes .outside t rest := by
  induction s generalizing quoting with
  | nil =>
    cases hs
    exact h
  | cons c s ih =>
    cases hs with
    | step _ more =>
      rw [List.cons_append] at h
      cases h with
      | step _ more' => exact ih more' more

/-- No walk goes past an open quote. -/
theorem OpensQuote.not_passes {before after more rest : Text} {quote : CodePoint}
    (h : OpensQuote before quote after) (hafter : after = more ++ rest) :
    ¬ Passes .outside (before ++ quote :: more) rest := by
  intro hpasses
  have hbefore : Passes .outside before ((quote :: more) ++ rest) := by
    rw [List.cons_append, ← hafter]
    exact h.outside
  cases hpasses.of_append hbefore with
  | step _ hwithin =>
    rw [Quoting.next, if_pos h.isQuote] at hwithin
    refine cutQuoted_ne_none_of_passes hwithin rfl ?_
    rw [← hafter]
    exact cutQuoted_eq_none_iff.2 h.neverClosed

/-- **A line has at most one open quote.** -/
theorem OpensQuote.unique {before after before' after' : Text} {quote quote' : CodePoint}
    (h : OpensQuote before quote after) (h' : OpensQuote before' quote' after')
    (heq : before ++ quote :: after = before' ++ quote' :: after') : before = before' := by
  rcases List.append_eq_append_iff.1 heq with ⟨s, hbefore', hafter⟩ | ⟨s, hbefore, hafter'⟩
  · cases s with
    | nil => rw [hbefore', List.append_nil]
    | cons c s =>
      rw [List.cons_append, List.cons.injEq] at hafter
      have hpasses := h'.outside
      rw [hbefore', ← hafter.1] at hpasses
      exact absurd hpasses (h.not_passes hafter.2)
  · cases s with
    | nil => rw [hbefore, List.append_nil]
    | cons c s =>
      rw [List.cons_append, List.cons.injEq] at hafter'
      have hpasses := h.outside
      rw [hbefore, ← hafter'.1] at hpasses
      exact absurd hpasses (h'.not_passes hafter'.2)

theorem OpensQuote.endsQuoted {before after : Text} {quote : CodePoint}
    (h : OpensQuote before quote after) :
    endsQuoted .outside (before ++ quote :: after) = true := by
  have hmarker := startsWith_commentMarker_of_ne (ne_solidus_of_special (.inr h.isQuote)) after
  rw [endsQuoted_passes h.outside, Manifest.endsQuoted, if_neg (by simp [hmarker]), Quoting.next,
    if_pos h.isQuote]
  exact endsQuoted_of_cutQuoted (cutQuoted_eq_none_iff.2 h.neverClosed)

/-- **A line is refused exactly for its open quote.** -/
theorem scanFrom_eq_error_iff {number column : Int} {t : Text} {f : Fault} :
    scanFrom number column t = .error f ↔
      ∃ before quote after, t = before ++ quote :: after ∧ OpensQuote before quote after ∧
        f = ⟨.unterminatedQuote, ⟨number, column + before.length⟩⟩ := by
  refine ⟨exists_opensQuote_of_scanFrom, ?_⟩
  rintro ⟨before, quote, after, rfl, hopens, rfl⟩
  cases hscan : scanFrom number column (before ++ quote :: after) with
  | ok r =>
    have hclosed := exists_scanFrom_iff.1 ⟨r, hscan⟩
    rw [hopens.endsQuoted] at hclosed
    exact absurd hclosed (by simp)
  | error g =>
    obtain ⟨before', quote', after', heq, hopens', rfl⟩ := exists_opensQuote_of_scanFrom hscan
    rw [hopens.unique hopens' heq]

theorem ofText_eq_error_iff {number : Int} {t : Text} {f : Fault} :
    ScannedLine.ofText number t = .error f ↔ scanFrom number 1 t = .error f := by
  rw [ScannedLine.ofText, bind_eq_error_iff]
  constructor
  · rintro (h | ⟨⟨tokens, comment⟩, -, h⟩)
    · exact h
    · cases h
  · exact .inl

/-- **Lines are refused for the open quote of the first line that has one.** -/
theorem scanLines_eq_error_iff {number : Int} {texts : List Text} {f : Fault} :
    scanLines number texts = .error f ↔
      ∃ above before quote after below,
        texts = above ++ (before ++ quote :: after) :: below ∧
        (∀ t ∈ above, endsQuoted .outside t = false) ∧ OpensQuote before quote after ∧
        f = ⟨.unterminatedQuote, ⟨number + above.length, 1 + before.length⟩⟩ := by
  induction texts generalizing number with
  | nil => simp [scanLines]
  | cons t texts ih =>
    rw [scanLines, bind_eq_error_iff, ofText_eq_error_iff, scanFrom_eq_error_iff]
    constructor
    · rintro (⟨before, quote, after, rfl, hopens, rfl⟩ | ⟨line, hline, h⟩)
      · exact ⟨[], before, quote, after, texts, rfl, by simp, hopens, by simp⟩
      · obtain ⟨tokens, comment, hscan, -⟩ := ofText_eq_ok_iff.1 hline
        have hclosed := exists_scanFrom_iff.1 ⟨_, hscan⟩
        obtain hmore | ⟨more, -, h⟩ := bind_eq_error_iff.1 h
        · obtain ⟨above, before, quote, after, below, rfl, habove, hopens, rfl⟩ := ih.1 hmore
          refine ⟨t :: above, before, quote, after, below, rfl, ?_, hopens, ?_⟩
          · exact List.forall_mem_cons.2 ⟨hclosed, habove⟩
          · rw [add_length_cons]
        · cases h
    · rintro ⟨above, before, quote, after, below, htexts, habove, hopens, rfl⟩
      cases above with
      | nil =>
        rw [List.nil_append, List.cons.injEq] at htexts
        exact .inl ⟨before, quote, after, htexts.1, hopens, by simp⟩
      | cons s above =>
        rw [List.cons_append, List.cons.injEq] at htexts
        obtain ⟨rfl, rfl⟩ := htexts
        obtain ⟨hclosed, habove⟩ := List.forall_mem_cons.1 habove
        obtain ⟨⟨tokens, comment⟩, hscan⟩ := exists_scanFrom_iff.2 hclosed
        refine .inr ⟨_, ofText_eq_ok_iff.2 ⟨tokens, comment, hscan, rfl⟩, ?_⟩
        refine bind_eq_error_iff.2 (.inl (ih.2 ?_))
        exact ⟨above, before, quote, after, below, rfl, habove, hopens, by rw [add_length_cons]⟩

end ManifestPolicy.Manifest
