import ManifestPolicy.Manifest.Token

/-!
# How a line spells its tokens

A line is a list of pieces, each some blanks and a token, then blanks and then nothing or a
comment. Reading a line finds its pieces, and reading the spelling of some pieces gives
these pieces back, so a line can be taken apart and put together in another way.

Where a token ends depends on what follows it only for a bare word, and there only on the
next code points. So a token keeps its extent before every text that starts with a blank, a
parenthesis or a quote.

## Main definitions

* `Piece`, `spell`, `tokensAt`: some tokens with their gaps, as a text and as read.
* `Cuts`: a token is what is cut off first.
* `Spelled`: every token of a spelling is cut off where it ends.

## Main statements

* `scanFrom_spell`: what is read from a spelling.
* `lineInduction`: induction over a line as it is read.
* `exists_spell_of_scanFrom`: every line that can be read is a spelling.
* `Spelled.of_breaks`: a spelling can be continued in another way.
-/

namespace ManifestPolicy.Manifest

/-! ## Spellings -/

/-- A token and the blanks before it. -/
structure Piece where
  gap : Text
  token : Text

/-- The text of some pieces and what follows them. -/
def spell : List Piece → Text → Text
  | [], tail => tail
  | p :: ps, tail => p.gap ++ (p.token ++ spell ps tail)

/-- How many code points some pieces take. -/
def width : List Piece → Nat
  | [] => 0
  | p :: ps => p.gap.length + p.token.length + width ps

/-- The tokens of some pieces that start at a column of a line. -/
def tokensAt (number column : Int) : List Piece → List Token
  | [] => []
  | p :: ps =>
    ⟨p.token, ⟨number, column + p.gap.length⟩,
      ⟨number, column + p.gap.length + p.token.length⟩⟩ ::
      tokensAt number (column + p.gap.length + p.token.length) ps

/-- A text of blanks only. -/
def Blanks (t : Text) : Prop := ∀ c ∈ t, c.isBlank = true

/-- A comment from its marker on, or nothing. -/
def IsRemark (remark : Text) : Prop :=
  remark = [] ∨ Text.startsWith commentMarker remark = true

/-- The comment that a remark is. -/
def remarkAt (number column : Int) : Text → Option Comment
  | [] => none
  | c :: t => some ⟨⟨number, column⟩, Text.trimEnd (c :: t)⟩

/-- Reading a text that starts with `token` and goes on with `rest` cuts off `token`. -/
structure Cuts (token rest : Text) : Prop where
  head : ∃ c body, token = c :: body ∧ c.isBlank = false
  noMarker : Text.startsWith commentMarker (token ++ rest) = false
  cut : cutToken (token ++ rest) = some (token, rest)

/-- Every token of the pieces is cut off where its piece ends. -/
def Spelled : List Piece → Text → Prop
  | [], _ => True
  | p :: ps, tail => Blanks p.gap ∧ Cuts p.token (spell ps tail) ∧ Spelled ps tail

theorem spell_append_tail (ps : List Piece) (s t : Text) :
    spell ps (s ++ t) = spell ps s ++ t := by
  induction ps with
  | nil => rfl
  | cons p ps ih => simp [spell, ih]

theorem length_spell (ps : List Piece) (tail : Text) :
    (spell ps tail).length = width ps + tail.length := by
  induction ps with
  | nil => simp [spell, width]
  | cons p ps ih =>
    simp only [spell, width, List.length_append, ih]
    omega

theorem map_text_tokensAt (number column : Int) (ps : List Piece) :
    (tokensAt number column ps).map Token.text = ps.map Piece.token := by
  induction ps generalizing column with
  | nil => rfl
  | cons p ps ih => simp [tokensAt, ih]

theorem line_of_mem_tokensAt {number column : Int} {ps : List Piece} {t : Token}
    (h : t ∈ tokensAt number column ps) : t.start.line = number ∧ t.stop.line = number := by
  induction ps generalizing column with
  | nil => simp [tokensAt] at h
  | cons p ps ih =>
    rcases List.mem_cons.1 h with rfl | h
    · exact ⟨rfl, rfl⟩
    · exact ih h

theorem startsWith_commentMarker_iff {t : Text} :
    Text.startsWith commentMarker t = true ↔
      ∃ rest, t = ('/' : CodePoint) :: ('/' : CodePoint) :: rest := by
  rw [Text.startsWith, Option.isSome_iff_exists]
  simp only [Text.dropStart?_eq_some_iff, commentMarker, List.cons_append, List.nil_append]

/-- Two texts that agree in their first two code points start both with a marker or none. -/
theorem startsWith_commentMarker_cons_cons (c d : CodePoint) (s t : Text) :
    Text.startsWith commentMarker (c :: d :: s) = Text.startsWith commentMarker (c :: d :: t) := by
  simp only [Text.startsWith, commentMarker, Text.dropStart?]
  split
  · split <;> rfl
  · rfl

/-- A marker starts with a solidus. -/
theorem startsWith_commentMarker_of_ne {c : CodePoint} (h : c ≠ '/') (t : Text) :
    Text.startsWith commentMarker (c :: t) = false := by
  rw [Bool.eq_false_iff, ne_eq, startsWith_commentMarker_iff]
  rintro ⟨rest, hrest⟩
  rw [List.cons.injEq] at hrest
  exact h hrest.1

theorem solidus_not_special :
    (CodePoint.ofChar '/').isBlank = false ∧ isParen '/' = false ∧ isQuote '/' = false := by
  decide

/-! ## Reading what is spelled -/

section

variable (number column : Int)

@[simp] theorem scanFrom_nil : scanFrom number column [] = .ok ([], none) := by
  rw [scanFrom]

theorem scanFrom_blanks {gap : Text} (h : Blanks gap) (t : Text) :
    scanFrom number column (gap ++ t) = scanFrom number (column + gap.length) t := by
  induction gap generalizing column with
  | nil => simp
  | cons c gap ih =>
    have hc : c.isBlank = true := h c List.mem_cons_self
    rw [List.cons_append, scanFrom, if_pos hc, ih (column + 1) fun d hd => h d (by simp [hd])]
    congr 1
    rw [List.length_cons]
    omega

theorem scanFrom_remark {remark : Text} (h : IsRemark remark) :
    scanFrom number column remark = .ok ([], remarkAt number column remark) := by
  rcases h with rfl | h
  · simp [remarkAt]
  · obtain ⟨rest, rfl⟩ := startsWith_commentMarker_iff.1 h
    rw [scanFrom, if_neg (by simp [solidus_not_special.1]), if_pos h, remarkAt]

theorem scanFrom_token {token rest : Text} (h : Cuts token rest) :
    scanFrom number column (token ++ rest) =
      (scanFrom number (column + token.length) rest).map fun r =>
        (⟨token, ⟨number, column⟩, ⟨number, column + token.length⟩⟩ :: r.1, r.2) := by
  obtain ⟨c, body, rfl, hc⟩ := h.head
  have hcut := h.cut
  have hmarker := h.noMarker
  rw [List.cons_append] at hcut hmarker ⊢
  rw [scanFrom, if_neg (by simp [hc]), if_neg (by simp [hmarker])]
  split
  · next hnone => simp [hcut] at hnone
  · next token' rest' hsome =>
    rw [hcut, Option.some.injEq, Prod.mk.injEq] at hsome
    obtain ⟨rfl, rfl⟩ := hsome
    cases scanFrom number (column + (c :: body).length) rest <;> rfl

end

/-- What is read from a spelling: its tokens, and then what is read after them. -/
theorem scanFrom_spell {ps : List Piece} {tail : Text} (h : Spelled ps tail)
    (number column : Int) :
    scanFrom number column (spell ps tail) =
      (scanFrom number (column + width ps) tail).map fun r =>
        (tokensAt number column ps ++ r.1, r.2) := by
  induction ps generalizing column with
  | nil =>
    simp only [spell, width, tokensAt, List.nil_append, Int.natCast_zero, Int.add_zero]
    cases scanFrom number column tail <;> rfl
  | cons p ps ih =>
    obtain ⟨hgap, hcuts, hrest⟩ := h
    rw [spell, scanFrom_blanks number column hgap, scanFrom_token _ _ hcuts, ih hrest]
    have hcolumn : column + (p.gap.length : Int) + (p.token.length : Int) + (width ps : Int) =
        column + (width (p :: ps) : Int) := by
      rw [width]
      omega
    rw [hcolumn]
    cases scanFrom number (column + (width (p :: ps) : Int)) tail <;> rfl

/-- Reading a whole line: pieces, blanks, and a remark. -/
theorem scanFrom_spell_remark {ps : List Piece} {gap remark : Text}
    (h : Spelled ps (gap ++ remark)) (hgap : Blanks gap) (hremark : IsRemark remark)
    (number column : Int) :
    scanFrom number column (spell ps (gap ++ remark)) =
      .ok (tokensAt number column ps,
        remarkAt number (column + width ps + gap.length) remark) := by
  rw [scanFrom_spell h, scanFrom_blanks _ _ hgap, scanFrom_remark _ _ hremark]
  simp [Except.map]

/-- What is cut off before neither a blank nor a comment is a token. -/
theorem cuts_of_cutToken {c : CodePoint} {t token rest : Text} (hblank : c.isBlank = false)
    (hmarker : Text.startsWith commentMarker (c :: t) = false)
    (hcut : cutToken (c :: t) = some (token, rest)) : Cuts token rest := by
  have happend := append_of_cutToken hcut
  refine ⟨?_, by rwa [happend], by rwa [happend]⟩
  cases token with
  | nil => exact absurd rfl (ne_nil_of_cutToken hcut)
  | cons d body =>
    rw [List.cons_append, List.cons.injEq] at happend
    exact ⟨d, body, rfl, happend.1 ▸ hblank⟩

theorem quoted_of_cutToken {c : CodePoint} {t : Text} (h : cutToken (c :: t) = none) :
    isQuote c = true ∧ cutQuoted c false t = none := by
  rw [cutToken] at h
  split at h
  · simp at h
  · split at h
    · next hquote => exact ⟨hquote, by simpa using h⟩
    · simp at h

/-- A quote is no blank, no parenthesis and not the start of a comment. -/
theorem quote_not_special {c : CodePoint} (h : isQuote c = true) :
    c.isBlank = false ∧ isParen c = false ∧ c ≠ '/' := by
  rw [isQuote, Bool.or_eq_true, decide_eq_true_eq, decide_eq_true_eq] at h
  rcases h with rfl | rfl <;> decide

/-- A line is refused where a quote is never closed. -/
theorem scanFrom_openQuote (number column : Int) {c : CodePoint} {t : Text}
    (hquote : isQuote c = true) (hopen : cutQuoted c false t = none) :
    scanFrom number column (c :: t) = .error ⟨.unterminatedQuote, ⟨number, column⟩⟩ := by
  obtain ⟨hblank, hparen, hne⟩ := quote_not_special hquote
  have hmarker := startsWith_commentMarker_of_ne hne t
  have hcut : cutToken (c :: t) = none := by
    rw [cutToken, if_neg (by simp [hparen]), if_pos hquote, hopen]
    rfl
  rw [scanFrom, if_neg (by simp [hblank]), if_neg (by simp [hmarker])]
  split
  · rfl
  · next hsome => simp [hcut] at hsome

/-- Induction over a line as it is read: it is empty, or it starts with a blank, with a comment,
with a quote that is never closed, or with a token. -/
@[elab_as_elim]
theorem lineInduction {motive : Text → Prop} (nil : motive [])
    (blank : ∀ c t, c.isBlank = true → motive t → motive (c :: t))
    (remark : ∀ t, Text.startsWith commentMarker t = true → motive t)
    (openQuote : ∀ c t, isQuote c = true → cutQuoted c false t = none → motive (c :: t))
    (token : ∀ token rest, Cuts token rest → motive rest → motive (token ++ rest)) (t : Text) :
    motive t := by
  induction hn : t.length using Nat.strongRecOn generalizing t with
  | ind n ih =>
    cases t with
    | nil => exact nil
    | cons c t =>
      by_cases hblank : c.isBlank = true
      · exact blank c t hblank (ih t.length (by rw [← hn, List.length_cons]; omega) t rfl)
      · by_cases hmarker : Text.startsWith commentMarker (c :: t) = true
        · exact remark _ hmarker
        · rw [Bool.not_eq_true] at hblank hmarker
          cases hcut : cutToken (c :: t) with
          | none =>
            obtain ⟨hquote, hopen⟩ := quoted_of_cutToken hcut
            exact openQuote c t hquote hopen
          | some cut =>
            have hlt : cut.2.length < (c :: t).length := length_lt_of_cutToken hcut
            have hrest := ih cut.2.length (hn ▸ hlt) cut.2 rfl
            rw [← append_of_cutToken hcut]
            exact token cut.1 cut.2 (cuts_of_cutToken hblank hmarker hcut) hrest

theorem exists_of_scanFrom_token {number column : Int} {token rest : Text} (h : Cuts token rest)
    {tokens : List Token} {comment : Option Comment}
    (hscan : scanFrom number column (token ++ rest) = .ok (tokens, comment)) :
    ∃ more, scanFrom number (column + token.length) rest = .ok (more, comment) ∧
      tokens = ⟨token, ⟨number, column⟩, ⟨number, column + token.length⟩⟩ :: more := by
  rw [scanFrom_token _ _ h] at hscan
  cases hrest : scanFrom number (column + token.length) rest with
  | error f =>
    rw [hrest] at hscan
    cases hscan
  | ok r =>
    rw [hrest] at hscan
    cases hscan
    exact ⟨r.1, rfl, rfl⟩

/-- Every line that can be read is a spelling. -/
theorem exists_spell_of_scanFrom {number column : Int} {t : Text} {tokens : List Token}
    {comment : Option Comment} (h : scanFrom number column t = .ok (tokens, comment)) :
    ∃ ps gap remark, t = spell ps (gap ++ remark) ∧ Spelled ps (gap ++ remark) ∧ Blanks gap ∧
      IsRemark remark ∧ tokens = tokensAt number column ps ∧
      comment = remarkAt number (column + width ps + gap.length) remark := by
  induction t using lineInduction generalizing column tokens comment with
  | nil =>
    rw [scanFrom_nil, Except.ok.injEq, Prod.mk.injEq] at h
    obtain ⟨rfl, rfl⟩ := h
    exact ⟨[], [], [], rfl, trivial, by simp [Blanks], .inl rfl, rfl, rfl⟩
  | blank c t hblank ih =>
    rw [scanFrom, if_pos hblank] at h
    obtain ⟨ps, gap, remark, rfl, hspelled, hgap, hremark, rfl, rfl⟩ := ih h
    -- the blank belongs to the first piece, or to the gap where there is no piece
    cases ps with
    | nil =>
      refine ⟨[], c :: gap, remark, rfl, trivial, ?_, hremark, rfl, ?_⟩
      · exact List.forall_mem_cons.2 ⟨hblank, hgap⟩
      · congr 1
        simp only [width, List.length_cons]
        omega
    | cons p ps =>
      refine ⟨⟨c :: p.gap, p.token⟩ :: ps, gap, remark, rfl, ⟨?_, hspelled.2⟩, hgap, hremark,
        ?_, ?_⟩
      · exact List.forall_mem_cons.2 ⟨hblank, hspelled.1⟩
      · have hcolumn : column + 1 + (p.gap.length : Int) =
            column + ((c :: p.gap).length : Int) := by
          rw [List.length_cons]
          omega
        simp only [tokensAt, hcolumn]
      · congr 1
        simp only [width, List.length_cons]
        omega
  | remark t hmarker =>
    rw [scanFrom_remark _ _ (.inr hmarker), Except.ok.injEq, Prod.mk.injEq] at h
    obtain ⟨rfl, rfl⟩ := h
    exact ⟨[], [], t, rfl, trivial, by simp [Blanks], .inr hmarker, rfl, by simp [width]⟩
  | openQuote c t hquote hopen =>
    rw [scanFrom_openQuote _ _ hquote hopen] at h
    cases h
  | token token rest hcuts ih =>
    obtain ⟨more, hrest, rfl⟩ := exists_of_scanFrom_token hcuts h
    obtain ⟨ps, gap, remark, rfl, hspelled, hgap, hremark, rfl, rfl⟩ := ih hrest
    refine ⟨⟨[], token⟩ :: ps, gap, remark, rfl, ⟨by simp [Blanks], hcuts, hspelled⟩, hgap,
      hremark, by simp [tokensAt], ?_⟩
    congr 1
    simp only [width, List.length_nil]
    omega

/-! ## What may follow a token -/

/-- Before this text every token ends. -/
def Breaks : Text → Prop
  | [] => True
  | c :: _ => c.isBlank = true ∨ isParen c = true ∨ isQuote c = true

theorem breaks_nil : Breaks [] := trivial

theorem breaks_of_blank {c : CodePoint} (h : c.isBlank = true) (t : Text) : Breaks (c :: t) :=
  .inl h

theorem endsWord_of_breaks {t : Text} (h : Breaks t) : endsWord t = true := by
  cases t with
  | nil => rfl
  | cons c t =>
    rcases h with h | h | h
    · simp [endsWord, h]
    · simp [endsWord, h]
    · simp [endsWord, h]

/-- No comment starts where a token may end. -/
theorem Breaks.startsWith_commentMarker {t : Text} (h : Breaks t) (c : CodePoint) :
    Text.startsWith commentMarker (c :: t) = false := by
  rw [Bool.eq_false_iff, ne_eq, startsWith_commentMarker_iff]
  rintro ⟨rest, hrest⟩
  rw [List.cons.injEq] at hrest
  rw [hrest.2] at h
  obtain ⟨hblank, hparen, hquote⟩ := solidus_not_special
  rcases h with h | h | h
  · simp [hblank] at h
  · simp [hparen] at h
  · simp [hquote] at h

/-- A quoted string ends with its closing quote, whatever follows. -/
theorem cutQuoted_append {quote : CodePoint} {escaped : Bool} {t body rest : Text}
    (h : cutQuoted quote escaped t = some (body, rest)) (u : Text) :
    cutQuoted quote escaped (body ++ u) = some (body, u) := by
  induction t generalizing escaped body rest with
  | nil => simp [cutQuoted] at h
  | cons c t ih =>
    cases escaped with
    | true =>
      simp only [cutQuoted, Option.map_eq_some_iff] at h
      obtain ⟨cut, hcut, hb⟩ := h
      cases hb
      simp [cutQuoted, ih hcut]
    | false =>
      simp only [cutQuoted] at h
      split at h
      · next hescape =>
        obtain ⟨cut, hcut, hb⟩ := Option.map_eq_some_iff.1 h
        cases hb
        simp only [List.cons_append, cutQuoted, if_pos hescape, ih hcut, Option.map_some]
      · next hescape =>
        split at h
        · next hclose =>
          rw [Option.some.injEq, Prod.mk.injEq] at h
          obtain ⟨rfl, rfl⟩ := h
          simp only [List.cons_append, List.nil_append, cutQuoted, if_neg hescape, if_pos hclose]
        · next hclose =>
          obtain ⟨cut, hcut, hb⟩ := Option.map_eq_some_iff.1 h
          cases hb
          simp only [List.cons_append, cutQuoted, if_neg hescape, if_neg hclose, ih hcut,
            Option.map_some]

/-- A bare word ends where its line can break. -/
theorem endsWord_cutWord (t : Text) : endsWord (cutWord t).2 = true := by
  induction t with
  | nil => rfl
  | cons c t ih =>
    rw [cutWord]
    by_cases h : endsWord (c :: t) = true
    · rw [if_pos h]
      exact h
    · rw [if_neg h]
      exact ih

/-- A word that is longer goes on behind its first code point, which ends no word. -/
theorem cutWord_cons {c : CodePoint} {word rest : Text}
    (h : cutWord (c :: word ++ rest) = (c :: word, rest)) :
    endsWord (c :: (word ++ rest)) = false ∧ cutWord (word ++ rest) = (word, rest) := by
  rw [List.cons_append, cutWord] at h
  split at h
  · simp at h
  · next hends =>
    rw [Prod.mk.injEq, List.cons.injEq] at h
    exact ⟨by simpa using hends, Prod.ext h.1.2 h.2⟩

theorem endsWord_cons_eq_false_iff {c : CodePoint} {t : Text} :
    endsWord (c :: t) = false ↔ (c.isBlank = false ∧ isParen c = false ∧ isQuote c = false) ∧
      Text.startsWith commentMarker (c :: t) = false := by
  simp [endsWord, and_assoc]

/-- A bare word keeps its extent before a text where every token ends. -/
theorem cutWord_append {t u : Text} (hu : Breaks u) :
    cutWord ((cutWord t).1 ++ u) = ((cutWord t).1, u) := by
  induction t with
  | nil =>
    cases u with
    | nil => rfl
    | cons c u => simp [cutWord, endsWord_of_breaks hu]
  | cons c t ih =>
    rw [cutWord]
    by_cases h : endsWord (c :: t) = true
    · rw [if_pos h]
      cases u with
      | nil => rfl
      | cons d u => simp [cutWord, endsWord_of_breaks hu]
    · rw [if_neg h]
      have hword : endsWord (c :: ((cutWord t).1 ++ u)) = false := by
        rw [Bool.not_eq_true, endsWord_cons_eq_false_iff] at h
        obtain ⟨hbare, hmarker⟩ := h
        refine endsWord_cons_eq_false_iff.2 ⟨hbare, ?_⟩
        cases hcut : (cutWord t).1 with
        | nil => exact hu.startsWith_commentMarker c
        | cons d word =>
          have happend := append_cutWord t
          rw [hcut, List.cons_append] at happend
          rw [← happend] at hmarker
          rw [List.cons_append, ← hmarker]
          exact startsWith_commentMarker_cons_cons c d _ _
      rw [List.cons_append, cutWord, if_neg (by simp [hword]), ih]

/-- The three kinds of token that can be cut off. -/
theorem Cuts.cases {token rest : Text} (h : Cuts token rest) :
    (∃ c, token = [c] ∧ isParen c = true) ∨
    (∃ q body, token = q :: body ∧ isQuote q = true ∧ isParen q = false ∧
      cutQuoted q false (body ++ rest) = some (body, rest)) ∨
    (∃ c word, token = c :: word ∧ isParen c = false ∧ isQuote c = false ∧
      cutWord (word ++ rest) = (word, rest)) := by
  obtain ⟨c, body, rfl, -⟩ := h.head
  have hcut := h.cut
  rw [List.cons_append, cutToken] at hcut
  split at hcut
  · next hparen =>
    rw [Option.some.injEq, Prod.mk.injEq, List.cons.injEq] at hcut
    exact .inl ⟨c, by rw [← hcut.1.2], hparen⟩
  · next hparen =>
    split at hcut
    · next hquote =>
      obtain ⟨cut, hq, hb⟩ := Option.map_eq_some_iff.1 hcut
      rw [Prod.mk.injEq, List.cons.injEq] at hb
      obtain ⟨⟨-, hbody⟩, hrest⟩ := hb
      refine .inr (.inl ⟨c, body, rfl, hquote, by simpa using hparen, ?_⟩)
      rw [hq, ← hbody, ← hrest]
    · next hquote =>
      rw [Option.some.injEq, Prod.mk.injEq, List.cons.injEq] at hcut
      refine .inr (.inr ⟨c, body, rfl, by simpa using hparen, by simpa using hquote, ?_⟩)
      exact Prod.ext hcut.1.2 hcut.2

/-- A parenthesis or a quote starts no comment. -/
theorem ne_solidus_of_special {c : CodePoint} (h : isParen c = true ∨ isQuote c = true) :
    c ≠ '/' := by
  rintro rfl
  obtain ⟨-, hparen, hquote⟩ := solidus_not_special
  rcases h with h | h
  · simp [hparen] at h
  · simp [hquote] at h

/-- A token keeps its extent before any text, or it is a bare word, which keeps it before a
text where every token ends. -/
theorem Cuts.append {token rest : Text} (h : Cuts token rest) :
    (∀ u, Cuts token u) ∨ (endsWord rest = true ∧ ∀ u, Breaks u → Cuts token u) := by
  obtain ⟨c, body, hhead, hblank⟩ := h.head
  rcases h.cases with ⟨d, rfl, hparen⟩ | ⟨q, body', rfl, hquote, hparen, hcut⟩ |
    ⟨d, word, rfl, hparen, hquote, hcut⟩
  · refine .inl fun u => ⟨⟨c, body, hhead, hblank⟩, ?_, ?_⟩
    · exact startsWith_commentMarker_of_ne (ne_solidus_of_special (.inl hparen)) _
    · simp [cutToken, hparen]
  · refine .inl fun u => ⟨⟨c, body, hhead, hblank⟩, ?_, ?_⟩
    · exact startsWith_commentMarker_of_ne (ne_solidus_of_special (.inr hquote)) _
    · simp [cutToken, hparen, hquote, cutQuoted_append hcut u]
  · have hword : (cutWord (word ++ rest)).1 = word := by rw [hcut]
    refine .inr ⟨?_, fun u hu => ⟨⟨c, body, hhead, hblank⟩, ?_, ?_⟩⟩
    · have hends := endsWord_cutWord (word ++ rest)
      rwa [hcut] at hends
    · cases word with
      | nil => exact hu.startsWith_commentMarker d
      | cons e word =>
        have hmarker := h.noMarker
        simp only [List.cons_append] at hmarker ⊢
        rw [← hmarker]
        exact startsWith_commentMarker_cons_cons d e _ _
    · have hkeep := cutWord_append (t := word ++ rest) hu
      rw [hword] at hkeep
      simp [cutToken, hparen, hquote, hkeep]

theorem Cuts.of_breaks {token rest u : Text} (h : Cuts token rest) (hu : Breaks u) :
    Cuts token u := by
  rcases h.append with hany | ⟨-, hword⟩
  · exact hany u
  · exact hword u hu

/-- A further piece that ends a bare word does so whatever follows it. -/
theorem breaks_spell_cons {p : Piece} {ps : List Piece} {tail : Text}
    (h : Spelled (p :: ps) tail) (hends : endsWord (spell (p :: ps) tail) = true) (u : Text) :
    Breaks (spell (p :: ps) u) := by
  obtain ⟨hgap, hcuts, -⟩ := h
  cases hp : p.gap with
  | cons b gap =>
    rw [spell, hp, List.cons_append]
    exact breaks_of_blank (hgap b (by simp [hp])) _
  | nil =>
    obtain ⟨c, body, htoken, hblank⟩ := hcuts.head
    have hmarker := hcuts.noMarker
    rw [spell, hp, htoken, List.nil_append, List.cons_append] at hends ⊢
    rw [htoken, List.cons_append] at hmarker
    simp only [endsWord, hblank, hmarker, Bool.false_or, Bool.or_false, Bool.or_eq_true] at hends
    exact .inr hends

/-- The pieces of a spelling are read in the same way where another text that ends every
token follows them. -/
theorem Spelled.of_breaks {ps : List Piece} {tail u : Text} (h : Spelled ps tail)
    (hu : Breaks u) : Spelled ps u := by
  induction ps with
  | nil => trivial
  | cons p ps ih =>
    obtain ⟨hgap, hcuts, hrest⟩ := h
    refine ⟨hgap, ?_, ih hrest⟩
    rcases hcuts.append with hany | ⟨hends, hword⟩
    · exact hany _
    · cases ps with
      | nil => exact hword u hu
      | cons q qs => exact hword _ (breaks_spell_cons hrest hends u)

end ManifestPolicy.Manifest
