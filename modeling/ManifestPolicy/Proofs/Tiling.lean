import ManifestPolicy.Proofs.Directives
import ManifestPolicy.Proofs.OpenQuotes

/-!
# Tokens tile their line

What is cut from a line are parts of that line, one after the other, and what lies between them is
blank. So nothing of a line is lost and nothing is added to it. Where each token ends and where the
comment starts is fixed by the line alone, and said here by columns.

Every line that can be read is a spelling of some pieces, so a place of the line lies in the gap of
a piece, in its token, or behind all pieces. The lemmas about places are cases of this one fact.

## Main definitions

* `Text.slice`: the part of a line between two columns.
* `TokenKind.Describes`: what a token of each kind looks like, and what may follow it.
* `StartsComment`: the first marker of a line that is not quoted.
* `Tiles`: tokens and a comment that tile a line.

## Main statements

* `TokenKind.Describes.unique`: a token is of one kind.
* `exists_place_of_lt_width`: where a place of a spelling lies.
* `tiles_spell`: a spelling is tiled by its tokens and its remark.
* `scanFrom_tiles`: tokens tile their line, and a line is refused for its open quote.
-/

namespace ManifestPolicy

namespace Text

/-- The part of a line between two columns. The first column is 1. -/
def slice (t : Text) (start stop : Int) : Text :=
  (t.drop (start - 1).toNat).take (stop - start).toNat

theorem exists_blanks_trimEnd (t : Text) :
    ∃ gap, t = trimEnd t ++ gap ∧ ∀ c ∈ gap, c.isBlank = true := by
  refine ⟨t.rtakeWhile CodePoint.isBlank, ?_, fun c hc => List.mem_rtakeWhile_imp hc⟩
  rw [trimEnd_eq, List.rdropWhile_append_rtakeWhile]

/-- What is cut off at the end of a text is blank. -/
theorem lt_length_trimEnd {t : Text} {i : Nat} {c : CodePoint} (hi : t[i]? = some c)
    (hc : c.isBlank = false) : i < (trimEnd t).length := by
  obtain ⟨gap, ht, hgap⟩ := exists_blanks_trimEnd t
  by_contra hle
  rw [ht, List.getElem?_append_right (by omega)] at hi
  simp [hgap c (List.mem_of_getElem? hi)] at hc

end Text

namespace Manifest

/-! ## Kinds of tokens -/

/-- The kinds of tokens. -/
inductive TokenKind
  | paren
  /-- A text between grave accents. -/
  | raw
  /-- A text between double quotes. -/
  | string
  | word
deriving DecidableEq

/-- What a token of each kind looks like, and what may follow it on its line. -/
inductive TokenKind.Describes : TokenKind → Text → Text → Prop
  | paren {c : CodePoint} (isParen : isParen c = true) (rest : Text) : Describes .paren [c] rest
  | raw {inside : Text} (noAccent : graveAccent ∉ inside) (rest : Text) :
      Describes .raw (graveAccent :: (inside ++ [graveAccent])) rest
  | string {inside : Text} (inQuotes : InQuotes quotation inside) (rest : Text) :
      Describes .string (quotation :: (inside ++ [quotation])) rest
  | word {word rest : Text} (nonempty : word ≠ [])
      (bare : ∀ c ∈ word, c.isBlank = false ∧ isParen c = false ∧ isQuote c = false)
      (noMarker : ¬ commentMarker <:+: word) (maximal : endsWord rest = true) :
      Describes .word word rest

/-- The kind of a token from its first code point. -/
def TokenKind.ofHead (c : CodePoint) : TokenKind :=
  if isParen c then .paren
  else if c = graveAccent then .raw
  else if c = quotation then .string
  else .word

theorem TokenKind.Describes.ofHead {kind : TokenKind} {token rest : Text}
    (h : kind.Describes token rest) : ∃ c body, token = c :: body ∧ kind = .ofHead c := by
  cases h with
  | @paren c isParen => exact ⟨c, [], rfl, by rw [TokenKind.ofHead, if_pos isParen]⟩
  | raw => exact ⟨_, _, rfl, by decide⟩
  | string => exact ⟨_, _, rfl, by decide⟩
  | word nonempty bare =>
    obtain ⟨c, body, rfl⟩ := List.exists_cons_of_ne_nil nonempty
    obtain ⟨-, hparen, hquote⟩ := bare c List.mem_cons_self
    rw [isQuote, Bool.or_eq_false_iff, decide_eq_false_iff_not, decide_eq_false_iff_not] at hquote
    exact ⟨c, body, rfl, by simp [TokenKind.ofHead, hparen, hquote.1, hquote.2]⟩

/-- **A token is of one kind.** -/
theorem TokenKind.Describes.unique {kind kind' : TokenKind} {token rest rest' : Text}
    (h : kind.Describes token rest) (h' : kind'.Describes token rest') : kind = kind' := by
  obtain ⟨c, body, rfl, rfl⟩ := h.ofHead
  obtain ⟨c', body', htoken, rfl⟩ := h'.ofHead
  rw [(List.cons.inj htoken).1]

theorem accent_not_mem_of_inQuotes {inside : Text} (h : InQuotes graveAccent inside) :
    graveAccent ∉ inside := by
  induction h with
  | nil => simp
  | plain noQuote _ _ ih => exact List.not_mem_cons_of_ne_of_not_mem noQuote.symm ih
  | pair string => exact absurd string.symm quotation_ne_graveAccent

theorem bare_of_cutWord {word rest : Text} (h : cutWord (word ++ rest) = (word, rest)) :
    ∀ c ∈ word, c.isBlank = false ∧ isParen c = false ∧ isQuote c = false := by
  induction word with
  | nil => simp
  | cons c word ih =>
    obtain ⟨hends, hrest⟩ := cutWord_cons h
    exact List.forall_mem_cons.2 ⟨(endsWord_cons_eq_false_iff.1 hends).1, ih hrest⟩

/-- No marker starts in a bare word, also where it would end behind the word. -/
theorem noMarker_of_cutWord {word rest : Text} (h : cutWord (word ++ rest) = (word, rest)) {i : Nat}
    (hi : i < word.length) : Text.startsWith commentMarker ((word ++ rest).drop i) = false := by
  induction word generalizing i with
  | nil => simp at hi
  | cons c word ih =>
    obtain ⟨hends, hrest⟩ := cutWord_cons h
    cases i with
    | zero => exact (endsWord_cons_eq_false_iff.1 hends).2
    | succ i => exact ih hrest (by simpa using hi)

/-- A token that starts with a quote. -/
def Token.IsQuoted (k : Token) : Prop := ∃ c body, k.text = c :: body ∧ isQuote c = true

/-- A marker can start in a token only where the token is quoted. -/
theorem Cuts.noMarker_drop {token rest : Text} (h : Cuts token rest)
    (hquoted : ¬ ∃ c body, token = c :: body ∧ isQuote c = true) {i : Nat} (hi : i < token.length) :
    Text.startsWith commentMarker ((token ++ rest).drop i) = false := by
  cases i with
  | zero => exact h.noMarker
  | succ i =>
    rcases h.cases with ⟨c, rfl, -⟩ | ⟨c, body, rfl, hquote, -⟩ | ⟨c, word, rfl, -, -, hcut⟩
    · simp at hi
    · exact absurd ⟨c, body, rfl, hquote⟩ hquoted
    · exact noMarker_of_cutWord hcut (by simpa using hi)

/-- **What is cut off is a token of some kind.** -/
theorem Cuts.exists_describes {token rest : Text} (h : Cuts token rest) :
    ∃ kind : TokenKind, kind.Describes token rest := by
  rcases h.cases with ⟨c, rfl, hparen⟩ | ⟨c, body, rfl, hquote, -, hcut⟩ |
    ⟨c, word, rfl, hparen, hquote, hcut⟩
  · exact ⟨.paren, .paren hparen rest⟩
  · obtain ⟨inside, hinside, rfl, -⟩ := cutQuoted_eq_some_iff.1 hcut
    rw [isQuote, Bool.or_eq_true, decide_eq_true_eq, decide_eq_true_eq] at hquote
    rcases hquote with rfl | rfl
    · exact ⟨.string, .string hinside rest⟩
    · exact ⟨.raw, .raw (accent_not_mem_of_inQuotes hinside) rest⟩
  · obtain ⟨d, body, htoken, hblank⟩ := h.head
    have hunquoted : ¬ ∃ d body, c :: word = d :: body ∧ isQuote d = true := by
      rintro ⟨d, body, heq, hd⟩
      rw [← (List.cons.inj heq).1, hquote] at hd
      exact absurd hd (by simp)
    refine ⟨.word, .word (by simp) ?_ ?_ ?_⟩
    · rw [← (List.cons.inj htoken).1] at hblank
      exact List.forall_mem_cons.2 ⟨⟨hblank, hparen, hquote⟩, bare_of_cutWord hcut⟩
    · rintro ⟨s, u, hsu⟩
      have hlt : s.length < (c :: word).length := by
        rw [← hsu]
        simp [commentMarker]
      have hmarker := h.noMarker_drop hunquoted hlt
      rw [← hsu, List.append_assoc, List.append_assoc, List.drop_left] at hmarker
      simp [Text.startsWith, commentMarker, Text.dropStart?] at hmarker
    · have hends := endsWord_cutWord (word ++ rest)
      rwa [hcut] at hends

/-! ## Tilings -/

/-- Whether a column of its line is one of the token. -/
def Token.Covers (k : Token) (column : Int) : Prop :=
  k.start.column ≤ column ∧ column < k.stop.column

/-- Whether a place of a line lies in a quoted token. -/
def QuotedAt (tokens : List Token) (column : Int) : Prop :=
  ∃ k ∈ tokens, k.IsQuoted ∧ k.Covers column

/-- The place of a line where its comment starts: the first marker that no token quotes. -/
structure StartsComment (t : Text) (tokens : List Token) (i : Nat) : Prop where
  marker : Text.startsWith commentMarker (t.drop i) = true
  unquoted : ¬ QuotedAt tokens (i + 1)
  first : ∀ j < i, Text.startsWith commentMarker (t.drop j) = true → QuotedAt tokens (j + 1)

/-- Tokens and a comment that tile line `number` with this text. -/
structure Tiles (number : Int) (t : Text) (tokens : List Token) (comment : Option Comment) :
    Prop where
  nonempty : ∀ k ∈ tokens, k.text ≠ []
  onLine : ∀ k ∈ tokens, k.start.line = number ∧ k.stop.line = number
  bounds : ∀ k ∈ tokens, 1 ≤ k.start.column ∧ k.start.column < k.stop.column ∧
    k.stop.column ≤ t.length + 1
  ordered : tokens.Pairwise fun k l => k.stop.column ≤ l.start.column
  sliced : ∀ k ∈ tokens, k.text = t.slice k.start.column k.stop.column
  /-- Each token is of one kind, also by what follows it on the line. -/
  kinds : ∀ k ∈ tokens, ∃! kind : TokenKind,
    kind.Describes k.text (t.slice k.stop.column (t.length + 1))
  /-- The comment is the rest of the line from its marker on, and there is none without one. -/
  marked : ∀ c, comment = some c ↔
    ∃ i, StartsComment t tokens i ∧ c = ⟨⟨number, i + 1⟩, Text.trimEnd (t.drop i)⟩
  beforeComment : ∀ c ∈ comment, ∀ k ∈ tokens, k.stop.column ≤ c.start.column
  /-- What is not blank belongs to a token or to the comment. -/
  covered : ∀ (i : Nat) c, t[i]? = some c → c.isBlank = false →
    (∃ k ∈ tokens, k.Covers (i + 1)) ∨
      ∃ d ∈ comment, d.start.column ≤ i + 1 ∧ (i : Int) + 1 < d.start.column + d.text.length

/-- Where a token stands on its line: after this text and before that one. -/
structure Token.Stands (number : Int) (t : Text) (k : Token) (before after : Text) : Prop where
  line : t = before ++ (k.text ++ after)
  start : k.start = ⟨number, before.length + 1⟩
  stop : k.stop = ⟨number, before.length + k.text.length + 1⟩

/-- Every token of a spelling is cut off where it stands. -/
theorem exists_stands_of_mem_tokensAt {number : Int} {ps : List Piece} {tail : Text}
    (h : Spelled ps tail) (before : Text) {k : Token}
    (hk : k ∈ tokensAt number (before.length + 1) ps) :
    ∃ above after, k.Stands number (before ++ spell ps tail) above after ∧ Cuts k.text after := by
  induction ps generalizing before with
  | nil => simp [tokensAt] at hk
  | cons p ps ih =>
    obtain ⟨-, hcuts, hrest⟩ := h
    rcases List.mem_cons.1 hk with rfl | hk
    · refine ⟨before ++ p.gap, spell ps tail, ⟨?_, ?_, ?_⟩, hcuts⟩
      · rw [spell, List.append_assoc]
      · rw [List.length_append, Int.natCast_add, Int.add_right_comm]
      · rw [List.length_append, Int.natCast_add, Int.add_right_comm, Int.add_right_comm _ 1]
    · have hcolumn : (before.length : Int) + 1 + p.gap.length + p.token.length =
          ((before ++ (p.gap ++ p.token)).length : Int) + 1 := by
        rw [List.length_append, List.length_append]
        omega
      rw [hcolumn] at hk
      obtain ⟨above, after, hstands, hcut⟩ := ih hrest _ hk
      refine ⟨above, after, ⟨?_, hstands.start, hstands.stop⟩, hcut⟩
      rw [← hstands.line, spell, List.append_assoc, List.append_assoc]

theorem Token.Stands.sliced {number : Int} {t before after : Text} {k : Token}
    (h : k.Stands number t before after) :
    k.text = t.slice k.start.column k.stop.column ∧
      after = t.slice k.stop.column (t.length + 1) := by
  have hstart : ((before.length : Int) + 1 - 1).toNat = before.length := by omega
  have hwidth : ((before.length : Int) + k.text.length + 1 - (before.length + 1)).toNat =
      k.text.length := by omega
  have hstop : ((before.length : Int) + k.text.length + 1 - 1).toNat =
      (before ++ k.text).length := by
    rw [List.length_append]
    omega
  have hrest : ((t.length : Int) + 1 - (before.length + k.text.length + 1)).toNat =
      after.length := by
    rw [h.line, List.length_append, List.length_append]
    omega
  constructor
  · rw [Text.slice, h.start, h.stop]
    simp only [hstart, hwidth]
    rw [h.line, List.drop_left, List.take_left]
  · rw [Text.slice, h.stop]
    simp only [hstop, hrest]
    rw [h.line, ← List.append_assoc, List.drop_left, List.take_length]

theorem columns_of_mem_tokensAt {number column : Int} {ps : List Piece} {k : Token}
    (hk : k ∈ tokensAt number column ps) :
    column ≤ k.start.column ∧ k.stop.column ≤ column + width ps := by
  induction ps generalizing column with
  | nil => simp [tokensAt] at hk
  | cons p ps ih =>
    rw [width]
    rcases List.mem_cons.1 hk with rfl | hk
    · constructor
      · change column ≤ column + (p.gap.length : Int)
        omega
      · change column + (p.gap.length : Int) + p.token.length ≤ _
        omega
    · obtain ⟨hstart, hstop⟩ := ih hk
      constructor <;> omega

theorem pairwise_tokensAt (number column : Int) (ps : List Piece) :
    (tokensAt number column ps).Pairwise fun k l => k.stop.column ≤ l.start.column := by
  induction ps generalizing column with
  | nil => exact .nil
  | cons p ps ih =>
    exact List.pairwise_cons.2 ⟨fun l hl => (columns_of_mem_tokensAt hl).1, ih _⟩

/-- **A place of a spelling lies in a gap, in a token, or behind all pieces.** -/
theorem exists_place_of_lt_width {ps : List Piece} {tail : Text} (h : Spelled ps tail) {i : Nat}
    (hi : i < width ps) (number column : Int) :
    (∃ c, (spell ps tail)[i]? = some c ∧ c.isBlank = true) ∨
      ∃ k ∈ tokensAt number column ps, k.Covers (column + i) ∧ ∃ j after,
        Cuts k.text after ∧ j < k.text.length ∧
          (spell ps tail).drop i = (k.text ++ after).drop j := by
  induction ps generalizing column i with
  | nil => simp [width] at hi
  | cons p ps ih =>
    obtain ⟨hgap, hcuts, hrest⟩ := h
    rw [width] at hi
    rw [spell]
    by_cases hlt : i < p.gap.length
    · refine .inl ⟨p.gap[i], ?_, hgap _ (List.getElem_mem hlt)⟩
      rw [List.getElem?_append_left hlt, List.getElem?_eq_getElem hlt]
    · rw [List.drop_append, List.drop_eq_nil_of_le (by omega), List.nil_append,
        List.getElem?_append_right (by omega)]
      by_cases hin : i - p.gap.length < p.token.length
      · refine .inr ⟨_, List.mem_cons_self, ?_, i - p.gap.length, spell ps tail, hcuts, hin, rfl⟩
        constructor
        · change column + (p.gap.length : Int) ≤ _
          omega
        · change _ < column + (p.gap.length : Int) + p.token.length
          omega
      · rw [List.drop_append, List.drop_eq_nil_of_le (by omega), List.nil_append,
          List.getElem?_append_right (by omega)]
        have hbehind : i - p.gap.length - p.token.length < width ps := by omega
        rcases ih hrest hbehind (column + p.gap.length + p.token.length) with
          hblank | ⟨k, hk, hcovers, hcut⟩
        · exact .inl hblank
        · refine .inr ⟨k, List.mem_cons_of_mem _ hk, ?_, hcut⟩
          have hcolumn : column + (p.gap.length : Int) + p.token.length +
              ((i - p.gap.length - p.token.length : Nat) : Int) = column + i := by omega
          rwa [hcolumn] at hcovers

theorem getElem?_of_marker {t : Text} {i : Nat}
    (h : Text.startsWith commentMarker (t.drop i) = true) : t[i]? = some ('/' : CodePoint) := by
  obtain ⟨rest, hrest⟩ := startsWith_commentMarker_iff.1 h
  rw [← Nat.add_zero i, ← List.getElem?_drop, hrest]
  rfl

section

variable {number column : Int} {ps : List Piece} {gap remark : Text} {i : Nat}

/-- What is not blank lies in a token or behind all pieces. -/
theorem covers_or_of_spell {tail : Text} (h : Spelled ps tail) {c : CodePoint}
    (hi : (spell ps tail)[i]? = some c) (hc : c.isBlank = false) :
    (∃ k ∈ tokensAt number column ps, k.Covers (column + i)) ∨ width ps ≤ i := by
  by_cases hlt : i < width ps
  · rcases exists_place_of_lt_width h hlt number column with
      ⟨d, hd, hblank⟩ | ⟨k, hk, hcovers, -⟩
    · rw [hi, Option.some.injEq] at hd
      rw [hd, hblank] at hc
      exact absurd hc (by simp)
    · exact .inl ⟨k, hk, hcovers⟩
  · exact .inr (Nat.not_lt.1 hlt)

/-- A marker lies in a quoted token or behind all pieces. -/
theorem quotedAt_or_of_spell {tail : Text} (h : Spelled ps tail)
    (hmarker : Text.startsWith commentMarker ((spell ps tail).drop i) = true) :
    QuotedAt (tokensAt number column ps) (column + i) ∨ width ps ≤ i := by
  by_cases hlt : i < width ps
  · rcases exists_place_of_lt_width h hlt number column with
      ⟨c, hc, hblank⟩ | ⟨k, hk, hcovers, j, after, hcuts, hj, hdrop⟩
    · rw [getElem?_of_marker hmarker, Option.some.injEq] at hc
      rw [← hc, solidus_not_special.1] at hblank
      exact absurd hblank (by simp)
    · refine .inl ⟨k, hk, ?_, hcovers⟩
      by_contra hquoted
      rw [hdrop, hcuts.noMarker_drop hquoted hj] at hmarker
      exact absurd hmarker (by simp)
  · exact .inr (Nat.not_lt.1 hlt)

/-- Behind all pieces there are blanks up to the remark. -/
theorem le_of_not_blank (hgap : Blanks gap) (hi : width ps ≤ i) {c : CodePoint}
    (hc : (spell ps (gap ++ remark))[i]? = some c) (hblank : c.isBlank = false) :
    width ps + gap.length ≤ i ∧ remark[i - (width ps + gap.length)]? = some c := by
  have hlength : (spell ps []).length = width ps := length_spell ps []
  rw [← List.nil_append (gap ++ remark), spell_append_tail,
    List.getElem?_append_right (by omega), hlength] at hc
  by_cases hlt : i - width ps < gap.length
  · rw [List.getElem?_append_left hlt] at hc
    rw [hgap c (List.mem_of_getElem? hc)] at hblank
    exact absurd hblank (by simp)
  · rw [List.getElem?_append_right (by omega), Nat.sub_sub] at hc
    exact ⟨by omega, hc⟩

theorem drop_spell (ps : List Piece) (gap remark : Text) :
    (spell ps (gap ++ remark)).drop (width ps + gap.length) = remark := by
  have hlength : (spell ps [] ++ gap).length = width ps + gap.length := by
    rw [List.length_append, length_spell, List.length_nil, Nat.add_zero]
  rw [← List.nil_append (gap ++ remark), spell_append_tail, ← List.append_assoc, ← hlength,
    List.drop_left]

/-- A marker lies in a quoted token or in the remark. -/
theorem quotedAt_or_le (h : Spelled ps (gap ++ remark)) (hgap : Blanks gap)
    (hmarker : Text.startsWith commentMarker ((spell ps (gap ++ remark)).drop i) = true) :
    QuotedAt (tokensAt number 1 ps) (i + 1) ∨ width ps + gap.length ≤ i := by
  rw [Int.add_comm]
  rcases quotedAt_or_of_spell h hmarker with hquoted | hle
  · exact .inl hquoted
  · have hbehind := le_of_not_blank hgap hle (getElem?_of_marker hmarker) solidus_not_special.1
    exact .inr hbehind.1

theorem not_quotedAt_of_le (hi : width ps ≤ i) :
    ¬ QuotedAt (tokensAt number 1 ps) (i + 1) := by
  rintro ⟨k, hk, -, -, hstop⟩
  have hcolumns := columns_of_mem_tokensAt hk
  omega

/-- A remark starts with the first marker that is not quoted. -/
theorem startsComment_iff (h : Spelled ps (gap ++ remark)) (hgap : Blanks gap)
    (hremark : IsRemark remark) :
    StartsComment (spell ps (gap ++ remark)) (tokensAt number 1 ps) i ↔
      remark ≠ [] ∧ i = width ps + gap.length := by
  constructor
  · rintro ⟨hmarker, hunquoted, hfirst⟩
    rcases quotedAt_or_le h hgap hmarker with hquoted | hle
    · exact absurd hquoted hunquoted
    · have hat := le_of_not_blank hgap (by omega) (getElem?_of_marker hmarker)
        solidus_not_special.1
      have hne : remark ≠ [] := by
        rintro rfl
        simp at hat
      have hstarts : Text.startsWith commentMarker
          ((spell ps (gap ++ remark)).drop (width ps + gap.length)) = true := by
        rw [drop_spell]
        exact hremark.resolve_left hne
      refine ⟨hne, ?_⟩
      by_contra hother
      exact not_quotedAt_of_le (by omega) (hfirst _ (by omega) hstarts)
  · rintro ⟨hne, rfl⟩
    refine ⟨?_, not_quotedAt_of_le (by omega), fun j hj hmarker => ?_⟩
    · rw [drop_spell]
      exact hremark.resolve_left hne
    · rcases quotedAt_or_le h hgap hmarker with hquoted | hle
      · exact hquoted
      · omega

theorem remarkAt_eq_some_iff {c : Comment} :
    remarkAt number column remark = some c ↔
      remark ≠ [] ∧ c = ⟨⟨number, column⟩, Text.trimEnd remark⟩ := by
  cases remark with
  | nil => simp [remarkAt]
  | cons d t => simp [remarkAt, @eq_comm _ c]

/-- **A spelling is tiled by its tokens and its remark.** -/
theorem tiles_spell (h : Spelled ps (gap ++ remark)) (hgap : Blanks gap)
    (hremark : IsRemark remark) :
    Tiles number (spell ps (gap ++ remark)) (tokensAt number 1 ps)
      (remarkAt number (1 + width ps + gap.length) remark) := by
  have hstands (k : Token) (hk : k ∈ tokensAt number 1 ps) : ∃ before after,
      k.Stands number (spell ps (gap ++ remark)) before after ∧ Cuts k.text after :=
    exists_stands_of_mem_tokensAt h [] hk
  have hcolumn : 1 + (width ps : Int) + gap.length = ((width ps + gap.length : Nat) : Int) + 1 := by
    omega
  constructor
  case nonempty =>
    intro k hk
    obtain ⟨before, after, -, hcuts⟩ := hstands k hk
    obtain ⟨c, body, htext, -⟩ := hcuts.head
    simp [htext]
  case onLine => exact fun k hk => line_of_mem_tokensAt hk
  case bounds =>
    intro k hk
    obtain ⟨before, after, hk, hcuts⟩ := hstands k hk
    obtain ⟨c, body, htext, -⟩ := hcuts.head
    have hlength := congrArg List.length hk.line
    rw [List.length_append, List.length_append, htext, List.length_cons] at hlength
    rw [hk.start, hk.stop, htext, List.length_cons]
    dsimp only
    omega
  case ordered => exact pairwise_tokensAt number 1 ps
  case sliced =>
    intro k hk
    obtain ⟨before, after, hk, -⟩ := hstands k hk
    exact hk.sliced.1
  case kinds =>
    intro k hk
    obtain ⟨before, after, hk, hcuts⟩ := hstands k hk
    obtain ⟨kind, hkind⟩ := hcuts.exists_describes
    rw [hk.sliced.2] at hkind
    exact ⟨kind, hkind, fun _ hother => hother.unique hkind⟩
  case marked =>
    intro c
    simp only [startsComment_iff h hgap hremark, remarkAt_eq_some_iff]
    constructor
    · rintro ⟨hne, rfl⟩
      exact ⟨_, ⟨hne, rfl⟩, by rw [drop_spell, hcolumn]⟩
    · rintro ⟨_, ⟨hne, rfl⟩, rfl⟩
      exact ⟨hne, by rw [drop_spell, hcolumn]⟩
  case beforeComment =>
    intro c hc k hk
    obtain ⟨-, rfl⟩ := remarkAt_eq_some_iff.1 hc
    have hstop := (columns_of_mem_tokensAt hk).2
    dsimp only
    omega
  case covered =>
    intro i c hi hc
    have hplace : (∃ k ∈ tokensAt number 1 ps, k.Covers (1 + i)) ∨ width ps ≤ i :=
      covers_or_of_spell h hi hc
    rcases hplace with hcovers | hle
    · rw [Int.add_comm]
      exact .inl hcovers
    · obtain ⟨hle, hat⟩ := le_of_not_blank hgap hle hi hc
      have hlt := Text.lt_length_trimEnd hat hc
      have hne : remark ≠ [] := by
        rintro rfl
        simp at hat
      refine .inr ⟨_, remarkAt_eq_some_iff.2 ⟨hne, rfl⟩, ?_⟩
      dsimp only
      omega

end

/-- **Tokens tile their line.** They are parts of the line, in order and without overlap, each of
one kind. What is in no token is blank or in the comment, which starts with the first marker that
is not quoted and takes the rest of the line without the blanks at its end. A line is refused
exactly where a quote opens, outside comments and other quoted tokens, that is never closed, and
the fault is at that quote. -/
theorem scanFrom_tiles (number : Int) (t : Text) :
    (∀ tokens comment, scanFrom number 1 t = .ok (tokens, comment) →
      Tiles number t tokens comment) ∧
    (∀ f, scanFrom number 1 t = .error f ↔
      ∃ before quote after, t = before ++ quote :: after ∧ OpensQuote before quote after ∧
        f = ⟨.unterminatedQuote, ⟨number, 1 + before.length⟩⟩) := by
  refine ⟨fun tokens comment h => ?_, fun f => scanFrom_eq_error_iff⟩
  obtain ⟨ps, gap, remark, rfl, hspelled, hgap, hremark, rfl, rfl⟩ := exists_spell_of_scanFrom h
  exact tiles_spell hspelled hgap hremark

/-- Markers in both kinds of quotes, an escaped quote, and a word that ends at a comment. On the
second line the escape mark takes the last quote with it. -/
theorem scanFrom_tiles_sample :
    (∃ tokens comment,
      (scanFrom 3 1 (Text.ofString "a \"//\\\"\"`//`)b// c ") = .ok (tokens, comment) ∧
        tokens.map Token.text = ["a", "\"//\\\"\"", "`//`", ")", "b"].map Text.ofString) ∧
      Tiles 3 (Text.ofString "a \"//\\\"\"`//`)b// c ") tokens comment) ∧
    ∃ f, scanFrom 3 1 (Text.ofString "`a` \"b\\\"") = .error f ∧
      ∃ before quote after, Text.ofString "`a` \"b\\\"" = before ++ quote :: after ∧
        OpensQuote before quote after ∧
        f = ⟨.unterminatedQuote, ⟨3, 1 + before.length⟩⟩ := by
  have hscan : (scanFrom 3 1 (Text.ofString "a \"//\\\"\"`//`)b// c ")).toOption.map
      (fun r => r.1.map Token.text) =
      some (["a", "\"//\\\"\"", "`//`", ")", "b"].map Text.ofString) := by
    decide +kernel
  have hrefused : scanFrom 3 1 (Text.ofString "`a` \"b\\\"") =
      .error ⟨.unterminatedQuote, ⟨3, 5⟩⟩ := by
    decide +kernel
  obtain ⟨⟨tokens, comment⟩, hr, htokens⟩ := Option.map_eq_some_iff.1 hscan
  rw [toOption_eq_some_iff] at hr
  exact ⟨⟨tokens, comment, ⟨hr, htokens⟩, (scanFrom_tiles 3 _).1 tokens comment hr⟩,
    _, hrefused, ((scanFrom_tiles 3 _).2 _).1 hrefused⟩

end Manifest

end ManifestPolicy
