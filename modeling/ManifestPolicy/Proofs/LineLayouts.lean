import ManifestPolicy.Proofs.Tiling
import Mathlib.Data.List.Chain

/-!
# Laying out a line

The same tokens and the same comment can be laid out on a line in many ways: any blanks can stand
before them, between them and behind them. Blanks are needed in two places only, between two bare
words, and between a bare word that ends in a solidus and a comment. Everywhere else tokens are cut
off in the same way when nothing stands between them.

So reading a line undoes its layout, and gives the tokens at the places where they were put. Every
line that can be read is laid out in some way.

## Main definitions

* `LineLayout`: tokens, a comment or nothing, and the blanks around them.
* `LineLayout.Scans`: the tokens and the comment of a layout, where they were put.

## Main statements

* `cuts_of_validToken`: a token is cut off before everything that may follow it.
* `LineLayout.scanFrom_text`: what is read from a line that was laid out.
* `exists_lineLayout`: every line that can be read was laid out.
-/

namespace ManifestPolicy

namespace Text

theorem trimEnd_append_blanks (t : Text) {gap : Text} (h : ∀ c ∈ gap, c.isBlank = true) :
    trimEnd (t ++ gap) = trimEnd t := by
  have hdrop : gap.reverse.dropWhile CodePoint.isBlank = [] := by
    rw [List.dropWhile_eq_nil_iff]
    intro c hc
    exact h c (List.mem_reverse.1 hc)
  rw [trimEnd, trimEnd, List.reverse_append, List.dropWhile_append, hdrop]
  rfl

end Text

namespace Manifest

/-- The text is a token by itself: a parenthesis, a quoted string or a bare word. -/
def ValidToken (token : Text) : Prop := ∃ kind : TokenKind, kind.Describes token []

/-- The text is a bare word by itself. -/
def IsWord (token : Text) : Prop := TokenKind.word.Describes token []

theorem TokenKind.Describes.alone {kind : TokenKind} {token rest : Text}
    (h : kind.Describes token rest) : kind.Describes token [] := by
  cases h with
  | paren isParen => exact .paren isParen []
  | raw noAccent => exact .raw noAccent []
  | string inQuotes => exact .string inQuotes []
  | word nonempty bare noMarker => exact .word nonempty bare noMarker rfl

theorem Cuts.validToken {token rest : Text} (h : Cuts token rest) : ValidToken token := by
  obtain ⟨kind, hkind⟩ := h.exists_describes
  exact ⟨kind, hkind.alone⟩

theorem IsWord.bare {token : Text} (h : IsWord token) :
    ∀ c ∈ token, c.isBlank = false ∧ isParen c = false ∧ isQuote c = false := by
  cases h with
  | word _ bare => exact bare

theorem IsWord.noMarker {token : Text} (h : IsWord token) : ¬ commentMarker <:+: token := by
  cases h with
  | word _ _ noMarker => exact noMarker

theorem IsWord.exists_cons {token : Text} (h : IsWord token) : ∃ c word, token = c :: word := by
  cases h with
  | word nonempty => exact List.exists_cons_of_ne_nil nonempty

/-- A token that is no bare word starts with a parenthesis or a quote. -/
theorem ValidToken.breaks {token : Text} (h : ValidToken token) (hword : ¬ IsWord token)
    (rest : Text) : Breaks (token ++ rest) := by
  obtain ⟨kind, hkind⟩ := h
  cases hkind with
  | paren isParen => exact .inr (.inl isParen)
  | raw => exact .inr (.inr (by decide))
  | string => exact .inr (.inr (by decide))
  | word nonempty bare noMarker maximal =>
    exact absurd (.word nonempty bare noMarker maximal) hword

theorem startsWith_append {t : Text} (h : Text.startsWith commentMarker t = true) (rest : Text) :
    Text.startsWith commentMarker (t ++ rest) = true := by
  obtain ⟨more, rfl⟩ := startsWith_commentMarker_iff.1 h
  exact startsWith_commentMarker_iff.2 ⟨more ++ rest, rfl⟩

/-- The word ends before this text: the text ends words, and no marker starts in the word and ends
in the text. -/
structure EndsBefore (word rest : Text) : Prop where
  ends : endsWord rest = true
  noMarker : word.getLast? = some ('/' : CodePoint) → rest.head? ≠ some ('/' : CodePoint)

theorem endsBefore_of_breaks (word : Text) {rest : Text} (h : Breaks rest) :
    EndsBefore word rest := by
  refine ⟨endsWord_of_breaks h, fun _ hhead => ?_⟩
  obtain ⟨more, rfl⟩ := List.head?_eq_some_iff.1 hhead
  obtain ⟨hblank, hparen, hquote⟩ := solidus_not_special
  rcases h with h | h | h
  · simp [hblank] at h
  · simp [hparen] at h
  · simp [hquote] at h

theorem endsBefore_remark {word remark : Text}
    (h : Text.startsWith commentMarker remark = true)
    (hlast : word.getLast? ≠ some ('/' : CodePoint)) : EndsBefore word remark := by
  refine ⟨?_, fun hword => absurd hword hlast⟩
  cases remark with
  | nil => rfl
  | cons c remark =>
    rw [endsWord, h, Bool.or_true]

theorem EndsBefore.tail {c : CodePoint} {word rest : Text} (h : EndsBefore (c :: word) rest) :
    EndsBefore word rest := by
  refine ⟨h.ends, fun hword => h.noMarker ?_⟩
  rw [List.getLast?_cons, hword]
  rfl

/-- No marker starts at the head of a bare word. -/
theorem EndsBefore.startsWith_eq_false {c : CodePoint} {word rest : Text}
    (h : EndsBefore (c :: word) rest) (hword : ¬ commentMarker <:+: c :: word) :
    Text.startsWith commentMarker (c :: (word ++ rest)) = false := by
  by_contra hstarts
  rw [Bool.not_eq_false] at hstarts
  obtain ⟨more, hmore⟩ := startsWith_commentMarker_iff.1 hstarts
  obtain ⟨rfl, htail⟩ := List.cons.inj hmore
  cases word with
  | nil => exact h.noMarker rfl (by rw [← List.nil_append rest, htail]; rfl)
  | cons d word =>
    rw [List.cons_append, List.cons.injEq] at htail
    obtain ⟨rfl, -⟩ := htail
    exact hword ⟨[], word, rfl⟩

/-- A bare word is cut off up to its end. -/
theorem cutWord_of_endsBefore {word rest : Text}
    (hbare : ∀ c ∈ word, c.isBlank = false ∧ isParen c = false ∧ isQuote c = false)
    (hword : ¬ commentMarker <:+: word) (h : EndsBefore word rest) :
    cutWord (word ++ rest) = (word, rest) := by
  induction word with
  | nil =>
    cases rest with
    | nil => rfl
    | cons c rest => rw [List.nil_append, cutWord, if_pos h.ends]
  | cons c word ih =>
    obtain ⟨hblank, hparen, hquote⟩ := hbare c List.mem_cons_self
    have hgoes : endsWord (c :: (word ++ rest)) = false := by
      rw [endsWord, hblank, hparen, hquote, h.startsWith_eq_false hword]
      rfl
    have hrest : ¬ commentMarker <:+: word := fun hinfix => hword (List.infix_cons hinfix)
    rw [List.cons_append, cutWord, if_neg (by simp [hgoes]),
      ih (fun d hd => hbare d (List.mem_cons_of_mem _ hd)) hrest h.tail]

theorem paren_not_blank {c : CodePoint} (h : isParen c = true) : c.isBlank = false := by
  rw [isParen, Bool.or_eq_true, decide_eq_true_eq, decide_eq_true_eq] at h
  rcases h with rfl | rfl <;> decide

theorem inQuotes_of_accent_not_mem {inside : Text} (h : graveAccent ∉ inside) :
    InQuotes graveAccent inside := by
  induction inside with
  | nil => exact .nil
  | cons c inside ih =>
    rw [List.mem_cons, not_or] at h
    exact .plain (Ne.symm h.1) (fun hquote => absurd hquote.symm quotation_ne_graveAccent)
      (ih h.2)

/-- A quoted string is cut off before any text. -/
theorem cuts_quoted {quote : CodePoint} {inside : Text} (hquote : isQuote quote = true)
    (h : InQuotes quote inside) (rest : Text) : Cuts (quote :: (inside ++ [quote])) rest := by
  obtain ⟨hblank, hparen, hne⟩ := quote_not_special hquote
  refine ⟨⟨quote, _, rfl, hblank⟩, startsWith_commentMarker_of_ne hne _, ?_⟩
  rw [List.cons_append, cutToken, if_neg (by simp [hparen]), if_pos hquote, List.append_assoc,
    List.singleton_append, cutQuoted_of_inQuotes h]
  rfl

theorem cuts_word {word rest : Text} (hword : IsWord word) (h : EndsBefore word rest) :
    Cuts word rest := by
  obtain ⟨c, body, rfl⟩ := hword.exists_cons
  obtain ⟨hblank, hparen, hquote⟩ := hword.bare c List.mem_cons_self
  have hbody : cutWord (body ++ rest) = (body, rest) :=
    cutWord_of_endsBefore (fun d hd => hword.bare d (List.mem_cons_of_mem _ hd))
      (fun hinfix => hword.noMarker (List.infix_cons hinfix)) h.tail
  refine ⟨⟨c, body, rfl, hblank⟩, h.startsWith_eq_false hword.noMarker, ?_⟩
  rw [List.cons_append, cutToken, if_neg (by simp [hparen]), if_neg (by simp [hquote]), hbody]

/-- **A token is cut off before everything that may follow it**, which only a bare word
restricts. -/
theorem cuts_of_validToken {token rest : Text} (htoken : ValidToken token)
    (h : IsWord token → EndsBefore token rest) : Cuts token rest := by
  obtain ⟨kind, hkind⟩ := htoken
  cases hkind with
  | @paren c isParen =>
    refine ⟨⟨c, [], rfl, paren_not_blank isParen⟩, ?_, ?_⟩
    · exact startsWith_commentMarker_of_ne (ne_solidus_of_special (.inl isParen)) _
    · rw [List.singleton_append, cutToken, if_pos isParen]
  | raw noAccent => exact cuts_quoted isQuote_graveAccent (inQuotes_of_accent_not_mem noAccent) rest
  | string inQuotes => exact cuts_quoted (by decide) inQuotes rest
  | word nonempty bare noMarker maximal =>
    have hword : IsWord token := .word nonempty bare noMarker maximal
    exact cuts_word hword (h hword)

/-- Two bare words have blanks between them. -/
def Piece.Parted (p q : Piece) : Prop := IsWord p.token → IsWord q.token → q.gap ≠ []

/-- A line as it is laid out: tokens with any blanks before them, blanks, a comment or nothing, and
blanks at the end. Blanks are needed only between two bare words, and between a bare word that ends
in a solidus and the comment. -/
structure LineLayout where
  pieces : List Piece
  /-- The blanks behind the tokens. -/
  gap : Text
  /-- The comment from its marker on, or nothing. -/
  remark : Text
  /-- The blanks at the end. -/
  tail : Text
  valid : ∀ p ∈ pieces, ValidToken p.token
  gaps : ∀ p ∈ pieces, Blanks p.gap
  blankGap : Blanks gap
  blankTail : Blanks tail
  isRemark : IsRemark remark
  trimmed : Text.trimEnd remark = remark
  parted : pieces.IsChain Piece.Parted
  partedRemark : ∀ p, pieces.getLast? = some p → IsWord p.token →
    p.token.getLast? = some ('/' : CodePoint) → remark ≠ [] → gap ≠ []

namespace LineLayout

variable (L : LineLayout)

/-- The tokens that are laid out. -/
def tokens : List Text := L.pieces.map Piece.token

/-- The line itself. -/
def text : Text := spell L.pieces (L.gap ++ (L.remark ++ L.tail))

/-- The tokens and the comment of a layout, on line `number`. A column is one more than the length
of what stands before it. -/
structure Scans (number : Int) (tokens : List Token) (comment : Option Comment) : Prop where
  texts : tokens.map Token.text = L.tokens
  places : ∀ before p after, L.pieces = before ++ p :: after →
    tokens[before.length]? = some ⟨p.token, ⟨number, (spell before p.gap).length + 1⟩,
      ⟨number, (spell before (p.gap ++ p.token)).length + 1⟩⟩
  comment : comment = if L.remark = [] then none
    else some ⟨⟨number, (spell L.pieces L.gap).length + 1⟩, L.remark⟩

end LineLayout

/-- A text that starts with blanks, or is empty, lets every word end. -/
theorem breaks_blanks {gap rest : Text} (hgap : Blanks gap) (h : gap = [] → Breaks rest) :
    Breaks (gap ++ rest) := by
  cases gap with
  | nil => exact h rfl
  | cons b gap => exact breaks_of_blank (hgap b List.mem_cons_self) _

/-- The tokens of parted pieces are cut off where their pieces end. -/
theorem spelled_of_parted {ps : List Piece} {tail : Text}
    (hvalid : ∀ p ∈ ps, ValidToken p.token) (hgaps : ∀ p ∈ ps, Blanks p.gap)
    (hparted : ps.IsChain Piece.Parted)
    (hlast : ∀ p, ps.getLast? = some p → IsWord p.token → EndsBefore p.token tail) :
    Spelled ps tail := by
  induction ps with
  | nil => trivial
  | cons p ps ih =>
    rw [List.forall_mem_cons] at hvalid hgaps
    refine ⟨hgaps.1, cuts_of_validToken hvalid.1 fun hword => ?_, ?_⟩
    · cases ps with
      | nil => exact hlast p rfl hword
      | cons q qs =>
        refine endsBefore_of_breaks p.token (breaks_blanks (hgaps.2 q List.mem_cons_self) ?_)
        intro hgap
        refine (hvalid.2 q List.mem_cons_self).breaks (fun hq => ?_) _
        exact (List.isChain_cons_cons.1 hparted).1 hword hq hgap
    · refine ih hvalid.2 hgaps.2 hparted.tail fun q hq => hlast q ?_
      rw [List.getLast?_cons, hq]
      rfl

namespace LineLayout

variable (L : LineLayout)

theorem spelled : Spelled L.pieces (L.gap ++ (L.remark ++ L.tail)) := by
  refine spelled_of_parted L.valid L.gaps L.parted fun p hp hword => ?_
  rcases L.isRemark with hremark | hremark
  · refine endsBefore_of_breaks p.token (breaks_blanks L.blankGap fun _ => ?_)
    rw [hremark, List.nil_append, ← List.append_nil L.tail]
    exact breaks_blanks L.blankTail fun _ => breaks_nil
  · by_cases hgap : L.gap = []
    · obtain ⟨rest, hrest⟩ := startsWith_commentMarker_iff.1 hremark
      have hne : L.remark ≠ [] := by simp [hrest]
      rw [hgap, List.nil_append]
      exact endsBefore_remark (startsWith_append hremark L.tail)
        fun hsolidus => L.partedRemark p hp hword hsolidus hne hgap
    · exact endsBefore_of_breaks p.token (breaks_blanks L.blankGap fun h => absurd h hgap)

/-- **Reading a line undoes its layout.** -/
theorem scanFrom_text (number : Int) :
    scanFrom number 1 L.text = .ok (tokensAt number 1 L.pieces,
      if L.remark = [] then none
      else some ⟨⟨number, (spell L.pieces L.gap).length + 1⟩, L.remark⟩) := by
  have hspelled := L.spelled
  rw [text]
  by_cases hremark : L.remark = []
  · -- Without a comment all blanks behind the tokens are one gap.
    have hblanks : Blanks (L.gap ++ L.tail) :=
      List.forall_mem_append.2 ⟨L.blankGap, L.blankTail⟩
    rw [hremark, List.nil_append] at hspelled ⊢
    rw [← List.append_nil (L.gap ++ L.tail)] at hspelled ⊢
    rw [scanFrom_spell_remark hspelled hblanks (.inl rfl), if_pos rfl]
    rfl
  · have hstarts : Text.startsWith commentMarker (L.remark ++ L.tail) = true :=
      startsWith_append (L.isRemark.resolve_left hremark) L.tail
    have hne : L.remark ++ L.tail ≠ [] := by simp [hremark]
    have hcolumn : (1 : Int) + width L.pieces + L.gap.length =
        (spell L.pieces L.gap).length + 1 := by
      rw [length_spell]
      omega
    have hcomment : remarkAt number (1 + width L.pieces + L.gap.length) (L.remark ++ L.tail) =
        some ⟨⟨number, 1 + width L.pieces + L.gap.length⟩,
          Text.trimEnd (L.remark ++ L.tail)⟩ :=
      remarkAt_eq_some_iff.2 ⟨hne, rfl⟩
    rw [Text.trimEnd_append_blanks L.remark L.blankTail, L.trimmed, hcolumn] at hcomment
    rw [scanFrom_spell_remark hspelled L.blankGap (.inr hstarts), hcolumn, hcomment,
      if_neg hremark]

end LineLayout

theorem getElem?_tokensAt (number column : Int) (before : List Piece) (p : Piece)
    (after : List Piece) :
    (tokensAt number column (before ++ p :: after))[before.length]? =
      some ⟨p.token, ⟨number, column + (spell before p.gap).length⟩,
        ⟨number, column + (spell before (p.gap ++ p.token)).length⟩⟩ := by
  induction before generalizing column with
  | nil => simp [tokensAt, spell, Int.add_assoc]
  | cons q before ih =>
    rw [List.cons_append, tokensAt, List.length_cons, List.getElem?_cons_succ, ih]
    simp only [spell, List.length_append, Int.natCast_add, Int.add_assoc]

theorem LineLayout.exists_scans (L : LineLayout) (number : Int) :
    ∃ tokens comment, scanFrom number 1 L.text = .ok (tokens, comment) ∧
      L.Scans number tokens comment := by
  refine ⟨_, _, L.scanFrom_text number, map_text_tokensAt number 1 L.pieces, ?_, rfl⟩
  intro before p after hsplit
  rw [hsplit, getElem?_tokensAt, Int.add_comm 1, Int.add_comm 1]

/-- A bare word that is cut off ends before what follows it. -/
theorem Cuts.endsBefore {token rest : Text} (h : Cuts token rest) (hword : IsWord token) :
    EndsBefore token rest := by
  constructor
  · obtain ⟨kind, hkind⟩ := h.exists_describes
    cases hkind.unique hword
    cases hkind with
    | word _ _ _ maximal => exact maximal
  · intro hlast hhead
    obtain ⟨before, rfl⟩ := List.getLast?_eq_some_iff.1 hlast
    obtain ⟨more, rfl⟩ := List.head?_eq_some_iff.1 hhead
    have hunquoted : ¬ ∃ c body, before ++ [('/' : CodePoint)] = c :: body ∧
        isQuote c = true := by
      rintro ⟨c, body, htoken, hquote⟩
      have hc := (hword.bare c (by simp [htoken])).2.2
      rw [hquote] at hc
      exact absurd hc (by simp)
    have hmarker := h.noMarker_drop hunquoted (i := before.length) (by simp)
    rw [List.append_assoc, List.drop_left] at hmarker
    simp [Text.startsWith, commentMarker, Text.dropStart?] at hmarker

theorem Spelled.parted {ps : List Piece} {tail : Text} (h : Spelled ps tail) :
    ps.IsChain Piece.Parted := by
  induction ps with
  | nil => exact .nil
  | cons p ps ih =>
    obtain ⟨-, hcuts, hrest⟩ := h
    cases ps with
    | nil => exact .singleton p
    | cons q qs =>
      refine List.isChain_cons_cons.2 ⟨fun hp hq hgap => ?_, ih hrest⟩
      -- What starts with a bare word ends no word.
      have hends := (hcuts.endsBefore hp).ends
      have hmarker := hrest.2.1.noMarker
      obtain ⟨c, word, htoken⟩ := hq.exists_cons
      obtain ⟨hblank, hparen, hquote⟩ := hq.bare c (by simp [htoken])
      rw [htoken, List.cons_append] at hmarker
      rw [spell, hgap, List.nil_append, htoken, List.cons_append, endsWord, hblank, hparen, hquote,
        hmarker] at hends
      exact absurd hends (by simp)

theorem Spelled.valid {ps : List Piece} {tail : Text} (h : Spelled ps tail) :
    ∀ p ∈ ps, ValidToken p.token ∧ Blanks p.gap := by
  induction ps with
  | nil => simp
  | cons p ps ih =>
    obtain ⟨hgap, hcuts, hrest⟩ := h
    exact List.forall_mem_cons.2 ⟨⟨hcuts.validToken, hgap⟩, ih hrest⟩

theorem Spelled.cuts_last {ps : List Piece} {tail : Text} (h : Spelled ps tail) {p : Piece}
    (hp : ps.getLast? = some p) : Cuts p.token tail := by
  induction ps with
  | nil => simp at hp
  | cons q ps ih =>
    obtain ⟨-, hcuts, hrest⟩ := h
    cases ps with
    | nil =>
      cases hp
      exact hcuts
    | cons r rs =>
      rw [List.getLast?_cons_cons] at hp
      exact ih hrest hp

/-- **Every line that can be read was laid out.** -/
theorem exists_lineLayout {number column : Int} {t : Text} {r : List Token × Option Comment}
    (h : scanFrom number column t = .ok r) : ∃ L : LineLayout, L.text = t := by
  obtain ⟨ps, gap, remark, rfl, hspelled, hgap, hremark, -, -⟩ := exists_spell_of_scanFrom h
  obtain ⟨tail, htail, hblank⟩ := Text.exists_blanks_trimEnd remark
  have htrimmed : IsRemark (Text.trimEnd remark) := by
    rcases hremark with rfl | hstarts
    · exact .inl rfl
    · exact .inr (startsWith_trimEnd hstarts)
  have hremarkGap : ∀ p, ps.getLast? = some p → IsWord p.token →
      p.token.getLast? = some ('/' : CodePoint) → Text.trimEnd remark ≠ [] → gap ≠ [] := by
    intro p hp hword hsolidus hne hnil
    have hends := (hspelled.cuts_last hp).endsBefore hword
    rcases hremark with rfl | hstarts
    · exact hne rfl
    · obtain ⟨more, rfl⟩ := startsWith_commentMarker_iff.1 hstarts
      exact hends.noMarker hsolidus (by rw [hnil]; rfl)
  refine ⟨⟨ps, gap, Text.trimEnd remark, tail, fun p hp => (hspelled.valid p hp).1,
    fun p hp => (hspelled.valid p hp).2, hgap, hblank, htrimmed, Text.trimEnd_trimEnd remark,
    hspelled.parted, hremarkGap⟩, ?_⟩
  rw [LineLayout.text, ← htail]

end Manifest

end ManifestPolicy
