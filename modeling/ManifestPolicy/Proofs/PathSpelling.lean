import ManifestPolicy.Proofs.EncodedStrings
import ManifestPolicy.Proofs.RelatedLines
import ManifestPolicy.Proofs.WrittenRequirements

/-!
# How paths are spelled

The path of a requirement can be spelled in many ways: as a bare word, between grave accents, or
as a string with any escapes. What counts is the text that the token stands for. Where blanks
stand around the token, another one that stands for the same text changes nothing: the line is
read with the same tokens otherwise, the line numbers stay, the comments stay, and so do the
policies and the overwrites.

## Main definitions

* `BeforePath`: what stands on a line before the path of a requirement.
* `Manifest.Respelled`: a text of a manifest with another token for one path.

## Main statements

* `exists_ofText_respelled`: the line is read with another token for the path.
* `exists_read_respelled`: the text is read, and resolves to the same.
* `paths_survive`: mappings survive being written and read, whatever their paths are and however
  they are spelled.
-/

namespace ManifestPolicy.Manifest

/-- What is read of a text does not depend on the column where it starts. -/
theorem exists_scanFrom_column {number column : Int} {t : Text} {tokens : List Token}
    {comment : Option Comment} (h : scanFrom number column t = .ok (tokens, comment))
    (column' : Int) :
    ∃ tokens' comment', scanFrom number column' t = .ok (tokens', comment') ∧
      tokens'.map Token.text = tokens.map Token.text ∧
      comment'.map Comment.text = comment.map Comment.text := by
  obtain ⟨ps, gap, remark, rfl, hspelled, hgap, hremark, rfl, rfl⟩ := exists_spell_of_scanFrom h
  refine ⟨_, _, scanFrom_spell_remark hspelled hgap hremark number column', ?_, ?_⟩
  · rw [map_text_tokensAt, map_text_tokensAt]
  · cases remark <;> rfl

/-- A text that is one token is cut off before a blank. -/
theorem cuts_of_tokenTexts {token : Text} (h : tokenTexts token = [token]) {b : CodePoint}
    (hb : b.isBlank = true) (v : Text) : Cuts token (b :: v) := by
  cases hscan : scanFrom 1 1 token with
  | error e => simp [tokenTexts, hscan] at h
  | ok r =>
    obtain ⟨ps, gap, remark, htoken, hspelled, -, -, htokens, -⟩ := exists_spell_of_scanFrom hscan
    rw [tokenTexts_of_scanFrom hscan, htokens, map_text_tokensAt] at h
    cases ps with
    | nil => simp at h
    | cons p ps =>
      cases ps with
      | cons q ps => simp at h
      | nil =>
        obtain ⟨-, hcuts, -⟩ := hspelled
        have hp : p.token = token := by simpa using h
        have hlength := congrArg List.length htoken
        simp only [spell, List.length_append, hp] at hlength
        have htail : gap ++ remark = [] := by
          rw [← List.length_eq_zero_iff, List.length_append]
          omega
        rw [spell, htail, hp] at hcuts
        exact hcuts.of_breaks (breaks_of_blank hb v)

/-- What may stand on a line before the path of a requirement: blanks inside a block, and outside
blocks the verb, with blanks before and after it. -/
inductive BeforePath : Bool → Text → Prop
  | child {u : Text} (blanks : Blanks u) : BeforePath true u
  | line {indent gap : Text} (indented : Blanks indent) (blanks : Blanks gap) (apart : gap ≠ []) :
      BeforePath false (indent ++ (requireVerb ++ gap))

/-- The tokens that stand on a line before the path of a requirement. -/
def tokensBeforePath (inBlock : Bool) : List Text := if inBlock then [] else [requireVerb]

theorem BeforePath.exists_pieces {inBlock : Bool} {u : Text} (h : BeforePath inBlock u) :
    ∃ ps gap, ps.map Piece.token = tokensBeforePath inBlock ∧ Blanks gap ∧
      ∀ t, u ++ t = spell ps (gap ++ t) ∧ Spelled ps (gap ++ t) := by
  cases h with
  | child blanks => exact ⟨[], u, rfl, blanks, fun t => ⟨rfl, trivial⟩⟩
  | @line indent gap indented blanks apart =>
    refine ⟨[⟨indent, requireVerb⟩], gap, rfl, blanks, fun t => ⟨?_, indented, ?_, trivial⟩⟩
    · simp [spell]
    · cases gap with
      | nil => exact absurd rfl apart
      | cons b gap => exact cuts_requireVerb (breaks_of_blank (blanks b List.mem_cons_self) _)

/-- The tokens of the line `l'` are those of `l` with another one for the path, and the comments
are the same. -/
structure TokenLine.Respelled (number : Int) (before : List Text) (token token' : Text)
    (l l' : TokenLine) : Prop where
  number : l.first.start.line = number ∧ l'.first.start.line = number
  texts : ∃ after, l.tokens.map Token.text = before ++ token :: after ∧
    l'.tokens.map Token.text = before ++ token' :: after
  suffix : l'.suffix.map Comment.text = l.suffix.map Comment.text
  plain : l.Plain ∧ l'.Plain

theorem spell_concat (ps : List Piece) (p : Piece) (tail : Text) :
    spell (ps ++ [p]) tail = spell ps (p.gap ++ (p.token ++ tail)) := by
  induction ps with
  | nil => rfl
  | cons q ps ih => simp [spell, ih]

theorem spelled_concat {ps : List Piece} {p : Piece} {tail : Text}
    (h : Spelled ps (p.gap ++ (p.token ++ tail))) (hgap : Blanks p.gap)
    (hcuts : Cuts p.token tail) : Spelled (ps ++ [p]) tail := by
  induction ps with
  | nil => exact ⟨hgap, hcuts, trivial⟩
  | cons q ps ih =>
    obtain ⟨hq, hcut, hrest⟩ := h
    exact ⟨hq, (spell_concat ps p tail).symm ▸ hcut, ih hrest⟩

/-- The tokens up to the path of a requirement are read, and then what is left of the line. -/
theorem scanFrom_path {inBlock : Bool} {u token v : Text} {b : CodePoint}
    (hu : BeforePath inBlock u) (hb : b.isBlank = true) (htoken : tokenTexts token = [token])
    (number : Int) :
    ∃ (ps : List Piece) (column : Int),
      ps.map Piece.token = tokensBeforePath inBlock ++ [token] ∧
      scanFrom number 1 (u ++ (token ++ b :: v)) =
        (scanFrom number column (b :: v)).map fun r => (tokensAt number 1 ps ++ r.1, r.2) := by
  obtain ⟨ps, gap, hps, hgap, hspell⟩ := hu.exists_pieces
  obtain ⟨heq, hspelled⟩ := hspell (token ++ b :: v)
  have hall : Spelled (ps ++ [⟨gap, token⟩]) (b :: v) :=
    spelled_concat hspelled hgap (cuts_of_tokenTexts htoken hb v)
  refine ⟨ps ++ [⟨gap, token⟩], 1 + width (ps ++ [⟨gap, token⟩]), by simp [hps], ?_⟩
  rw [heq, ← spell_concat ps ⟨gap, token⟩]
  exact scanFrom_spell hall number 1

/-- Tokens make a line with tokens. -/
theorem exists_ofParts {tokens : List Token} (comment : Option Comment) (h : tokens ≠ []) :
    ∃ l, ScannedLine.ofParts tokens comment = .tokens l ∧ l.tokens = tokens ∧
      l.suffix = comment.toList := by
  cases tokens with
  | nil => exact absurd rfl h
  | cons first rest => exact ⟨⟨first, rest, comment⟩, rfl, rfl, rfl⟩

/-- A line that is read with a token for the path is read with any other one. -/
theorem exists_ofText_respelled {number : Int} {inBlock : Bool} {u token token' v : Text}
    {b : CodePoint} {line : ScannedLine} (hu : BeforePath inBlock u) (hb : b.isBlank = true)
    (htoken : tokenTexts token = [token]) (htoken' : tokenTexts token' = [token'])
    (h : ScannedLine.ofText number (u ++ (token ++ b :: v)) = .ok line) :
    ∃ l l' after, line = .tokens l ∧
      ScannedLine.ofText number (u ++ (token' ++ b :: v)) = .ok (.tokens l') ∧
      l.tokens.map Token.text = tokensBeforePath inBlock ++ token :: after ∧
      l'.tokens.map Token.text = tokensBeforePath inBlock ++ token' :: after ∧
      l'.suffix.map Comment.text = l.suffix.map Comment.text := by
  obtain ⟨ps, column, hps, hscan⟩ := scanFrom_path (v := v) hu hb htoken number
  obtain ⟨ps', column', hps', hscan'⟩ := scanFrom_path (v := v) hu hb htoken' number
  obtain ⟨tokens, comment, hline, rfl⟩ := ofText_eq_ok_iff.1 h
  cases hrest : scanFrom number column (b :: v) with
  | error e => simp [hscan, hrest, Except.map] at hline
  | ok r =>
    obtain ⟨more, comment', hrest', hmore, hcomment⟩ := exists_scanFrom_column hrest column'
    simp only [hscan, hrest, Except.map, Except.ok.injEq, Prod.mk.injEq] at hline
    obtain ⟨rfl, rfl⟩ := hline
    have htexts : (tokensAt number 1 ps ++ r.1).map Token.text =
        tokensBeforePath inBlock ++ token :: r.1.map Token.text := by
      simp [map_text_tokensAt, hps]
    have htexts' : (tokensAt number 1 ps' ++ more).map Token.text =
        tokensBeforePath inBlock ++ token' :: r.1.map Token.text := by
      simp [map_text_tokensAt, hps', hmore]
    obtain ⟨l, hl, hltokens, hlsuffix⟩ := exists_ofParts r.2
      fun hnil : tokensAt number 1 ps ++ r.1 = [] => by simp [hnil] at htexts
    obtain ⟨l', hl', hltokens', hlsuffix'⟩ := exists_ofParts comment'
      fun hnil : tokensAt number 1 ps' ++ more = [] => by simp [hnil] at htexts'
    refine ⟨l, l', r.1.map Token.text, hl, ?_, hltokens ▸ htexts, hltokens' ▸ htexts', ?_⟩
    · exact ofText_eq_ok_iff.2 ⟨_, _, by rw [hscan', hrest']; rfl, hl'.symm⟩
    · rw [hlsuffix, hlsuffix', ← Option.toList_map, hcomment, Option.toList_map]

/-- The lines of a text are read with another token on one of them. -/
theorem exists_scanLines_respelled {n : Int} {above below : List Text} {inBlock : Bool}
    {u token token' v : Text} {b : CodePoint} {lines : List ScannedLine}
    (hu : BeforePath inBlock u) (hb : b.isBlank = true) (htoken : tokenTexts token = [token])
    (htoken' : tokenTexts token' = [token'])
    (h : scanLines n (above ++ (u ++ (token ++ b :: v)) :: below) = .ok lines) :
    ∃ labove l l' lbelow after, lines = labove ++ .tokens l :: lbelow ∧
      scanLines n (above ++ (u ++ (token' ++ b :: v)) :: below) =
        .ok (labove ++ .tokens l' :: lbelow) ∧
      labove.length = above.length ∧ l'.first.start.line = n + above.length ∧
      l.tokens.map Token.text = tokensBeforePath inBlock ++ token :: after ∧
      l'.tokens.map Token.text = tokensBeforePath inBlock ++ token' :: after ∧
      l'.suffix.map Comment.text = l.suffix.map Comment.text := by
  obtain ⟨labove, rest, habove, hrest, rfl⟩ := scanLines_append_eq_ok_iff.1 h
  obtain ⟨line, lbelow, hline, hbelow, rfl⟩ := scanLines_cons_eq_ok_iff.1 hrest
  obtain ⟨l, l', after, rfl, hline', htexts, htexts', hsuffix⟩ :=
    exists_ofText_respelled hu hb htoken htoken' hline
  refine ⟨labove, l, l', lbelow, after, rfl, ?_, length_of_scanLines habove,
    (on_ofText hline').first.1, htexts, htexts', hsuffix⟩
  exact scanLines_append_eq_ok_iff.2
    ⟨_, _, habove, scanLines_cons_eq_ok_iff.2 ⟨_, _, hline', hbelow, rfl⟩, rfl⟩

/-- What a token stands for it stands for alone. -/
theorem sameArgument_of_denotes {token token' path : Text} (htoken : IsToken token)
    (htoken' : IsToken token') (h : Denotes token path) (h' : Denotes token' path) :
    SameArgument token token' := by
  intro p q t ht
  have hpath : unquote p token = .ok path := (unquote_eq_ok_iff htoken).2 h
  rw [hpath, Except.ok.injEq] at ht
  rw [← ht]
  exact (unquote_eq_ok_iff htoken').2 h'

theorem isToken_of_tokenTexts {token : Text} (h : tokenTexts token = [token]) : IsToken token :=
  isToken_of_mem_tokenTexts (t := token) (by rw [h]; exact List.mem_singleton_self token)

/-- The text `text'` is the text `text` of the manifest with the path of one requirement spelled
in another way. Blanks stand around the path. -/
inductive Respelled (m : Manifest) (text text' : Text) : Prop
  | intro {r : Requirement} {above below : List Text} {u token token' v path : Text}
      {b : CodePoint} (required : r ∈ m.requirements)
      (number : r.line.start.line = above.length + 1)
      (start : BeforePath r.line.inBlock u) (apart : b.isBlank = true)
      (lines : text.lines = above ++ (u ++ (token ++ b :: v)) :: below)
      (lines' : text'.lines = above ++ (u ++ (token' ++ b :: v)) :: below)
      (whole : tokenTexts token = [token]) (whole' : tokenTexts token' = [token'])
      (noParen : isParenText token' = false)
      (denotes : Denotes token path) (denotes' : Denotes token' path) : Respelled m text text'

/-- The lines of a text are the same, or they are the one line with the other token. -/
def OrRespelled (number : Int) (before : List Text) (token token' : Text) (l l' : TokenLine) :
    Prop :=
  l' = l ∨ l.Respelled number before token token' l'

/-- The line with the other token has no parentheses either. -/
theorem plain_of_noParen {l l' : TokenLine} {before after : List Text} {token token' : Text}
    (htexts : l.tokens.map Token.text = before ++ token :: after)
    (htexts' : l'.tokens.map Token.text = before ++ token' :: after)
    (noParen : isParenText token' = false) (plain : l.Plain) : l'.Plain := by
  rw [TokenLine.plain_iff, htexts] at plain
  rw [TokenLine.plain_iff, htexts']
  simp only [List.forall_mem_append, List.forall_mem_cons] at plain ⊢
  exact ⟨plain.1, noParen, plain.2.2⟩

/-- Lines that are the same but for one of them. -/
theorem related_respelled {number : Int} {before : List Text} {token token' : Text}
    {l l' : TokenLine} (h : l.Respelled number before token token' l')
    (above below : List ScannedLine) :
    List.Forall₂ (ScannedLine.Related (OrRespelled number before token token') Eq)
      (above ++ .tokens l :: below) (above ++ .tokens l' :: below) := by
  have hrefl (lines : List ScannedLine) :
      List.Forall₂ (ScannedLine.Related (OrRespelled number before token token') Eq)
        lines lines := by
    rw [List.forall₂_same]
    intro line _
    cases line with
    | blank => exact .blank
    | comment c => exact .comment rfl
    | tokens x => exact .tokens (.inl rfl)
  exact List.rel_append (hrefl above) (.cons (.tokens (.inr h)) (hrefl below))

theorem keeps_orRespelled (number : Int) (before : List Text) (token token' : Text) :
    Keeps (OrRespelled number before token token') Eq := by
  constructor
  · rintro l l' (rfl | h)
    · exact TokenLine.sameParens_refl _
    · obtain ⟨after, htexts, htexts'⟩ := h.texts
      refine TokenLine.sameParens_of_plain h.plain.1 h.plain.2 ?_
      have hlength := congrArg List.length htexts
      have hlength' := congrArg List.length htexts'
      simp only [List.length_map, List.length_append, List.length_cons] at hlength hlength'
      omega
  · rintro l l' (rfl | h)
    · rfl
    · rw [h.number.1, h.number.2]
  · rintro l l' (rfl | h)
    · rfl
    · exact h.suffix
  · rintro c c' rfl
    rfl

/-- The line of an entry is the same, or the entry is a requirement and its path has the other
token. -/
theorem restated_of_entryFor {m m' : Manifest} {number : Int} {inBlock : Bool}
    {token token' : Text} {e e' : Entry}
    (h : EntryFor (OrRespelled number (tokensBeforePath inBlock) token token') Eq e e')
    (hsame : SameArgument token token') (hpolicies : SamePolicies m m' e.line e'.line)
    (honly : e.line.start.line = number → e.verb = requireVerb ∧ e.line.inBlock = inBlock) :
    Entry.Restated (KeepsLine m m') e e' := by
  have hrefl (arguments : List Text) : List.Forall₂ SameArgument arguments arguments :=
    List.forall₂_same.2 fun a _ => sameArgument_refl a
  have hgo : requireVerb ≠ Text.ofString "go" := by decide
  cases h with
  | @line l l' above above' lines plain comments =>
    rw [List.forall₂_eq_eq_eq] at comments
    subst comments
    rcases lines with rfl | hl
    · exact ⟨rfl, hrefl _, fun _ => rfl, ⟨hpolicies, fun _ => rfl⟩⟩
    · obtain ⟨hverb, rfl⟩ := honly hl.number.1
      obtain ⟨after, htexts, htexts'⟩ := hl.texts
      obtain ⟨hfirst, hrest⟩ := List.cons.inj htexts
      obtain ⟨hfirst', hrest'⟩ := List.cons.inj htexts'
      dsimp only at hverb
      refine ⟨hfirst'.trans hfirst.symm, ?_, ?_, ⟨hpolicies, ?_⟩⟩
      · rw [hrest, hrest']
        exact .cons hsame (hrefl after)
      · exact fun hverb' => absurd (hverb.symm.trans hverb') hgo
      · exact fun hverb' => absurd (hverb.symm.trans hverb') hgo
  | @child header header' l l' paren above above' headers opens lines plain comments =>
    rw [List.forall₂_eq_eq_eq] at comments
    subst comments
    rcases headers with rfl | hheader
    · rcases lines with rfl | hl
      · exact ⟨rfl, hrefl _, fun _ => rfl, ⟨hpolicies, fun _ => rfl⟩⟩
      · obtain ⟨hverb, rfl⟩ := honly hl.number.1
        obtain ⟨after, htexts, htexts'⟩ := hl.texts
        dsimp only at hverb
        refine ⟨rfl, ?_, ?_, ⟨hpolicies, ?_⟩⟩
        · rw [htexts, htexts']
          exact .cons hsame (hrefl after)
        · exact fun hverb' => absurd (hverb.symm.trans hverb') hgo
        · exact fun hverb' => absurd (hverb.symm.trans hverb') hgo
    · -- an opening line has a parenthesis, and the line of the requirement has none
      have hparen := hheader.plain.1 paren (by simp [TokenLine.tokens, opens.rest])
      rw [Token.isParen_eq_false_iff] at hparen
      exact absurd opens.paren hparen.1

/-- A requirement stands on the line of an entry with the verb of requirements. -/
theorem exists_entry_of_required {statements : List Statement} {d : Declarations}
    (h : declarations statements = .ok d) {r : Requirement} (hr : r ∈ d.requirements) :
    ∃ e ∈ statements.flatMap entriesOf, e.verb = requireVerb ∧ e.line = r.line := by
  have hrelated := related_self_of_declarations
    (P := fun verb l => ∃ e ∈ statements.flatMap entriesOf, e.verb = verb ∧ e.line = l)
    (fun e he => ⟨e, he, rfl, rfl⟩) h
  exact (List.forall₂_same.1 hrelated.requirements r hr).2

/-- Another token for the path of a requirement changes neither what is required nor what is
resolved. -/
theorem exists_read_respelled {name text text' : Text} {m : Manifest}
    (h : read name text = .ok m) (hrespelled : m.Respelled text text') :
    ∃ m', read name text' = .ok m' ∧
      m'.requirements.map Requirement.path = m.requirements.map Requirement.path ∧
      ∀ ns nilPolicy, m'.resolve ns nilPolicy = m.resolve ns nilPolicy := by
  obtain ⟨scanned, statements, d, hscan, hlayout, hd, rfl⟩ := read_eq_ok_iff.1 h
  have hnumbered := numbered_of_scanLines hscan
  cases hrespelled with
  | @intro r above below u token token' v path b required number start apart lines lines' whole
      whole' noParen denotes denotes' =>
    obtain ⟨labove, l, l', lbelow, after, rfl, hscan', hlength, hnumber', htexts, htexts',
      hsuffix⟩ := exists_scanLines_respelled start apart whole whole' (lines ▸ hscan)
    have hnumbered' := numbered_of_scanLines hscan'
    -- the entry of the requirement stands on the line with the other token
    obtain ⟨e, he, hverb, heline⟩ := exists_entry_of_required hd required
    obtain ⟨t, waiting, inBlock, ht, hplain, hline⟩ :=
      exists_tokens_of_mem_entries hlayout hnumbered he
    have hnumber : t.first.start.line = r.line.start.line := by rw [← heline, hline]; rfl
    obtain rfl : t = l := eq_of_number hnumbered ht (by omega)
    have hplain' : l'.Plain := plain_of_noParen htexts htexts' noParen hplain
    have hline' : t.Respelled r.line.start.line (tokensBeforePath r.line.inBlock) token token' l' :=
      ⟨⟨hnumber, by omega⟩, ⟨after, htexts, htexts'⟩, hsuffix, hplain, hplain'⟩
    obtain ⟨statements', hlayout', hentries⟩ := (keeps_orRespelled _ _ _ _).exists_layout hlayout
      (related_respelled hline' labove lbelow) hnumbered hnumbered'
    -- no other entry stands on that line
    have honly : ∀ x ∈ statements.flatMap entriesOf, x.line.start.line = r.line.start.line →
        x.verb = requireVerb ∧ x.line.inBlock = r.line.inBlock := by
      intro x hx hxline
      obtain rfl := eq_of_mem_entries (ordered_of_numbered hlayout hnumbered)
        (wellNested_of_layout hlayout hnumbered) hx he (by rw [hxline, heline])
      exact ⟨hverb, by rw [heline]⟩
    have hsame := sameArgument_of_denotes (isToken_of_tokenTexts whole)
      (isToken_of_tokenTexts whole') denotes denotes'
    have hrestated := forall₂_imp_of_mem (hentries name {} {}) fun x hx x' _ ⟨hfor, hpolicies⟩ =>
      restated_of_entryFor hfor hsame hpolicies (honly x hx)
    obtain ⟨d', hd', hpaths, hresolve⟩ := exists_declarations_of_restated hd hrestated
    exact ⟨_, read_eq_ok_iff.2 ⟨_, _, d', lines' ▸ hscan', hlayout', hd', rfl⟩, hpaths, hresolve⟩

/-- **Every mapping survives being written, read and resolved.** One line is written for each
entry, in any order: it requires the path, as a string, and names the policy in a comment. The
manifest has a requirement of the path on each line, and resolves to the mapping without
overwrites. The paths may hold any code points, except a high surrogate directly before a low
one. And however the path of a requirement is spelled, in any manifest, another token that
stands for the same text does not change what is resolved. -/
theorem paths_survive {ns : Text} (hns : Directive.Writable ns) (nilPolicy name : Text) :
    (∀ (policies : Dictionary Text) (entries : List (Text × Text)) (text : Text),
      (∀ e ∈ entries, Recordable nilPolicy e) → entries.Perm policies.toList →
      text.MadeOf (entries.map (requireLine ns)) →
      ∃ m, read name text = .ok m ∧
        m.requirements.map (fun r => (r.line.start.line, r.path)) =
          entries.mapIdx (fun i e => (1 + (i : Int), e.1)) ∧
        m.resolve ns nilPolicy = .ok ⟨policies, []⟩) ∧
    ∀ (m : Manifest) (text text' : Text), read name text = .ok m → m.Respelled text text' →
      ∃ m', read name text' = .ok m' ∧
        m'.requirements.map Requirement.path = m.requirements.map Requirement.path ∧
        ∀ ns nilPolicy, m'.resolve ns nilPolicy = m.resolve ns nilPolicy :=
  ⟨fun _ _ _ h hperm htext => exists_read_requireLines h hns hperm htext name,
    fun _ _ _ h hrespelled => exists_read_respelled h hrespelled⟩

/-- An empty path and one with a quote, an escape mark, a line end and a code point of two units,
written out of order. Then a path in a block, first as a string with an escape and then bare. -/
theorem paths_survive_sample :
    ∃ (path text : Text) (policies : Dictionary Text) (m m' m'' : Manifest),
      path = Text.ofString "\"\\\u2028😀" ∧
      text = Text.ofString
        "require \"\\\"\\\\\\u2028\\ud83d\\ude00\" v0 // s:b\nrequire \"\" v0 // s:a" ∧
      policies.toList = [([], Text.ofString "a"), (path, Text.ofString "b")] ∧
      (read [] text = .ok m ∧ m.resolve (Text.ofString "s") [] = .ok ⟨policies, []⟩) ∧
      read [] (Text.ofString "require (\n\t\"a\\u0062\" v1 // s:x\n)") = .ok m' ∧
      read [] (Text.ofString "require (\n\tab v1 // s:x\n)") = .ok m'' ∧
      ∀ ns nilPolicy, m''.resolve ns nilPolicy = m'.resolve ns nilPolicy := by
  obtain ⟨path, hpath⟩ : ∃ t, t = Text.ofString "\"\\\u2028😀" := ⟨_, rfl⟩
  obtain ⟨text, htext⟩ : ∃ t, t = Text.ofString
      "require \"\\\"\\\\\\u2028\\ud83d\\ude00\" v0 // s:b\nrequire \"\" v0 // s:a" := ⟨_, rfl⟩
  obtain ⟨policies, hpolicies⟩ : ∃ d : Dictionary Text,
      d.toList = [([], Text.ofString "a"), (path, Text.ofString "b")] := by
    refine ⟨.ofList [([], Text.ofString "a"), (path, Text.ofString "b")], ?_⟩
    rw [hpath]
    decide +kernel
  have hns : Directive.Writable (Text.ofString "s") := ⟨by decide, by decide⟩
  obtain ⟨hwritten, hrespelled⟩ := paths_survive hns [] []
  have hrecordable : ∀ e ∈ [(path, Text.ofString "b"), ([], Text.ofString "a")],
      Recordable [] e := by
    rw [hpath, List.forall_mem_cons, List.forall_mem_singleton]
    exact ⟨⟨Quoted.unpaired_of_noSurrogate (by decide), by decide, by decide, by decide⟩,
      ⟨Quoted.unpaired_of_noSurrogate (by decide), by decide, by decide, by decide⟩⟩
  obtain ⟨m, hm, -, hresolve⟩ := hwritten policies
    [(path, Text.ofString "b"), ([], Text.ofString "a")] text hrecordable
    (hpolicies ▸ List.Perm.swap _ _ _) (.inr (by rw [hpath, htext]; decide +kernel))
  -- the child of the block, and what is read of it
  let l : Line := ⟨⟨2, 2⟩, ⟨2, 14⟩, [Text.ofString "\"a\\u0062\"", Text.ofString "v1"],
    ⟨[], [⟨⟨2, 15⟩, Text.ofString "// s:x"⟩]⟩, true⟩
  have hread : (read [] (Text.ofString "require (\n\t\"a\\u0062\" v1 // s:x\n)")).toOption.map
      Manifest.requirements = some [⟨Text.ofString "ab", Text.ofString "v1", l, false⟩] := by
    decide +kernel
  obtain ⟨m', hm', hrequirements⟩ := Option.map_eq_some_iff.1 hread
  rw [toOption_eq_some_iff] at hm'
  have hwhole : tokenTexts (Text.ofString "\"a\\u0062\"") = [Text.ofString "\"a\\u0062\""] := by
    decide +kernel
  have hwhole' : tokenTexts (Text.ofString "ab") = [Text.ofString "ab"] := by decide +kernel
  have hindent : ∀ c ∈ Text.ofString "\t", c.isBlank = true := by decide
  have hrespelling : m'.Respelled (Text.ofString "require (\n\t\"a\\u0062\" v1 // s:x\n)")
      (Text.ofString "require (\n\tab v1 // s:x\n)") := by
    refine @Respelled.intro _ _ _ ⟨Text.ofString "ab", Text.ofString "v1", l, false⟩
      [Text.ofString "require ("] [Text.ofString ")"] (Text.ofString "\t")
      (Text.ofString "\"a\\u0062\"") (Text.ofString "ab") (Text.ofString "v1 // s:x")
      (Text.ofString "ab") ' ' ?_ rfl (.child hindent) (by decide) (by decide +kernel)
      (by decide +kernel) hwhole hwhole' (by decide)
      ((unquote_eq_ok_iff (p := ⟨1, 1⟩) (isToken_of_tokenTexts hwhole)).1 (by decide +kernel))
      ((unquote_eq_ok_iff (p := ⟨1, 1⟩) (isToken_of_tokenTexts hwhole')).1 (by decide +kernel))
    rw [hrequirements]
    exact List.mem_singleton_self _
  obtain ⟨m'', hm'', -, hsame⟩ := hrespelled m' _ _ hm' hrespelling
  exact ⟨path, text, policies, m, m', m'', hpath, htext, hpolicies, ⟨hm, hresolve⟩, hm', hm'',
    hsame⟩

end ManifestPolicy.Manifest
