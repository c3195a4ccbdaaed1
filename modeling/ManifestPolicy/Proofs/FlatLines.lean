import ManifestPolicy.Proofs.Attachment
import ManifestPolicy.Proofs.Directives
import ManifestPolicy.Proofs.Renumbering

/-!
# Children of blocks as lines

A child of a block of requirements can be written as a line outside blocks, with the verb of
the block. It keeps its own comments, and the policy of the block goes into a comment above
them. The tokens are copied from the text of the child, so that reading the new line gives
the tokens of the child again.

This holds because tokens keep their extent when other text that ends every token follows
them, and because the comments of a text are written as they were read.

## Main definitions

* `Line.flat`, `Block.flat`: the lines that are written for a child and for a block.
* `Line.StandsFor`: what is read from the lines of a child.
* `Written`: a child as it stands in its text.

## Main statements

* `written_of_layout`: the children of a manifest stand in its text.
* `exists_ofText_flat`: the line of a child is read as its tokens after the verb.
* `exists_scanLines_children`: the lines of a block are read as one line for each child.
-/

namespace ManifestPolicy

/-- The verb of requirements. -/
def requireVerb : Text := Text.ofString "require"

/-- The block applies the verb of requirements. -/
def Block.isRequire (b : Block) : Bool := b.tokens.head? = some requireVerb

section

variable (ns : Text) (lineAt : Int → Text)

/-- The tokens of a line as they are written, from the first to the last. -/
def Line.source (l : Line) : Text :=
  ((lineAt l.start.line).drop (l.start.column - 1).toNat).take
    (l.stop.column - l.start.column).toNat

/-- A child as a line outside blocks, with a policy for it above its own comments. -/
def Line.flat (policy : Option Text) (l : Line) : List Text :=
  policy.toList.map (Directive.written ns) ++
    (l.comments.before.map Comment.text ++
      [requireVerb ++ (' ' : CodePoint) :: (l.source lineAt ++
        l.comments.suffix.flatMap fun c => (' ' : CodePoint) :: c.text)])

/-- The children of a block as lines outside blocks. -/
def Block.flat (b : Block) : List Text :=
  b.lines.flatMap (Line.flat ns lineAt (b.policy? ns))

end

/-- The line `l'` outside blocks says the same as the child `l` of a block with a policy. -/
structure Line.StandsFor (ns : Text) (policy : Option Text) (l l' : Line) : Prop where
  tokens : l'.tokens = requireVerb :: l.tokens
  before : l'.comments.before.map Comment.text =
    policy.toList.map (Directive.written ns) ++ l.comments.before.map Comment.text
  suffix : l'.comments.suffix.map Comment.text = l.comments.suffix.map Comment.text
  outside : l'.inBlock = false

/-- What a block names can be written as a directive. -/
theorem Block.exists_of_policy? {ns : Text} {b : Block} :
    ∀ p ∈ b.policy? ns, p ≠ [] ∧ ∀ c ∈ p, c.isBlank = false := by
  intro p hp
  obtain ⟨c, above, below, -, hc, -⟩ := Block.policy?_eq_some_iff.1 hp
  exact ⟨(Directive.exists_of_policy? hc).1, Directive.not_isBlank_of_policy? hc⟩

namespace Manifest

/-- The lines are what is read from line `number` of a text on. -/
inductive ReadFrom (lineAt : Int → Text) : Int → List ScannedLine → Prop
  | nil (number : Int) : ReadFrom lineAt number []
  | cons {number : Int} {line : ScannedLine} {lines : List ScannedLine}
      (oneLine : (lineAt number).OneLine)
      (first : ScannedLine.ofText number (lineAt number) = .ok line)
      (rest : ReadFrom lineAt (number + 1) lines) : ReadFrom lineAt number (line :: lines)

theorem ReadFrom.append {lineAt : Int → Text} {number : Int} {l₁ l₂ : List ScannedLine}
    (h : ReadFrom lineAt number (l₁ ++ l₂)) :
    ReadFrom lineAt number l₁ ∧ ReadFrom lineAt (number + l₁.length) l₂ := by
  induction l₁ generalizing number with
  | nil =>
    rw [List.length_nil, Int.natCast_zero, Int.add_zero]
    exact ⟨.nil number, h⟩
  | cons line l₁ ih =>
    rw [add_length_cons]
    cases h with
    | cons oneLine first rest =>
      obtain ⟨h₁, h₂⟩ := ih rest
      exact ⟨.cons oneLine first h₁, h₂⟩

/-- A child as it stands on a line of the text. -/
structure Written (lineAt : Int → Text) (l : Line) : Prop where
  scanned : ∃ number line, ScannedLine.ofText number (lineAt number) = .ok (.tokens line) ∧
    line.Plain ∧ l = line.toLine l.comments.before true ∧ (lineAt number).OneLine
  before : ∀ c ∈ l.comments.before, IsCommentText c.text

/-- What is read as the comment of a line is the text of a comment. -/
theorem isCommentText_of_ofText {number : Int} {t : Text} {line : ScannedLine} {c : Comment}
    (h : ScannedLine.ofText number t = .ok line) (ht : t.OneLine)
    (hc : line.comment? = some c) : IsCommentText c.text := by
  obtain ⟨tokens, comment, hscan, rfl⟩ := ofText_eq_ok_iff.1 h
  obtain ⟨ps, gap, remark, rfl, -, -, hremark, -, hcomment⟩ := exists_spell_of_scanFrom hscan
  rw [comment?_ofParts, hcomment] at hc
  rcases hremark with rfl | hmarker
  · simp [remarkAt] at hc
  · have hsubset : remark.OneLine := by
      rw [spell_append_tail] at ht
      refine ht.of_subset fun d hd => ?_
      exact List.mem_append_right _ hd
    cases remark with
    | nil => simp [remarkAt] at hc
    | cons d remark =>
      rw [remarkAt, Option.some.injEq] at hc
      rw [← hc]
      exact isCommentText_trimEnd hmarker hsubset

theorem written_of_body {lineAt : Int → Text} {waiting left : List Comment}
    {body : List ScannedLine} {children : List Line} (h : Body waiting body children left)
    {number : Int} (hread : ReadFrom lineAt number body)
    (hwaiting : ∀ c ∈ waiting, IsCommentText c.text) : ∀ l ∈ children, Written lineAt l := by
  induction h generalizing number with
  | done => simp
  | blank _ ih =>
    cases hread with
    | cons _ _ rest => exact ih rest hwaiting
  | comment c _ ih =>
    cases hread with
    | cons oneLine first rest =>
      refine ih rest fun d hd => ?_
      rcases List.mem_append.1 hd with hd | hd
      · exact hwaiting d hd
      · rw [List.mem_singleton.1 hd]
        exact isCommentText_of_ofText first oneLine rfl
  | child l plain _ ih =>
    cases hread with
    | cons oneLine first rest =>
      have hchild : Written lineAt (l.toLine _ true) :=
        ⟨⟨number, l, first, plain, rfl, oneLine⟩, hwaiting⟩
      exact List.forall_mem_cons.2 ⟨hchild, ih rest (by simp)⟩

theorem block_not_mem_standalone (waiting : List Comment) (b : Block) :
    .block b ∉ standalone waiting := by
  intro h
  obtain ⟨r, hr⟩ := exists_run_of_mem_standalone h
  simp at hr

/-- The children of all blocks stand in the text as they were read. -/
theorem written_of_layout {lineAt : Int → Text} {waiting : List Comment}
    {lines : List ScannedLine} {statements : List Statement}
    (h : Layout waiting lines statements) {number : Int} (hread : ReadFrom lineAt number lines) :
    ∀ b, .block b ∈ statements → ∀ l ∈ b.lines, Written lineAt l := by
  induction h generalizing number with
  | done waiting =>
    intro b hb
    exact absurd hb (block_not_mem_standalone waiting b)
  | blank waiting _ ih =>
    cases hread with
    | cons _ _ rest =>
      intro b hb
      rcases List.mem_append.1 hb with hb | hb
      · exact absurd hb (block_not_mem_standalone waiting b)
      · exact ih rest b hb
  | comment c _ ih =>
    cases hread with
    | cons _ _ rest => exact ih rest
  | line waiting l _ _ ih =>
    cases hread with
    | cons _ _ rest =>
      intro b hb
      exact ih rest b (by simpa using hb)
  | emptyBlock waiting l _ _ ih =>
    cases hread with
    | cons _ _ rest =>
      intro b hb
      rcases List.mem_cons.1 hb with hb | hb
      · rw [Statement.block.injEq] at hb
        simp [hb, TokenLine.toEmptyBlock]
      · exact ih rest b hb
  | block waiting l _ inside closing _ _ ih =>
    cases hread with
    | cons _ _ rest =>
      obtain ⟨hbody, hrest⟩ := rest.append
      intro b hb
      rcases List.mem_cons.1 hb with hb | hb
      · rw [Statement.block.injEq] at hb
        rw [hb]
        exact written_of_body inside hbody (by simp)
      · cases hrest with
        | cons _ _ hrest => exact ih hrest b hb

/-- Some tokens end where their pieces do. -/
theorem stop_getLastD_tokensAt (number : Int) {column : Int} (ps : List Piece) {before : Token}
    (h : before.stop.column = column) :
    ((tokensAt number column ps).getLastD before).stop.column = column + width ps := by
  induction ps generalizing column before with
  | nil =>
    rw [tokensAt, List.getLastD_nil, h, width]
    exact (Int.add_zero column).symm
  | cons p ps ih =>
    rw [tokensAt, List.getLastD_cons, width]
    refine Eq.trans (ih ?_) ?_
    · rfl
    · omega

theorem take_drop_spell (p : Piece) (ps : List Piece) (tail : Text) :
    ((spell (p :: ps) tail).drop p.gap.length).take (p.token.length + width ps) =
      spell (⟨[], p.token⟩ :: ps) [] := by
  have htail : spell ps tail = spell ps [] ++ tail := spell_append_tail ps [] tail
  have hlen : p.token.length + width ps = (p.token ++ spell ps []).length := by
    rw [List.length_append, length_spell, List.length_nil, Nat.add_zero]
  rw [spell, List.drop_left, htail, ← List.append_assoc, hlen, List.take_left]
  rfl

/-- What is written after the tokens of a child: its comment, if it has one. -/
def afterTokens (suffix : List Comment) : Text :=
  suffix.flatMap fun c => (' ' : CodePoint) :: c.text

theorem remarkAt_of_marker (number column : Int) {t : Text}
    (h : Text.startsWith commentMarker t = true) :
    remarkAt number column t = some ⟨⟨number, column⟩, Text.trimEnd t⟩ := by
  obtain ⟨rest, rfl⟩ := startsWith_commentMarker_iff.1 h
  rfl

/-- A comment is read again after a blank, and every token ends before it. -/
theorem exists_afterTokens {remark : Text} (h : IsRemark remark) (number column : Int) :
    ∃ gap remark', afterTokens (remarkAt number column remark).toList = gap ++ remark' ∧
      Blanks gap ∧ IsRemark remark' ∧ Breaks (gap ++ remark') ∧
      ∀ n k, (remarkAt n k remark').toList.map Comment.text =
        (remarkAt number column remark).toList.map Comment.text := by
  rcases h with rfl | h
  · exact ⟨[], [], rfl, by simp [Blanks], .inl rfl, breaks_nil, fun n k => rfl⟩
  · have hblank : CodePoint.isBlank ' ' = true := by decide
    have htrim := startsWith_trimEnd h
    rw [remarkAt_of_marker number column h]
    refine ⟨[(' ' : CodePoint)], Text.trimEnd remark, ?_, ?_, .inr htrim, ?_, fun n k => ?_⟩
    · simp [afterTokens]
    · intro c hc
      rw [List.mem_singleton.1 hc]
      exact hblank
    · exact breaks_of_blank hblank _
    · rw [remarkAt_of_marker n k htrim, Text.trimEnd_trimEnd]
      rfl

theorem cuts_requireVerb {t : Text} (h : Breaks t) : Cuts requireVerb t := by
  have halone : Cuts requireVerb [] := ⟨⟨_, _, rfl, by decide⟩, by decide, by decide⟩
  exact halone.of_breaks h

/-- The verb and the tokens of a child are no parentheses. -/
theorem plain_of_map_text {l l' : TokenLine} (plain : l.Plain)
    (h : l'.tokens.map Token.text = requireVerb :: l.tokens.map Token.text) : l'.Plain := by
  intro t ht
  have hmem : t.text ∈ requireVerb :: l.tokens.map Token.text := by
    rw [← h]
    exact List.mem_map_of_mem ht
  rw [Token.isParen_eq_false_iff]
  rcases List.mem_cons.1 hmem with hverb | hmem
  · rw [hverb]
    decide
  · obtain ⟨u, hu, htext⟩ := List.mem_map.1 hmem
    rw [← htext]
    exact Token.isParen_eq_false_iff.1 (plain u hu)

/-- The source of a child is the spelling of its tokens, from the first one on. -/
theorem source_toLine {lineAt : Int → Text} {number : Int} {l : TokenLine} {p : Piece}
    {ps : List Piece} {tail : Text} (hline : lineAt number = spell (p :: ps) tail)
    (htokens : l.tokens = tokensAt number 1 (p :: ps)) (above : List Comment) :
    (l.toLine above true).source lineAt = spell (⟨[], p.token⟩ :: ps) [] := by
  rw [TokenLine.tokens, tokensAt] at htokens
  obtain ⟨hfirst, hrest⟩ := List.cons.inj htokens
  have hlast : l.last.stop.column = 1 + p.gap.length + p.token.length + width ps := by
    rw [TokenLine.last, hrest]
    apply stop_getLastD_tokensAt
    rw [hfirst]
  have hdrop : (1 + (p.gap.length : Int) - 1).toNat = p.gap.length := by omega
  have htake : (1 + (p.gap.length : Int) + p.token.length + width ps -
      (1 + (p.gap.length : Int))).toNat = p.token.length + width ps := by omega
  rw [Line.source, TokenLine.toLine, hlast, hfirst, hline, hdrop, htake, take_drop_spell]

/-- The line of a child is read as the verb and the tokens of the child, with its comment. -/
theorem exists_ofText_flat {lineAt : Int → Text} {number : Int} {l : TokenLine}
    (h : ScannedLine.ofText number (lineAt number) = .ok (.tokens l)) (plain : l.Plain)
    (above : List Comment) (n : Int) :
    ∃ l' : TokenLine, ScannedLine.ofText n (requireVerb ++ (' ' : CodePoint) ::
        ((l.toLine above true).source lineAt ++ afterTokens l.suffix)) = .ok (.tokens l') ∧
      l'.Plain ∧ l'.tokens.map Token.text = requireVerb :: l.tokens.map Token.text ∧
      l'.suffix.map Comment.text = l.suffix.map Comment.text := by
  obtain ⟨tokens, comment, hscan, hparts⟩ := ofText_eq_ok_iff.1 h
  obtain ⟨ps, gap, remark, ht, hspelled, hgap, hremark, rfl, rfl⟩ :=
    exists_spell_of_scanFrom hscan
  cases ps with
  | nil =>
    -- a line without pieces has no tokens
    cases remark with
    | nil => simp [tokensAt, remarkAt, ScannedLine.ofParts] at hparts
    | cons c remark => simp [tokensAt, remarkAt, ScannedLine.ofParts] at hparts
  | cons p ps =>
    rw [tokensAt, ScannedLine.ofParts, ScannedLine.tokens.injEq] at hparts
    have htokens : l.tokens = tokensAt number 1 (p :: ps) := by
      rw [hparts]
      rfl
    have hsuffix : l.suffix =
        (remarkAt number (1 + width (p :: ps) + gap.length) remark).toList := by
      rw [hparts, TokenLine.suffix]
    obtain ⟨gap', remark', hafter, hgap', hremark', hbreaks, htexts⟩ :=
      exists_afterTokens hremark number (1 + width (p :: ps) + gap.length)
    -- the pieces of the new line: the verb, and those of the child after one blank
    let qs : List Piece := ⟨[], requireVerb⟩ :: ⟨[(' ' : CodePoint)], p.token⟩ :: ps
    have hqs : Spelled qs (gap' ++ remark') := by
      obtain ⟨-, hcuts, hrest⟩ := hspelled.of_breaks hbreaks
      refine ⟨by simp [Blanks], cuts_requireVerb (breaks_of_blank (by decide) _), ?_, hcuts, hrest⟩
      intro c hc
      rw [List.mem_singleton.1 hc]
      decide
    have hline : requireVerb ++ (' ' : CodePoint) ::
        ((l.toLine above true).source lineAt ++ afterTokens l.suffix) =
          spell qs (gap' ++ remark') := by
      rw [source_toLine ht htokens, hsuffix, hafter, ← spell_append_tail]
      rfl
    have hnew : (tokensAt n 1 qs).map Token.text = requireVerb :: l.tokens.map Token.text := by
      rw [htokens, map_text_tokensAt, map_text_tokensAt]
      rfl
    have hscanned := scanFrom_spell_remark hqs hgap' hremark' n 1
    rw [hline, hsuffix, ← htexts n (1 + width qs + gap'.length)]
    exact ⟨_, ofText_eq_ok_iff.2 ⟨_, _, hscanned, rfl⟩, plain_of_map_text plain hnew, hnew, rfl⟩

/-- The texts of comments are read as these comments. -/
theorem exists_scanLines_comments {texts : List Text} (h : ∀ t ∈ texts, IsCommentText t)
    (n : Int) :
    ∃ cs : List Comment, scanLines n texts = .ok (cs.map ScannedLine.comment) ∧
      cs.map Comment.text = texts := by
  induction texts generalizing n with
  | nil => exact ⟨[], rfl, rfl⟩
  | cons t texts ih =>
    have ht := h t List.mem_cons_self
    obtain ⟨cs, hscan, htexts⟩ := ih (fun u hu => h u (List.mem_cons_of_mem _ hu)) (n + 1)
    refine ⟨⟨⟨n, 1⟩, t⟩ :: cs, scanLines_cons_eq_ok_iff.2 ⟨_, _, ?_, hscan, rfl⟩, ?_⟩
    · refine ofText_eq_ok_iff.2 ⟨_, _, scanFrom_remark n 1 (.inr ht.marker), ?_⟩
      rw [remarkAt_of_marker n 1 ht.marker, ht.trimmed]
      rfl
    · rw [List.map_cons, htexts]

/-- Whole-line comments wait for what is below them. -/
theorem Layout.comments {waiting cs : List Comment} {lines : List ScannedLine}
    {statements : List Statement} (h : Layout (waiting ++ cs) lines statements) :
    Layout waiting (cs.map ScannedLine.comment ++ lines) statements := by
  induction cs generalizing waiting with
  | nil =>
    rw [List.append_nil] at h
    exact h
  | cons c cs ih =>
    rw [List.append_cons] at h
    exact .comment c (ih h)

section

variable {ns : Text} {lineAt : Int → Text}

theorem oneLine_flat {policy : Option Text} {l : Line} (hl : Written lineAt l)
    (hpolicy : ∀ p ∈ policy, IsCommentText (Directive.written ns p)) :
    ∀ t ∈ l.flat ns lineAt policy, t.OneLine := by
  obtain ⟨number, line, hline, -, htoLine, honeLine⟩ := hl.scanned
  have hstart : l.start.line = number := by
    rw [htoLine]
    exact (on_ofText hline).first.1
  have hsource : (l.source lineAt).OneLine := by
    rw [Line.source, hstart]
    exact honeLine.of_subset fun c hc => List.mem_of_mem_drop (List.mem_of_mem_take hc)
  have hsuffix : ∀ c ∈ l.comments.suffix, c.text.OneLine := by
    intro c hc
    rw [htoLine] at hc
    exact (isCommentText_of_ofText hline honeLine (Option.mem_toList.1 hc)).oneLine
  intro t ht
  rw [Line.flat, List.mem_append, List.mem_append, List.mem_map, List.mem_map,
    List.mem_singleton] at ht
  rcases ht with ⟨p, hp, rfl⟩ | ⟨c, hc, rfl⟩ | rfl
  · exact (hpolicy p (Option.mem_toList.1 hp)).oneLine
  · exact (hl.before c hc).oneLine
  · have hblank : Text.OneLine [(' ' : CodePoint)] := by decide
    have hverb : Text.OneLine requireVerb := by decide
    refine hverb.append (hblank.append (hsource.append fun c hc => ?_))
    obtain ⟨d, hd, hc⟩ := List.mem_flatMap.1 hc
    exact hblank.append (hsuffix d hd) c hc

/-- One child is read as one line. -/
theorem exists_scanLines_flat {policy : Option Text} {l : Line} (hl : Written lineAt l)
    (hpolicy : ∀ p ∈ policy, IsCommentText (Directive.written ns p)) (n : Int) :
    ∃ (cs : List Comment) (l' : TokenLine), scanLines n (l.flat ns lineAt policy) =
        .ok (cs.map ScannedLine.comment ++ [.tokens l']) ∧
      l'.Plain ∧ l.StandsFor ns policy (l'.toLine cs false) := by
  obtain ⟨number, line, hline, plain, htoLine, -⟩ := hl.scanned
  have htexts :
      ∀ t ∈ policy.toList.map (Directive.written ns) ++ l.comments.before.map Comment.text,
        IsCommentText t := by
    intro t ht
    rcases List.mem_append.1 ht with ht | ht
    · obtain ⟨p, hp, rfl⟩ := List.mem_map.1 ht
      exact hpolicy p (Option.mem_toList.1 hp)
    · obtain ⟨c, hc, rfl⟩ := List.mem_map.1 ht
      exact hl.before c hc
  obtain ⟨cs, hcs, hbefore⟩ := exists_scanLines_comments htexts n
  obtain ⟨l', hl', hplain, htokens, hsuffix⟩ :=
    exists_ofText_flat hline plain l.comments.before (n + cs.length)
  rw [← htoLine] at hl'
  have hline_suffix : l.comments.suffix = line.suffix := by
    rw [htoLine]
    rfl
  have hline_tokens : l.tokens = line.tokens.map Token.text := by
    rw [htoLine]
    rfl
  refine ⟨cs, l', ?_, hplain, ?_, hbefore, ?_, rfl⟩
  · have hlen := congrArg List.length hbefore
    rw [List.length_map] at hlen
    rw [Line.flat, ← List.append_assoc, hline_suffix]
    refine scanLines_append_eq_ok_iff.2 ⟨_, _, hcs, ?_, rfl⟩
    rw [← hlen]
    exact scanLines_cons_eq_ok_iff.2 ⟨_, _, hl', rfl, rfl⟩
  · rw [hline_tokens]
    exact htokens
  · rw [hline_suffix]
    exact hsuffix

/-- The children of a block are read as one line each. -/
theorem exists_scanLines_children {policy : Option Text} {children : List Line}
    (hchildren : ∀ l ∈ children, Written lineAt l)
    (hpolicy : ∀ p ∈ policy, IsCommentText (Directive.written ns p)) (n : Int) :
    ∃ lines flat, scanLines n (children.flatMap (Line.flat ns lineAt policy)) = .ok lines ∧
      List.Forall₂ (Line.StandsFor ns policy) children flat ∧
      ∀ rest statements, Layout [] rest statements →
        Layout [] (lines ++ rest) (flat.map Statement.line ++ statements) := by
  induction children generalizing n with
  | nil => exact ⟨[], [], rfl, .nil, fun rest statements h => h⟩
  | cons l children ih =>
    obtain ⟨cs, l', hl', hplain, hstands⟩ :=
      exists_scanLines_flat (hchildren l List.mem_cons_self) hpolicy n
    obtain ⟨lines, flat, hlines, hflat, hlayout⟩ :=
      ih (fun k hk => hchildren k (List.mem_cons_of_mem _ hk))
        (n + (l.flat ns lineAt policy).length)
    refine ⟨_, l'.toLine cs false :: flat,
      scanLines_append_eq_ok_iff.2 ⟨_, _, hl', hlines, rfl⟩, .cons hstands hflat, ?_⟩
    intro rest statements h
    rw [List.append_assoc, List.append_assoc]
    exact Layout.comments (.line _ l' hplain (hlayout rest statements h))

theorem isCommentText_written_of_block {b : Block} (hns : Directive.Writable ns) :
    ∀ p ∈ b.policy? ns, IsCommentText (Directive.written ns p) := by
  intro p hp
  obtain ⟨hne, hblank⟩ := Block.exists_of_policy? p hp
  exact Directive.isCommentText_written hns hne hblank

end

end Manifest

end ManifestPolicy
