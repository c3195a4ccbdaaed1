import ManifestPolicy.Proofs.RelatedLayouts
import ManifestPolicy.Proofs.RequireBlocks
import Mathlib.Data.List.Nodup
import Mathlib.Data.List.Perm.Basic

/-!
# Comments that never count

Only the comments of three places can change a resolution: those of the lines that declare
something, and those of the opening lines of blocks of requirements. Two texts that have the
same tokens on every line, and comments at the same places, resolve to the same if their
comments differ only elsewhere.

What the texts have in common is enough for both to be read as the same statements, up to the
texts of comments and the columns of tokens. The comments that count are then the same, since a
comment is known by its line. So each entry has the same policy in both, and so has each
requirement.

## Main definitions

* `Statement.deciding`, `Statement.outlying`: the comments that can count, and the others.
* `Line.Alike`, `Block.Alike`, `Statement.Alike`: the same up to what comments say.
* `SameTokens`: two lines with the same tokens and a comment at the same column.

## Main statements

* `alike_of_scanLines`, `alike_of_statementsFor`: such lines are read alike.
* `not_mem_outlying_of_deciding`: no comment is in both kinds of places.
* `resolve_eq_of_sameCount`: what a resolution depends on.
* `resolve_outlying`: comments in other places never count.
-/

namespace ManifestPolicy

/-! ## The places of comments -/

/-- Whether the entries with a verb are kept. -/
def keepsEntries (verb : Text) : Bool :=
  verb = Text.ofString "module" || verb = Text.ofString "go" || verb = requireVerb

/-- Whether the opening line of a block stands above requirements. -/
def Block.heads (b : Block) : Bool := b.isRequire && !b.lines.isEmpty

/-- The comments that can change a resolution: those of the lines that declare a module, a
language version or a requirement, and those of the opening lines above requirements. -/
def Statement.deciding : Statement → List Comment
  | .line l => if l.tokens.head?.any keepsEntries then l.comments.all else []
  | .block b =>
    (if b.heads then b.comments.all else []) ++
      if b.tokens.head?.any keepsEntries then b.lines.flatMap fun l => l.comments.all else []
  | .comments _ => []

/-- The other comments: those that annotate nothing; those of a closing line, and those
above it that no line of the block follows; and those of statements, opening lines and
children with any other verb. The opening line of a block that is none of requirements
counts among them whatever its verb, and so does that of a block without lines. -/
def Statement.outlying : Statement → List Comment
  | .line l => if l.tokens.head?.any keepsEntries then [] else l.comments.all
  | .block b =>
    (if b.heads then [] else b.comments.all) ++
      ((if b.tokens.head?.any keepsEntries then [] else
        b.lines.flatMap fun l => l.comments.all) ++ b.closing.all)
  | .comments r => r.comments.all

theorem Comments.map_snd_placed (part : Part) (line : Int) (c : Comments) :
    (c.placed part line).map Prod.snd = c.all := by
  simp [Comments.placed, Comments.all, Function.comp_def]

/-- Every comment of a statement is of one of the two kinds. -/
theorem Statement.deciding_append_outlying (s : Statement) :
    (s.deciding ++ s.outlying).Perm s.allComments := by
  cases s with
  | line l =>
    rw [deciding, outlying, allComments, placed, Comments.map_snd_placed]
    split
    · rw [List.append_nil]
    · rfl
  | comments r =>
    rw [deciding, outlying, allComments, placed, Comments.map_snd_placed]
    rfl
  | block b =>
    have hall : (Statement.block b).allComments =
        b.comments.all ++ (b.lines.flatMap (fun l => l.comments.all) ++ b.closing.all) := by
      rw [allComments, placed, List.map_append, List.map_append, List.map_flatMap,
        Comments.map_snd_placed, Comments.map_snd_placed]
      simp only [Comments.map_snd_placed]
    rw [deciding, outlying, hall]
    by_cases hheads : b.heads = true
    · by_cases hkeeps : b.tokens.head?.any keepsEntries = true
      · simp [hheads, hkeeps]
      · simp [hheads, hkeeps]
    · by_cases hkeeps : b.tokens.head?.any keepsEntries = true
      · rw [if_neg hheads, if_neg hheads, if_pos hkeeps, if_pos hkeeps]
        exact List.perm_append_comm_assoc _ _ _
      · simp [hheads, hkeeps]

theorem Block.heads_iff {b : Block} : b.heads = true ↔ b.isRequire = true ∧ b.lines ≠ [] := by
  simp [Block.heads]

theorem mem_deciding_of_header {b : Block} (hheads : b.heads = true) {c : Comment}
    (hc : c ∈ b.comments.all) : c ∈ (Statement.block b).deciding := by
  rw [Statement.deciding, if_pos hheads]
  exact List.mem_append_left _ hc

theorem mem_deciding_of_child {b : Block} (hkeeps : b.tokens.head?.any keepsEntries = true)
    {l : Line} (hl : l ∈ b.lines) {c : Comment} (hc : c ∈ l.comments.all) :
    c ∈ (Statement.block b).deciding := by
  rw [Statement.deciding, if_pos hkeeps]
  exact List.mem_append_right _ (List.mem_flatMap.2 ⟨l, hl, hc⟩)

/-- Comments at the same place. -/
def Comment.SamePlace (c c' : Comment) : Prop := c'.start = c.start

/-- Comments at the same places, one by one. -/
structure Comments.Alike (c c' : Comments) : Prop where
  before : List.Forall₂ Comment.SamePlace c.before c'.before
  suffix : List.Forall₂ Comment.SamePlace c.suffix c'.suffix

/-- Lines with the same number and tokens, and comments at the same places. -/
structure Line.Alike (l l' : Line) : Prop where
  start : l'.start.line = l.start.line
  tokens : l'.tokens = l.tokens
  comments : l.comments.Alike l'.comments

/-- Blocks with the same verb and alike lines. -/
structure Block.Alike (b b' : Block) : Prop where
  tokens : b'.tokens = b.tokens
  lines : List.Forall₂ Line.Alike b.lines b'.lines
  comments : b.comments.Alike b'.comments

/-- Statements that are alike. Of comments that annotate nothing only the kind matters. -/
inductive Statement.Alike : Statement → Statement → Prop
  | line {l l' : Line} (alike : l.Alike l') : Alike (.line l) (.line l')
  | block {b b' : Block} (alike : b.Alike b') : Alike (.block b) (.block b')
  | comments (r r' : CommentRun) : Alike (.comments r) (.comments r')

theorem forall₂_imp_of_mem {α β : Type} {p q : α → β → Prop} {l : List α} {l' : List β}
    (h : List.Forall₂ p l l') (himp : ∀ a ∈ l, ∀ b ∈ l', p a b → q a b) :
    List.Forall₂ q l l' := by
  induction h with
  | nil => exact .nil
  | cons hab _ ih =>
    refine .cons (himp _ List.mem_cons_self _ List.mem_cons_self hab) (ih fun a ha b hb => ?_)
    exact himp a (List.mem_cons_of_mem _ ha) b (List.mem_cons_of_mem _ hb)

/-- Comments at the same places are the same where a place has one comment only. -/
theorem Comments.Alike.all_eq {c c' : Comments} (h : c.Alike c')
    (hsame : ∀ d ∈ c.all, ∀ d' ∈ c'.all, d'.start = d.start → d' = d) : c'.all = c.all := by
  have hall : List.Forall₂ Comment.SamePlace c.all c'.all := List.rel_append h.before h.suffix
  have heq : List.Forall₂ (fun d d' => d = d') c.all c'.all :=
    forall₂_imp_of_mem hall fun d hd d' hd' hplace => (hsame d hd d' hd' hplace).symm
  rw [List.forall₂_eq_eq_eq] at heq
  exact heq.symm

namespace Manifest

/-! ## Alike lines are read alike -/

/-- Lines of texts with the same tokens, and a comment at the same column. -/
structure SameTokens (t t' : Text) : Prop where
  tokens : tokenTexts t' = tokenTexts t
  marker : markerOffset? .outside t' = markerOffset? .outside t

instance (t t' : Text) : Decidable (SameTokens t t') :=
  decidable_of_iff (tokenTexts t' = tokenTexts t ∧
      markerOffset? .outside t' = markerOffset? .outside t)
    ⟨fun h => ⟨h.1, h.2⟩, fun h => ⟨h.1, h.2⟩⟩

/-- Lines with tokens in the same row, and comments at the same place. -/
structure TokenLine.Alike (l l' : TokenLine) : Prop where
  row : l'.row = l.row
  suffix : List.Forall₂ Comment.SamePlace l.suffix l'.suffix

section

variable {l l' : TokenLine}

theorem TokenLine.Alike.texts (h : l.Alike l') :
    l'.tokens.map Token.text = l.tokens.map Token.text := congrArg Row.tokens h.row

theorem TokenLine.Alike.number (h : l.Alike l') : l'.first.start.line = l.first.start.line :=
  congrArg Row.number h.row

theorem TokenLine.Alike.first (h : l.Alike l') : l'.first.text = l.first.text := by
  have htexts := h.texts
  rw [tokens, tokens, List.map_cons, List.map_cons] at htexts
  exact (List.cons.inj htexts).1

theorem TokenLine.Alike.sameParens (h : l.Alike l') : l.SameParens l' :=
  TokenLine.sameParens_of_texts h.texts

/-- Alike lines form alike statements and children. -/
theorem TokenLine.Alike.toLine (h : l.Alike l') {waiting waiting' : List Comment}
    (hw : List.Forall₂ Comment.SamePlace waiting waiting') (inBlock : Bool) :
    (l.toLine waiting inBlock).Alike (l'.toLine waiting' inBlock) :=
  ⟨h.number, h.texts, hw, h.suffix⟩

end

/-- Statements that stand for alike lines are alike. -/
theorem alike_of_statementsFor {s s' : Statement}
    (h : StatementsFor TokenLine.Alike Comment.SamePlace s s') : s.Alike s' := by
  cases h with
  | comments => exact .comments _ _
  | line lines =>
    cases lines with
    | intro lines _ comments => exact .line (lines.toLine comments false)
  | emptyBlock headers _ _ comments =>
    exact .block ⟨congrArg List.singleton headers.first, .nil, comments, headers.suffix⟩
  | block headers _ _ comments _ lines =>
    refine .block ⟨congrArg List.singleton headers.first, lines.imp fun c c' hc => ?_, comments,
      headers.suffix⟩
    cases hc with
    | intro lines _ comments => exact lines.toLine comments true

/-- Lines with the same tokens and a comment at the same column are alike. -/
theorem alike_of_ofText {number : Int} {t t' : Text} {line line' : ScannedLine}
    (h : SameTokens t t') (hline : ScannedLine.ofText number t = .ok line)
    (hline' : ScannedLine.ofText number t' = .ok line') :
    ScannedLine.Related TokenLine.Alike Comment.SamePlace line line' := by
  have hrow : line'.row? = line.row? := by
    rw [row?_of_ofText hline, row?_of_ofText hline', h.tokens]
  have hcomment : List.Forall₂ Comment.SamePlace line.comment?.toList line'.comment?.toList := by
    rw [comment?_of_ofText hline, comment?_of_ofText hline', physicalComment?, physicalComment?,
      h.marker]
    cases markerOffset? .outside t with
    | none => exact .nil
    | some k => exact .cons rfl .nil
  cases line with
  | blank =>
    cases line' with
    | blank => exact .blank
    | comment c' => cases hcomment
    | tokens l' => simp [ScannedLine.row?] at hrow
  | comment c =>
    cases line' with
    | blank => cases hcomment
    | comment c' =>
      cases hcomment with
      | cons place _ => exact .comment place
    | tokens l' => simp [ScannedLine.row?] at hrow
  | tokens l =>
    cases line' with
    | blank => simp [ScannedLine.row?] at hrow
    | comment c' => simp [ScannedLine.row?] at hrow
    | tokens l' => exact .tokens ⟨Option.some.inj hrow, hcomment⟩

theorem alike_of_scanLines {number : Int} {texts texts' : List Text}
    {lines lines' : List ScannedLine} (h : List.Forall₂ SameTokens texts texts')
    (hlines : scanLines number texts = .ok lines)
    (hlines' : scanLines number texts' = .ok lines') :
    List.Forall₂ (ScannedLine.Related TokenLine.Alike Comment.SamePlace) lines lines' := by
  induction h generalizing number lines lines' with
  | nil =>
    rw [scanLines, Except.ok.injEq] at hlines hlines'
    rw [← hlines, ← hlines']
    exact .nil
  | cons ht _ ih =>
    obtain ⟨line, more, hline, hmore, rfl⟩ := scanLines_cons_eq_ok_iff.1 hlines
    obtain ⟨line', more', hline', hmore', rfl⟩ := scanLines_cons_eq_ok_iff.1 hlines'
    exact .cons (alike_of_ofText ht hline hline') (ih hmore hmore')

/-- What the lines of a statement take from a block. -/
def Statement.Gives (ns : Text) (policyOf : Line → Option Text) : Statement → Prop
  | .line l => policyOf l = none
  | .block b => ∀ l ∈ b.lines, policyOf l = b.policy? ns
  | .comments _ => True

/-- Lines of entries that count for the same. -/
structure CountsFor (policyOf policyOf' : Line → Option Text) (verb : Text) (l l' : Line) :
    Prop where
  start : l'.start.line = l.start.line
  comments : keepsEntries verb = true → l'.comments.all = l.comments.all
  block : verb = requireVerb → policyOf' l' = policyOf l

/-- Comments that count stand at the same places only where they are the same. -/
def SameDeciding (s s' : Statement) : Prop :=
  ∀ c ∈ s.deciding, ∀ c' ∈ s'.deciding, c'.start = c.start → c' = c

/-- Alike statements with the same comments that count have entries that count for the
same. -/
theorem related_entriesOf {ns : Text} {policyOf policyOf' : Line → Option Text}
    {s s' : Statement} (h : s.Alike s') (hsame : SameDeciding s s')
    (hgives : Statement.Gives ns policyOf s) (hgives' : Statement.Gives ns policyOf' s') :
    List.Forall₂ (Entry.Related (CountsFor policyOf policyOf')) (entriesOf s) (entriesOf s') := by
  cases h with
  | comments r r' => exact .nil
  | @line l l' alike =>
    rw [entriesOf, entriesOf, alike.tokens]
    cases htokens : l.tokens with
    | nil => exact .nil
    | cons verb arguments =>
      refine .cons ⟨rfl, rfl, alike.start, fun hkeeps => ?_, fun _ => ?_⟩ .nil
      · rw [SameDeciding, Statement.deciding, Statement.deciding, alike.tokens, htokens] at hsame
        simp only [List.head?_cons, Option.any_some, hkeeps, if_true] at hsame
        exact alike.comments.all_eq hsame
      · exact hgives'.trans hgives.symm
  | @block b b' alike =>
    rw [entriesOf, entriesOf, alike.tokens]
    cases htokens : b.tokens with
    | nil => exact .nil
    | cons verb more =>
      rw [List.forall₂_map_left_iff, List.forall₂_map_right_iff]
      refine forall₂_imp_of_mem alike.lines fun l hl l' hl' hline => ?_
      have htokens' : b'.tokens = verb :: more := alike.tokens.trans htokens
      refine ⟨rfl, hline.tokens, hline.start, fun hkeeps => ?_, fun hverb => ?_⟩
      · change keepsEntries verb = true at hkeeps
        refine hline.comments.all_eq fun c hc c' hc' => hsame c ?_ c' ?_
        · exact mem_deciding_of_child (by rw [htokens]; exact hkeeps) hl hc
        · exact mem_deciding_of_child (by rw [htokens']; exact hkeeps) hl' hc'
      · change verb = requireVerb at hverb
        have hheads : b.heads = true :=
          Block.heads_iff.2 ⟨by simp [Block.isRequire, htokens, hverb], List.ne_nil_of_mem hl⟩
        have hheads' : b'.heads = true :=
          Block.heads_iff.2 ⟨by simp [Block.isRequire, htokens', hverb], List.ne_nil_of_mem hl'⟩
        have hcomments : b'.comments.all = b.comments.all :=
          alike.comments.all_eq fun c hc c' hc' =>
            hsame c (mem_deciding_of_header hheads hc) c' (mem_deciding_of_header hheads' hc')
        rw [hgives' l' hl', hgives l hl, Block.policy?, Block.policy?, hcomments]

/-- What a line takes from its block, in a manifest whose statements are in order. -/
theorem gives_of_ordered {ns : Text} {m : Manifest} {k : Int} (hordered : Ordered k m.statements)
    (hwell : ∀ s ∈ m.statements, s.WellNested) :
    ∀ s ∈ m.statements, Statement.Gives ns (m.blockPolicy? ns) s := by
  intro s hs
  cases s with
  | line l => exact blockPolicy?_of_outside (hwell _ hs).1
  | block b =>
    intro l hl
    exact blockPolicy?_of_child hordered (hwell _ hs) hs hl
  | comments r => trivial

/-! ## What a resolution depends on -/

section

variable {m m' : Manifest} {ns nilPolicy : Text}

/-- Declarations that say the same, on lines that count for the same. -/
def SameCount (ns : Text) (m m' : Manifest) : Prop :=
  Declarations.Related (CountsFor (m.blockPolicy? ns) (m'.blockPolicy? ns)) m.declared m'.declared

theorem policy?_eq_of_comments {l l' : Line} (h : l'.comments.all = l.comments.all) :
    l'.policy? ns = l.policy? ns := by
  rw [Line.policy?, Line.policy?, h]

theorem SameCount.misplaced?_eq (h : SameCount ns m m') (hname : m'.name = m.name) :
    m'.misplaced? ns = m.misplaced? ns :=
  bind_eq_of_rel h.go fun _ _ he => by rw [he.2.comments (by decide), hname]

theorem SameCount.defaultPolicy?_eq (h : SameCount ns m m') :
    m'.defaultPolicy? ns = m.defaultPolicy? ns :=
  bind_eq_of_rel h.module fun _ _ he => policy?_eq_of_comments (he.2.comments (by decide))

theorem SameCount.effectivePolicy_eq (h : SameCount ns m m') {r r' : Requirement}
    (hr : CountsFor (m.blockPolicy? ns) (m'.blockPolicy? ns) (Text.ofString "require")
      r.line r'.line) :
    m'.effectivePolicy ns nilPolicy r' = m.effectivePolicy ns nilPolicy r := by
  rw [effectivePolicy, effectivePolicy, policy?_eq_of_comments (hr.comments (by decide)),
    hr.block rfl, h.defaultPolicy?_eq]

/-- Manifests whose declarations count for the same resolve to the same. -/
theorem resolve_eq_of_sameCount (h : SameCount ns m m') (hname : m'.name = m.name) :
    m'.resolve ns nilPolicy = m.resolve ns nilPolicy := by
  refine resolve_congr (h.misplaced?_eq hname) (h.requirements.imp fun r r' hr => ?_)
  exact ⟨hr.1, hr.2.start, h.effectivePolicy_eq hr.2⟩

end

theorem nodup_lines {comments : List Comment}
    (h : comments.Pairwise fun c d => c.start.line < d.start.line) :
    (comments.map fun c => c.start.line).Nodup :=
  List.pairwise_map.2 (h.imp Int.ne_of_lt)

/-- A comment is known by its line. -/
theorem eq_of_start_eq {comments : List Comment}
    (h : comments.Pairwise fun c d => c.start.line < d.start.line) {c d : Comment}
    (hc : c ∈ comments) (hd : d ∈ comments) (hstart : c.start = d.start) : c = d :=
  List.inj_on_of_nodup_map (nodup_lines h) hc hd (congrArg Position.line hstart)

/-- No comment is in both kinds of places. -/
theorem not_mem_outlying_of_deciding {statements : List Statement}
    (h : (statements.flatMap Statement.allComments).Pairwise fun c d =>
      c.start.line < d.start.line) {c : Comment}
    (hc : c ∈ statements.flatMap Statement.deciding) :
    c ∉ statements.flatMap Statement.outlying := by
  have hperm : (statements.flatMap Statement.deciding ++
      statements.flatMap Statement.outlying).Perm (statements.flatMap Statement.allComments) :=
    (List.flatMap_append_perm statements Statement.deciding Statement.outlying).trans
      (List.Perm.flatMap_left statements fun s _ => s.deciding_append_outlying)
  have hnodup : (statements.flatMap Statement.allComments).Nodup := (nodup_lines h).of_map _
  exact fun houtlying =>
    List.disjoint_of_nodup_append (hperm.nodup_iff.2 hnodup) hc houtlying

theorem mem_allComments_of_deciding {statements : List Statement} {c : Comment}
    (h : c ∈ statements.flatMap Statement.deciding) :
    c ∈ statements.flatMap Statement.allComments := by
  obtain ⟨s, hs, hc⟩ := List.mem_flatMap.1 h
  exact List.mem_flatMap.2
    ⟨s, hs, s.deciding_append_outlying.subset (List.mem_append_left _ hc)⟩

/-- Where the comments that differ are outlying, those that count are the same. -/
theorem eq_of_deciding {m m' : Manifest} {lines lines' : List ScannedLine}
    {texts texts' : List Text} (h : m.Placed lines texts) (h' : m'.Placed lines' texts')
    (hcomments : ∀ c ∈ physicalComments 1 texts,
      c ∈ physicalComments 1 texts' ∨ c ∈ m.statements.flatMap Statement.outlying)
    {c c' : Comment} (hc : c ∈ m.statements.flatMap Statement.deciding)
    (hc' : c' ∈ m'.statements.flatMap Statement.deciding) (hstart : c'.start = c.start) :
    c' = c := by
  have hkept : c ∈ physicalComments 1 texts' := by
    refine (hcomments c ?_).resolve_right (not_mem_outlying_of_deciding h.sorted hc)
    rw [← h.comments]
    exact mem_allComments_of_deciding hc
  refine eq_of_start_eq (physicalComments_pairwise 1 texts') ?_ hkept hstart
  rw [← h'.comments]
  exact mem_allComments_of_deciding hc'

/-- Alike statements with the same comments that count declare what counts for the same. -/
theorem sameCount_of_alike {ns : Text} {m m' : Manifest}
    (halike : List.Forall₂ Statement.Alike m.statements m'.statements)
    (hsame : ∀ s ∈ m.statements, ∀ s' ∈ m'.statements, SameDeciding s s')
    (hgives : ∀ s ∈ m.statements, Statement.Gives ns (m.blockPolicy? ns) s)
    (hgives' : ∀ s ∈ m'.statements, Statement.Gives ns (m'.blockPolicy? ns) s)
    (hd : declarations m.statements = .ok m.declared)
    (hd' : declarations m'.statements = .ok m'.declared) : SameCount ns m m' := by
  have hentries : List.Forall₂
      (Entry.Related (CountsFor (m.blockPolicy? ns) (m'.blockPolicy? ns)))
      (m.statements.flatMap entriesOf) (m'.statements.flatMap entriesOf) := by
    refine List.rel_flatMap (forall₂_imp_of_mem halike fun s hs s' hs' h => ?_) fun _ _ h => h
    exact related_entriesOf h (hsame s hs s' hs') (hgives s hs) (hgives' s' hs')
  obtain ⟨found, hfound, hrelated⟩ := related_of_declarations hentries hd
  rw [hd', Except.ok.injEq] at hfound
  rw [SameCount, hfound]
  exact hrelated

/-- **Comments in other places never count.** Two manifests that were read from texts with the
same tokens on every line, and a comment at the same column of every line that has one, resolve
to the same if the comments that differ are outlying. -/
theorem resolve_outlying {name text text' : Text} {m m' : Manifest}
    (h : read name text = .ok m) (h' : read name text' = .ok m')
    (hlines : List.Forall₂ SameTokens text.lines text'.lines)
    (hcomments : ∀ c ∈ physicalComments 1 text.lines,
      c ∈ physicalComments 1 text'.lines ∨ c ∈ m.statements.flatMap Statement.outlying)
    (ns nilPolicy : Text) : m'.resolve ns nilPolicy = m.resolve ns nilPolicy := by
  obtain ⟨_, _, hplaced⟩ := read_placed h
  obtain ⟨_, _, hplaced'⟩ := read_placed h'
  obtain ⟨lines, statements, d, hscan, hlayout, hd, rfl⟩ := read_eq_ok_iff.1 h
  obtain ⟨lines', statements', d', hscan', hlayout', hd', rfl⟩ := read_eq_ok_iff.1 h'
  obtain ⟨found, hfound, hrelated⟩ := exists_layout_of_related (fun _ _ h => h.sameParens) hlayout
    (alike_of_scanLines hlines hscan hscan') .nil
  have hsame := (statementsFrom_of_layout hfound).symm.trans (statementsFrom_of_layout hlayout')
  rw [Except.ok.injEq] at hsame
  subst hsame
  have halike := hrelated.imp fun _ _ => alike_of_statementsFor
  have hnumbered := numbered_of_scanLines hscan
  have hnumbered' := numbered_of_scanLines hscan'
  refine resolve_eq_of_sameCount (sameCount_of_alike halike ?_ ?_ ?_ hd hd') rfl
  · intro s hs s' hs' c hc c' hc' hstart
    exact eq_of_deciding hplaced hplaced' hcomments (List.mem_flatMap.2 ⟨s, hs, hc⟩)
      (List.mem_flatMap.2 ⟨s', hs', hc'⟩) hstart
  · exact gives_of_ordered (ordered_of_numbered hlayout hnumbered)
      (wellNested_of_layout hlayout hnumbered)
  · exact gives_of_ordered (ordered_of_numbered hlayout' hnumbered')
      (wellNested_of_layout hlayout' hnumbered')

/-- A standalone comment, one above a closing parenthesis, one after it, and one of a statement
with another verb are made directives. -/
theorem resolve_outlying_sample :
    ∃ text text' m m',
      text = Text.ofString
        "// a\n\nmodule m\nrequire ( // s:p\n b v\n // c\n) // d\nretract v // e\n" ∧
      text' = Text.ofString
        "// s:q\n\nmodule m\nrequire ( // s:p\n b v\n // s:q\n) // s:q\nretract v // s:q\n" ∧
      read [] text = .ok m ∧ read [] text' = .ok m' ∧
      ∀ ns nilPolicy, m'.resolve ns nilPolicy = m.resolve ns nilPolicy := by
  obtain ⟨text, htext⟩ : ∃ t, t = Text.ofString
      "// a\n\nmodule m\nrequire ( // s:p\n b v\n // c\n) // d\nretract v // e\n" := ⟨_, rfl⟩
  obtain ⟨text', htext'⟩ : ∃ t, t = Text.ofString
      "// s:q\n\nmodule m\nrequire ( // s:p\n b v\n // s:q\n) // s:q\nretract v // s:q\n" :=
    ⟨_, rfl⟩
  have hlines : List.Forall₂ SameTokens text.lines text'.lines := by
    rw [htext, htext']
    decide +kernel
  have hcomments : (read [] text).toOption.map (fun m => decide
      (∀ c ∈ physicalComments 1 text.lines,
        c ∈ physicalComments 1 text'.lines ∨ c ∈ m.statements.flatMap Statement.outlying)) =
      some true := by
    rw [htext, htext']
    decide +kernel
  have hread : (read [] text').isOk = true := by
    rw [htext']
    decide +kernel
  obtain ⟨m, hm, hdiffer⟩ := Option.map_eq_some_iff.1 hcomments
  obtain ⟨m', hm'⟩ := exists_eq_ok hread
  rw [toOption_eq_some_iff] at hm
  exact ⟨text, text', m, m', htext, htext', hm, hm', fun ns nilPolicy =>
    resolve_outlying hm hm' hlines (of_decide_eq_true hdiffer) ns nilPolicy⟩

end Manifest

end ManifestPolicy
