import ManifestPolicy.Proofs.Nesting

/-!
# Where comments go

Every comment of a manifest is kept once, in one slot of its statements. The slot follows
from the lines around the comment alone: from whether the line stands inside a block, and
from the next line that counts.

The reader decides the same thing in another way. It lets comments wait, and hands them
over or sets them aside when a later line says so. Both are compared on derivations, where
the comments that wait are those above the line that is read next. What the rules see of the
lines above is kept as an invariant, with one lemma for each kind of line.

## Main definitions

* `Slot`, `Statement.placed`: the slots of a statement with the comments in them.
* `markerOffset?`, `physicalComments`: the comments of the lines of a text.
* `slot?`, `placements`: the slot of each comment, from the lines around it.
* `Outside`, `Inside`: what the lines above say about the line that is read next.

## Main statements

* `comment?_of_ofText`: a comment starts at the first marker outside quoted strings.
* `placements_of_layout`: the slots of a derivation follow from its lines.
* `Manifest.read_placed`: every comment of a text is kept once, in its slot.
-/

namespace ManifestPolicy

/-! ## Slots -/

/-- The parts of a manifest that carry comments. -/
inductive Part
  | line
  /-- The opening line of a block, or a line that is a block. -/
  | header
  | child
  /-- The closing line of a block. -/
  | closing
  /-- Comments that annotate nothing. -/
  | run
deriving DecidableEq

/-- Whether a comment stands above a part or at the end of its line. -/
inductive Side
  | before
  | suffix
deriving DecidableEq

/-- A place for comments. Parts are told apart by the line they start on. -/
structure Slot where
  part : Part
  line : Int
  side : Side
deriving DecidableEq

/-- The comments of one part with their slots. -/
def Comments.placed (part : Part) (line : Int) (c : Comments) : List (Slot × Comment) :=
  c.before.map (fun d => (⟨part, line, .before⟩, d)) ++
    c.suffix.map (fun d => (⟨part, line, .suffix⟩, d))

/-- The comments of a statement with their slots, in the order of the text. -/
def Statement.placed : Statement → List (Slot × Comment)
  | .line l => l.comments.placed .line l.start.line
  | .block b =>
    b.comments.placed .header b.start.line ++
      (b.lines.flatMap (fun l => l.comments.placed .child l.start.line) ++
        b.closing.placed .closing b.stop.line)
  | .comments r => r.comments.placed .run r.start.line

/-- The comments of a statement, in the order of the text. -/
def Statement.allComments (s : Statement) : List Comment := s.placed.map Prod.snd

namespace Manifest

/-- Whether the next code point of a line is quoted. Between double quotes an escape mark
takes the next code point with it, which is then `escaped`. -/
inductive Quoting
  | outside
  | within (quote : CodePoint) (escaped : Bool)
deriving DecidableEq

def Quoting.next (c : CodePoint) : Quoting → Quoting
  | .outside => if isQuote c then .within c false else .outside
  | .within quote true => .within quote false
  | .within quote false =>
    if quote = quotation ∧ c = backslash then .within quote true
    else if c = quote then .outside
    else .within quote false

/-- Where the comment of a line starts: at the first marker that is not quoted. -/
def markerOffset? (quoting : Quoting) : Text → Option Nat
  | [] => none
  | c :: t =>
    if quoting = .outside ∧ Text.startsWith commentMarker (c :: t) = true then some 0
    else (markerOffset? (quoting.next c) t).map (· + 1)

/-- The comment of a line: from its marker to the end of the line, without the blanks at the
end. -/
def physicalComment? (number : Int) (t : Text) : Option Comment :=
  (markerOffset? .outside t).map fun (k : Nat) =>
    ⟨⟨number, (k : Int) + 1⟩, Text.trimEnd (t.drop k)⟩

/-- The comments of some lines, of which the first has this number. -/
def physicalComments (number : Int) : List Text → List Comment
  | [] => []
  | t :: rest => (physicalComment? number t).toList ++ physicalComments (number + 1) rest

/-- Outside blocks a line opens a block with a parenthesis at its end. -/
def TokenLine.opensBlock (l : TokenLine) : Bool := l.last.text = openingParen

/-- Inside a block a line closes it with a parenthesis at its start. -/
def TokenLine.closesBlock (l : TokenLine) : Bool := l.first.text = closingParen

/-- Whether the line below these lines stands inside a block. -/
def insideAfter (inside : Bool) : List ScannedLine → Bool
  | [] => inside
  | .tokens l :: rest => insideAfter (if inside then !l.closesBlock else l.opensBlock) rest
  | _ :: rest => insideAfter inside rest

/-- What a line with tokens is. -/
def TokenLine.part (inside : Bool) (l : TokenLine) : Part :=
  if inside then
    if l.closesBlock then .closing else .child
  else if l.opensBlock || l.last.text = closingParen then .header
  else .line

/-- The slot of a whole-line comment inside a block, from the lines below it: above the next
line with tokens, which is a child or the closing line. Blank lines do not count. -/
def nextInside? (number : Int) : List ScannedLine → Option Slot
  | [] => none
  | .tokens l :: _ => some ⟨l.part true, number, .before⟩
  | _ :: rest => nextInside? (number + 1) rest

/-- The slot of a whole-line comment outside blocks, from the lines below it: above the
statement on the first line that is no comment, or, where that line is blank or missing, in
a statement of its own with the whole run of comments, which starts on line `first`. -/
def nextOutside (first number : Int) : List ScannedLine → Slot
  | .comment _ :: rest => nextOutside first (number + 1) rest
  | .tokens l :: _ => ⟨l.part false, number, .before⟩
  | _ => ⟨.run, first, .before⟩

/-- The first line of the run of whole-line comments that ends above line `number`, from
the lines above that line, the nearest first. -/
def runStart (number : Int) : List ScannedLine → Int
  | .comment _ :: above => runStart (number - 1) above
  | _ => number

/-- The slot of the comment on a line, from the lines above and below it. -/
def slot? (above below : List ScannedLine) : ScannedLine → Option Slot
  | .blank => none
  | .tokens l => some ⟨l.part (insideAfter false above), above.length + 1, .suffix⟩
  | .comment _ =>
    if insideAfter false above then nextInside? (above.length + 2) below
    else some (nextOutside (runStart (above.length + 1) above.reverse) (above.length + 2) below)

/-- The comment of a line. -/
def ScannedLine.comment? : ScannedLine → Option Comment
  | .blank => none
  | .comment c => some c
  | .tokens l => l.comment

/-- The comments of some lines with their slots. -/
def placements (above : List ScannedLine) : List ScannedLine → List (Option Slot × Comment)
  | [] => []
  | line :: below =>
    line.comment?.toList.map (fun c => (slot? above below line, c)) ++
      placements (above ++ [line]) below

/-! ## A comment starts at its marker -/

theorem blank_not_special {c : CodePoint} (h : c.isBlank = true) :
    isQuote c = false ∧ c ≠ '/' := by
  constructor
  · rw [Bool.eq_false_iff]
    intro hquote
    rw [isQuote, Bool.or_eq_true, decide_eq_true_eq, decide_eq_true_eq] at hquote
    rcases hquote with rfl | rfl
    · exact absurd h (by decide)
    · exact absurd h (by decide)
  · rintro rfl
    exact absurd h (by decide)

/-- A text can be walked from some quoting to its end, where nothing is quoted, without a
marker outside quoted strings on the way. Whether a marker starts at its last code points
depends on what follows. -/
inductive Passes : Quoting → Text → Text → Prop
  | done (rest : Text) : Passes .outside [] rest
  | step {quoting : Quoting} {c : CodePoint} {t rest : Text}
      (noMarker : quoting = .outside → Text.startsWith commentMarker (c :: (t ++ rest)) = false)
      (more : Passes (quoting.next c) t rest) : Passes quoting (c :: t) rest

theorem Passes.append {quoting : Quoting} {s t rest : Text} (hs : Passes quoting s (t ++ rest))
    (ht : Passes .outside t rest) : Passes quoting (s ++ t) rest := by
  induction s generalizing quoting with
  | nil =>
    cases hs
    exact ht
  | cons c s ih =>
    cases hs with
    | step noMarker more =>
      rw [List.cons_append]
      exact .step (by rwa [List.append_assoc]) (ih more)

/-- Outside quoted strings a code point that is no quote and starts no marker is passed. -/
theorem Passes.cons {c : CodePoint} {t rest : Text} (hquote : isQuote c = false)
    (hmarker : Text.startsWith commentMarker (c :: (t ++ rest)) = false)
    (more : Passes .outside t rest) : Passes .outside (c :: t) rest := by
  refine .step (fun _ => hmarker) ?_
  rw [Quoting.next, hquote]
  exact more

theorem passes_blanks {gap : Text} (h : Blanks gap) (rest : Text) : Passes .outside gap rest := by
  induction gap with
  | nil => exact .done rest
  | cons c gap ih =>
    obtain ⟨hquote, hne⟩ := blank_not_special (h c List.mem_cons_self)
    exact .cons hquote (startsWith_commentMarker_of_ne hne _)
      (ih fun d hd => h d (List.mem_cons_of_mem _ hd))

/-- A quoted string is passed up to its closing quote. -/
theorem passes_quoted {quote : CodePoint} {escaped : Bool} {body rest : Text}
    (h : cutQuoted quote escaped (body ++ rest) = some (body, rest)) :
    Passes (.within quote escaped) body rest := by
  induction body generalizing escaped with
  | nil =>
    cases rest with
    | nil => simp [cutQuoted] at h
    | cons c rest =>
      cases escaped with
      | true => simp [cutQuoted] at h
      | false =>
        simp only [List.nil_append, cutQuoted] at h
        split at h
        · simp at h
        · split at h <;> simp at h
  | cons c body ih =>
    refine .step (by simp) ?_
    cases escaped with
    | true =>
      simp only [List.cons_append, cutQuoted, Option.map_eq_some_iff, Prod.mk.injEq,
        List.cons.injEq, true_and] at h
      obtain ⟨cut, hcut, rfl, rfl⟩ := h
      exact ih hcut
    | false =>
      rw [Quoting.next]
      simp only [List.cons_append, cutQuoted] at h
      split at h
      · next hescape =>
        simp only [Option.map_eq_some_iff, Prod.mk.injEq, List.cons.injEq, true_and] at h
        obtain ⟨cut, hcut, rfl, rfl⟩ := h
        rw [if_pos hescape]
        exact ih hcut
      · next hescape =>
        rw [if_neg hescape]
        split at h
        · next hclose =>
          rw [Option.some.injEq, Prod.mk.injEq, List.cons.injEq] at h
          rw [if_pos hclose, ← h.1.2]
          exact .done rest
        · next hclose =>
          simp only [Option.map_eq_some_iff, Prod.mk.injEq, List.cons.injEq, true_and] at h
          obtain ⟨cut, hcut, rfl, rfl⟩ := h
          rw [if_neg hclose]
          exact ih hcut

/-- A bare word is passed up to its end. -/
theorem passes_word {word rest : Text} (h : cutWord (word ++ rest) = (word, rest)) :
    Passes .outside word rest := by
  induction word with
  | nil => exact .done rest
  | cons c word ih =>
    obtain ⟨hends, hrest⟩ := cutWord_cons h
    obtain ⟨⟨-, -, hquote⟩, hmarker⟩ := endsWord_cons_eq_false_iff.1 hends
    exact .cons hquote hmarker (ih hrest)

theorem passes_token {token rest : Text} (h : Cuts token rest) : Passes .outside token rest := by
  have hmarker := h.noMarker
  rcases h.cases with ⟨c, rfl, hparen⟩ | ⟨q, body, rfl, hquote, -, hcut⟩ |
    ⟨c, word, rfl, -, hquote, hcut⟩
  · have hquote : isQuote c = false := by
      rw [isParen, Bool.or_eq_true, decide_eq_true_eq, decide_eq_true_eq] at hparen
      rcases hparen with rfl | rfl <;> decide
    exact .cons hquote hmarker (.done rest)
  · refine .step (fun _ => hmarker) ?_
    rw [Quoting.next, hquote]
    exact passes_quoted hcut
  · exact .cons hquote hmarker (passes_word hcut)

theorem passes_spell {ps : List Piece} {tail : Text} (h : Spelled ps tail) :
    Passes .outside (spell ps []) tail := by
  induction ps with
  | nil => exact .done tail
  | cons p ps ih =>
    obtain ⟨hgap, hcuts, hrest⟩ := h
    rw [← List.nil_append tail, spell_append_tail] at hcuts
    exact (passes_blanks hgap _).append ((passes_token hcuts).append (ih hrest))

/-- What is passed holds no comment. -/
theorem markerOffset?_passes {quoting : Quoting} {s rest : Text} (h : Passes quoting s rest) :
    markerOffset? quoting (s ++ rest) = (markerOffset? .outside rest).map (· + s.length) := by
  induction h with
  | done rest =>
    cases hk : markerOffset? .outside rest with
    | none => simp [hk]
    | some k => simp [hk]
  | @step quoting c t rest noMarker _ ih =>
    have hmarker : ¬(quoting = .outside ∧
        Text.startsWith commentMarker (c :: (t ++ rest)) = true) := by
      rintro ⟨houtside, hstarts⟩
      simp [noMarker houtside] at hstarts
    rw [List.cons_append, markerOffset?, if_neg hmarker, ih]
    cases markerOffset? .outside rest with
    | none => rfl
    | some k => simp [Nat.add_assoc]

theorem markerOffset?_spell {ps : List Piece} {tail : Text} (h : Spelled ps tail) :
    markerOffset? .outside (spell ps tail) =
      (markerOffset? .outside tail).map (· + width ps) := by
  have hlength : (spell ps []).length = width ps := length_spell ps []
  rw [← List.nil_append tail, spell_append_tail, List.nil_append,
    markerOffset?_passes (passes_spell h), hlength]

theorem markerOffset?_remark {remark : Text} (h : IsRemark remark) :
    markerOffset? .outside remark = if remark = [] then none else some 0 := by
  rcases h with rfl | h
  · rfl
  · cases remark with
    | nil => rfl
    | cons c t => simp [markerOffset?, h]

theorem comment?_ofParts (tokens : List Token) (c : Option Comment) :
    (ScannedLine.ofParts tokens c).comment? = c := by
  cases tokens with
  | cons first rest => rfl
  | nil => cases c <;> rfl

/-- **A comment starts at the first marker outside quoted strings**, and goes on to the end of
its line. -/
theorem comment?_of_ofText {number : Int} {t : Text} {line : ScannedLine}
    (h : ScannedLine.ofText number t = .ok line) : line.comment? = physicalComment? number t := by
  obtain ⟨tokens, comment, hscan, rfl⟩ := ofText_eq_ok_iff.1 h
  obtain ⟨ps, gap, remark, rfl, hspelled, hgap, hremark, rfl, rfl⟩ :=
    exists_spell_of_scanFrom hscan
  rw [comment?_ofParts, physicalComment?, markerOffset?_spell hspelled,
    markerOffset?_passes (passes_blanks hgap _), markerOffset?_remark hremark]
  cases remark with
  | nil => rfl
  | cons c remark =>
    have hdrop : (spell ps (gap ++ c :: remark)).drop (gap.length + width ps) = c :: remark := by
      have hlen : (spell ps gap).length = gap.length + width ps := by
        rw [length_spell]
        omega
      rw [spell_append_tail, ← hlen, List.drop_left]
    simp only [reduceCtorEq, if_false, Option.map_some, Nat.zero_add, hdrop, remarkAt]
    congr 3
    omega

theorem filterMap_comment?_of_scanLines {number : Int} {texts : List Text}
    {lines : List ScannedLine} (h : scanLines number texts = .ok lines) :
    lines.filterMap ScannedLine.comment? = physicalComments number texts := by
  induction texts generalizing number lines with
  | nil =>
    rw [scanLines, Except.ok.injEq] at h
    rw [← h]
    rfl
  | cons t texts ih =>
    obtain ⟨line, more, hline, hmore, rfl⟩ := scanLines_cons_eq_ok_iff.1 h
    rw [physicalComments, ← ih hmore, ← comment?_of_ofText hline]
    cases hc : line.comment? with
    | none => rw [List.filterMap_cons_none hc]; rfl
    | some c => rw [List.filterMap_cons_some hc]; rfl

/-! ## The slots of a derivation -/

theorem insideAfter_append (inside : Bool) (l₁ l₂ : List ScannedLine) :
    insideAfter inside (l₁ ++ l₂) = insideAfter (insideAfter inside l₁) l₂ := by
  induction l₁ generalizing inside with
  | nil => rfl
  | cons line l₁ ih =>
    rw [List.cons_append]
    cases line with
    | blank => exact ih inside
    | comment c => exact ih inside
    | tokens l => exact ih _

theorem TokenLine.Plain.closesBlock {l : TokenLine} (h : l.Plain) : l.closesBlock = false := by
  have hfirst := (Token.isParen_eq_false_iff.1 (h l.first List.mem_cons_self)).2
  simp [TokenLine.closesBlock, hfirst]

theorem TokenLine.Plain.opensBlock {l : TokenLine} (h : l.Plain) : l.opensBlock = false := by
  have hlast := (Token.isParen_eq_false_iff.1 (h l.last l.last_mem_tokens)).1
  simp [TokenLine.opensBlock, hlast]

theorem TokenLine.Closes.closesBlock {l : TokenLine} (h : l.Closes) : l.closesBlock = true := by
  simp [TokenLine.closesBlock, h.first]

theorem TokenLine.Opens.opensBlock {l : TokenLine} {paren : Token} (h : l.Opens paren) :
    l.opensBlock = true := by
  simp [TokenLine.opensBlock, TokenLine.last, h.rest, h.paren]

theorem TokenLine.OpensAndCloses.last {l : TokenLine} {paren closing : Token}
    (h : l.OpensAndCloses paren closing) : l.last.text = closingParen := by
  simp [TokenLine.last, h.rest, h.closing]

theorem TokenLine.OpensAndCloses.opensBlock {l : TokenLine} {paren closing : Token}
    (h : l.OpensAndCloses paren closing) : l.opensBlock = false := by
  simp [TokenLine.opensBlock, h.last, closingParen_ne_openingParen]

theorem TokenLine.Plain.part_inside {l : TokenLine} (h : l.Plain) : l.part true = .child := by
  simp [TokenLine.part, h.closesBlock]

theorem TokenLine.Closes.part {l : TokenLine} (h : l.Closes) : l.part true = .closing := by
  simp [TokenLine.part, h.closesBlock]

theorem TokenLine.Plain.part_outside {l : TokenLine} (h : l.Plain) : l.part false = .line := by
  have hlast := (Token.isParen_eq_false_iff.1 (h l.last l.last_mem_tokens)).2
  simp [TokenLine.part, h.opensBlock, hlast]

theorem TokenLine.Opens.part {l : TokenLine} {paren : Token} (h : l.Opens paren) :
    l.part false = .header := by
  simp [TokenLine.part, h.opensBlock]

theorem TokenLine.OpensAndCloses.part {l : TokenLine} {paren closing : Token}
    (h : l.OpensAndCloses paren closing) : l.part false = .header := by
  simp [TokenLine.part, h.last]

/-- The lines above stand before line `n`, which is outside blocks, and the comments that
wait are the run of comments right above it. -/
structure Outside (waiting : List Comment) (n : Int) (above : List ScannedLine) : Prop where
  number : n = above.length + 1
  outside : insideAfter false above = false
  run : runStart n above.reverse = Comments.top n ⟨waiting, []⟩

/-- The lines above stand before line `n`, which is inside a block. -/
structure Inside (n : Int) (above : List ScannedLine) : Prop where
  number : n = above.length + 1
  inside : insideAfter false above = true

section

variable {waiting : List Comment} {n : Int} {above : List ScannedLine}

theorem number_concat (h : n = above.length + 1) (line : ScannedLine) :
    n + 1 = ((above ++ [line]).length : Int) + 1 := by
  rw [h, List.length_append, List.length_singleton]
  rfl

theorem runStart_concat (line : ScannedLine) (h : ∀ c, line ≠ .comment c) :
    runStart n (above ++ [line]).reverse = n := by
  rw [List.reverse_concat]
  cases line with
  | blank => rfl
  | tokens l => rfl
  | comment c => exact absurd rfl (h c)

theorem Outside.blank (h : Outside waiting n above) : Outside [] (n + 1) (above ++ [.blank]) := by
  refine ⟨number_concat h.number _, ?_, runStart_concat _ (by simp)⟩
  rw [insideAfter_append, h.outside]
  rfl

theorem Outside.runStart_comment (c : Comment) :
    runStart (n + 1) (above ++ [ScannedLine.comment c]).reverse = runStart n above.reverse := by
  rw [List.reverse_concat, runStart, Int.add_sub_cancel]

theorem Outside.comment (h : Outside waiting n above) {c : Comment} (hc : c.start.line = n) :
    Outside (waiting ++ [c]) (n + 1) (above ++ [.comment c]) := by
  refine ⟨number_concat h.number _, ?_, ?_⟩
  · rw [insideAfter_append, h.outside]
    rfl
  · rw [runStart_comment, h.run]
    cases waiting with
    | nil => simp [Comments.top, hc]
    | cons d rest => rfl

theorem Outside.tokens (h : Outside waiting n above) {l : TokenLine} (hl : l.opensBlock = false) :
    Outside [] (n + 1) (above ++ [.tokens l]) := by
  refine ⟨number_concat h.number _, ?_, runStart_concat _ (by simp)⟩
  rw [insideAfter_append, h.outside, insideAfter, hl]
  rfl

theorem Outside.opens (h : Outside waiting n above) {l : TokenLine} (hl : l.opensBlock = true) :
    Inside (n + 1) (above ++ [.tokens l]) := by
  refine ⟨number_concat h.number _, ?_⟩
  rw [insideAfter_append, h.outside, insideAfter, hl]
  rfl

theorem Inside.blank (h : Inside n above) : Inside (n + 1) (above ++ [.blank]) := by
  refine ⟨number_concat h.number _, ?_⟩
  rw [insideAfter_append, h.inside]
  rfl

theorem Inside.comment (h : Inside n above) (c : Comment) :
    Inside (n + 1) (above ++ [.comment c]) := by
  refine ⟨number_concat h.number _, ?_⟩
  rw [insideAfter_append, h.inside]
  rfl

theorem Inside.child (h : Inside n above) {l : TokenLine} (plain : l.Plain) :
    Inside (n + 1) (above ++ [.tokens l]) := by
  refine ⟨number_concat h.number _, ?_⟩
  rw [insideAfter_append, h.inside, insideAfter, plain.closesBlock]
  rfl

theorem Inside.closes (h : Inside n above) {l : TokenLine} (closes : l.Closes) :
    Outside [] (n + 1) (above ++ [.tokens l]) := by
  refine ⟨number_concat h.number _, ?_, runStart_concat _ (by simp)⟩
  rw [insideAfter_append, h.inside, insideAfter, closes.closesBlock]
  rfl

/-- The lines of a block stay inside it. -/
theorem Inside.body {left : List Comment} {body : List ScannedLine} {children : List Line}
    (h : Inside n above) (hbody : Body waiting body children left) :
    Inside (n + body.length) (above ++ body) := by
  induction hbody generalizing n above with
  | done =>
    rw [List.length_nil, Int.natCast_zero, Int.add_zero, List.append_nil]
    exact h
  | blank _ ih =>
    rw [add_length_cons, List.append_cons]
    exact ih h.blank
  | comment c _ ih =>
    rw [add_length_cons, List.append_cons]
    exact ih (h.comment c)
  | child l plain _ ih =>
    rw [add_length_cons, List.append_cons]
    exact ih (h.child plain)

theorem Outside.slot?_tokens (h : Outside waiting n above) (below : List ScannedLine)
    (l : TokenLine) : slot? above below (.tokens l) = some ⟨l.part false, n, .suffix⟩ := by
  rw [slot?, h.outside, h.number]

theorem Outside.slot?_comment (h : Outside waiting n above) (below : List ScannedLine)
    (c : Comment) :
    slot? above below (.comment c) =
      some (nextOutside (runStart n above.reverse) (n + 1) below) := by
  rw [slot?, h.outside, h.number, Int.add_assoc]
  rfl

theorem Inside.slot?_tokens (h : Inside n above) (below : List ScannedLine) (l : TokenLine) :
    slot? above below (.tokens l) = some ⟨l.part true, n, .suffix⟩ := by
  rw [slot?, h.inside, h.number]

theorem Inside.slot?_comment (h : Inside n above) (below : List ScannedLine) (c : Comment) :
    slot? above below (.comment c) = nextInside? (n + 1) below := by
  rw [slot?, if_pos h.inside, h.number, Int.add_assoc]
  rfl

end

/-- The slots that the rules give, where they give one. -/
def given (ps : List (Slot × Comment)) : List (Option Slot × Comment) :=
  ps.map fun p => (some p.1, p.2)

theorem given_append (ps qs : List (Slot × Comment)) : given (ps ++ qs) = given ps ++ given qs :=
  List.map_append

theorem given_placed (part : Part) (line : Int) (waiting suffix : List Comment) :
    given (Comments.placed part line ⟨waiting, suffix⟩) =
      waiting.map (fun c => (some ⟨part, line, .before⟩, c)) ++
        suffix.map (fun c => (some ⟨part, line, .suffix⟩, c)) := by
  simp [given, Comments.placed, Function.comp_def]

/-- Inside a block, the comments that wait before its lines and those on them are the ones
of its children, and those left for the line below. -/
theorem placements_of_body {waiting left : List Comment} {body : List ScannedLine}
    {children : List Line} (h : Body waiting body children left) {n : Int}
    {above rest : List ScannedLine} (hbody : Numbered n body) (habove : Inside n above) :
    waiting.map (fun c => (nextInside? n (body ++ rest), c)) ++ placements above (body ++ rest) =
      given (children.flatMap fun l => l.comments.placed .child l.start.line) ++
        (left.map (fun c => (nextInside? (n + body.length) rest, c)) ++
          placements (above ++ body) rest) := by
  -- The lines of the body move above one by one.
  induction h generalizing n above with
  | done => simp [given]
  | blank _ ih =>
    have hrest := ih (numbered_cons_iff.1 hbody).2 habove.blank
    rw [add_length_cons, List.append_cons above, ← hrest]
    rfl
  | @comment waiting _ lines _ c _ ih =>
    have hrest := ih (numbered_cons_iff.1 hbody).2 (habove.comment c)
    rw [add_length_cons, List.append_cons above, ← hrest, List.map_append, List.append_assoc,
      List.cons_append, placements, habove.slot?_comment]
    rfl
  | @child waiting _ lines children l plain _ ih =>
    obtain ⟨hline, hnumbered⟩ := numbered_cons_iff.1 hbody
    have hrest := ih hnumbered (habove.child plain)
    have hstart : (l.toLine waiting true).start.line = n := hline.first.1
    rw [add_length_cons, List.append_cons above, List.flatMap_cons, given_append,
      List.append_assoc, ← hrest, hstart, TokenLine.toLine, given_placed, List.append_assoc,
      List.cons_append, nextInside?, placements, habove.slot?_tokens, plain.part_inside]
    rfl

theorem given_standalone (waiting : List Comment) (n : Int) :
    given ((standalone waiting).flatMap Statement.placed) =
      waiting.map fun c => (some ⟨.run, Comments.top n ⟨waiting, []⟩, .before⟩, c) := by
  cases waiting with
  | nil => rfl
  | cons first rest =>
    rw [standalone, List.flatMap_singleton, Statement.placed, given_placed, List.map_nil,
      List.append_nil]
    rfl

/-- Outside blocks, the comments that wait before the lines and those on the lines are the
ones of the statements. -/
theorem placements_of_layout {waiting : List Comment} {lines : List ScannedLine}
    {statements : List Statement} (h : Layout waiting lines statements) {n : Int}
    {above : List ScannedLine} (hlines : Numbered n lines) (habove : Outside waiting n above) :
    waiting.map (fun c => (some (nextOutside (runStart n above.reverse) n lines), c)) ++
      placements above lines = given (statements.flatMap Statement.placed) := by
  induction h generalizing n above with
  | done waiting =>
    rw [given_standalone waiting n, placements, List.append_nil, habove.run]
    rfl
  | blank waiting _ ih =>
    have hrest := ih (numbered_cons_iff.1 hlines).2 habove.blank
    rw [List.flatMap_append, given_append, given_standalone waiting n, ← hrest, habove.run]
    rfl
  | comment c _ ih =>
    obtain ⟨hc, hnumbered⟩ := numbered_cons_iff.1 hlines
    have hrest := ih hnumbered (habove.comment hc)
    rw [← hrest, Outside.runStart_comment, List.map_append, List.append_assoc, placements,
      habove.slot?_comment]
    rfl
  | line waiting l plain _ ih =>
    obtain ⟨hline, hnumbered⟩ := numbered_cons_iff.1 hlines
    have hrest := ih hnumbered (habove.tokens plain.opensBlock)
    have hstart : (l.toLine waiting false).start.line = n := hline.first.1
    rw [List.flatMap_cons, given_append, ← hrest, Statement.placed, hstart, TokenLine.toLine,
      given_placed, nextOutside, placements, habove.slot?_tokens, plain.part_outside,
      List.append_assoc]
    rfl
  | @emptyBlock waiting _ _ l _ closing header _ ih =>
    obtain ⟨hline, hnumbered⟩ := numbered_cons_iff.1 hlines
    have hrest := ih hnumbered (habove.tokens header.opensBlock)
    have hstart : (l.toEmptyBlock waiting closing).start.line = n := hline.first.1
    rw [List.flatMap_cons, given_append, ← hrest, Statement.placed, hstart,
      TokenLine.toEmptyBlock, given_append, given_placed, nextOutside, placements,
      habove.slot?_tokens, header.part, List.append_assoc, List.append_assoc]
    rfl
  | @block waiting body lines children left statements l paren header inside closing closes _ ih =>
    obtain ⟨hline, hbody, hclosing, hnumbered⟩ := numbered_block_iff.1 hlines
    have hstart : (l.toBlock waiting children left closing).start.line = n := hline.first.1
    have hstop : (l.toBlock waiting children left closing).stop.line = n + 1 + body.length :=
      hclosing.first.2
    have hopened := habove.opens header.opensBlock
    have hbelow := hopened.body inside
    have hrest := ih hnumbered (hbelow.closes closes)
    have hchildren : placements (above ++ [.tokens l]) (body ++ .tokens closing :: lines) =
        given (children.flatMap fun l => l.comments.placed .child l.start.line) ++
          (left.map (fun c => (some ⟨.closing, n + 1 + body.length, .before⟩, c)) ++
            placements (above ++ [.tokens l] ++ body) (.tokens closing :: lines)) := by
      rw [← closes.part]
      exact placements_of_body inside hbody hopened
    rw [List.flatMap_cons, given_append, ← hrest, Statement.placed, hstart, hstop,
      TokenLine.toBlock, given_append, given_append, given_placed, given_placed, nextOutside,
      placements, habove.slot?_tokens, header.part, hchildren, placements, hbelow.slot?_tokens,
      closes.part]
    simp only [List.append_assoc]
    rfl

theorem map_snd_given (ps : List (Slot × Comment)) : (given ps).map Prod.snd = ps.map Prod.snd := by
  rw [given, List.map_map]
  rfl

theorem map_snd_placements (above lines : List ScannedLine) :
    (placements above lines).map Prod.snd = lines.filterMap ScannedLine.comment? := by
  induction lines generalizing above with
  | nil => rfl
  | cons line lines ih =>
    rw [placements, List.map_append, ih, List.map_map]
    cases hc : line.comment? with
    | none =>
      rw [List.filterMap_cons_none hc]
      rfl
    | some c =>
      rw [List.filterMap_cons_some hc]
      rfl

theorem le_of_mem_physicalComments {number : Int} {texts : List Text} :
    ∀ c ∈ physicalComments number texts, number ≤ c.start.line := by
  induction texts generalizing number with
  | nil => simp [physicalComments]
  | cons t texts ih =>
    intro c hc
    rcases List.mem_append.1 hc with hc | hc
    · obtain ⟨k, -, rfl⟩ := Option.map_eq_some_iff.1 (Option.mem_toList.1 hc)
      exact Int.le_refl number
    · have := ih c hc
      omega

/-- A line has one comment at most. -/
theorem physicalComments_pairwise (number : Int) (texts : List Text) :
    (physicalComments number texts).Pairwise fun c d => c.start.line < d.start.line := by
  induction texts generalizing number with
  | nil => exact .nil
  | cons t texts ih =>
    rw [physicalComments, List.pairwise_append]
    refine ⟨?_, ih (number + 1), ?_⟩
    · cases physicalComment? number t with
      | none => exact .nil
      | some c => exact List.pairwise_singleton _ c
    · intro c hc d hd
      obtain ⟨k, -, rfl⟩ := Option.map_eq_some_iff.1 (Option.mem_toList.1 hc)
      have := le_of_mem_physicalComments d hd
      change number < d.start.line
      omega

/-- The comments of a manifest are those of its lines, and each is in the slot that the lines
around it give. -/
structure Placed (lines : List ScannedLine) (texts : List Text) (m : Manifest) : Prop where
  /-- The comments in the order of the text. -/
  comments : m.statements.flatMap Statement.allComments = physicalComments 1 texts
  /-- No comment is kept twice. -/
  sorted : (m.statements.flatMap Statement.allComments).Pairwise fun c d =>
    c.start.line < d.start.line
  slots : given (m.statements.flatMap Statement.placed) = placements [] lines

/-- **Every comment is kept once, in its slot**, in every manifest that was read. -/
theorem read_placed {name text : Text} {m : Manifest} (h : read name text = .ok m) :
    ∃ lines, scanLines 1 text.lines = .ok lines ∧ m.Placed lines text.lines := by
  obtain ⟨lines, statements, d, hlines, hlayout, -, rfl⟩ := read_eq_ok_iff.1 h
  have hslots : placements [] lines = given (statements.flatMap Statement.placed) :=
    placements_of_layout hlayout (numbered_of_scanLines hlines) ⟨rfl, rfl, rfl⟩
  have hcomments : statements.flatMap Statement.allComments = physicalComments 1 text.lines := by
    rw [← filterMap_comment?_of_scanLines hlines, ← map_snd_placements [], hslots, map_snd_given,
      List.map_flatMap]
    rfl
  refine ⟨lines, hlines, hcomments, ?_, hslots.symm⟩
  rw [hcomments]
  exact physicalComments_pairwise 1 text.lines

/-- A comment on its own, one above a block and one on its header, one in a quoted string,
one above a child, and one left for the closing line. -/
theorem read_placed_sample :
    ∃ m lines, read ['m'] (Text.ofString
        "// a\n\n// b\nrequire ( // c\n// d\n\n \"//\" v1 // e\n// f\n)\n") = .ok m ∧
      m.Placed lines (Text.ofString
        "// a\n\n// b\nrequire ( // c\n// d\n\n \"//\" v1 // e\n// f\n)\n").lines := by
  have hread : (read ['m'] (Text.ofString
      "// a\n\n// b\nrequire ( // c\n// d\n\n \"//\" v1 // e\n// f\n)\n")).isOk = true := by
    decide +kernel
  obtain ⟨m, hm⟩ := exists_eq_ok hread
  obtain ⟨lines, -, hplaced⟩ := read_placed hm
  exact ⟨m, lines, hm, hplaced⟩

end Manifest

end ManifestPolicy
