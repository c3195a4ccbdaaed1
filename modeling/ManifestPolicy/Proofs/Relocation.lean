import ManifestPolicy.Proofs.Grammar
import ManifestPolicy.Resolution
import Mathlib.Data.List.Basic

/-!
# Other places

A text can be laid out in another way: its lines can stand further down, and the tokens of a line
at other columns. What is read from it is then the same tree at other places. A relocation is a
function on places, applied to all places of a tree.

What a tree declares does not depend on its places, except that a fault is found at one. A
resolution depends on them in one respect: the block of a line is found by comparing line numbers.
So it is kept by a relocation that keeps the order of the lines, and the columns do not matter.

## Main definitions

* `Manifest.relocate`: a manifest at other places, and its parts likewise.
* `Resolution.renumber`: a resolution whose overwrites are on other lines.

## Main statements

* `declarations_relocate`: statements at other places declare the same, at other places.
* `Manifest.resolve_relocate`: a manifest at other places resolves to the same, on other lines.
-/

namespace ManifestPolicy

section

variable (g : Position → Position)

def Comment.relocate (c : Comment) : Comment := ⟨g c.start, c.text⟩

def Comments.relocate (c : Comments) : Comments :=
  ⟨c.before.map (Comment.relocate g), c.suffix.map (Comment.relocate g)⟩

def Line.relocate (l : Line) : Line :=
  ⟨g l.start, g l.stop, l.tokens, l.comments.relocate g, l.inBlock⟩

def Block.relocate (b : Block) : Block :=
  ⟨g b.start, g b.stop, b.tokens, b.lines.map (Line.relocate g), b.comments.relocate g,
    b.closing.relocate g⟩

def CommentRun.relocate (r : CommentRun) : CommentRun :=
  ⟨g r.start, g r.stop, r.comments.relocate g⟩

/-- A statement at other places. -/
def Statement.relocate : Statement → Statement
  | .line l => .line (l.relocate g)
  | .block b => .block (b.relocate g)
  | .comments r => .comments (r.relocate g)

def ModuleEntry.relocate (e : ModuleEntry) : ModuleEntry := ⟨e.path, e.line.relocate g⟩

def GoEntry.relocate (e : GoEntry) : GoEntry := ⟨e.version, e.line.relocate g⟩

def Requirement.relocate (r : Requirement) : Requirement :=
  ⟨r.path, r.version, r.line.relocate g, r.indirect⟩

/-- A manifest at other places. -/
def Manifest.relocate (m : Manifest) : Manifest :=
  ⟨m.name, m.statements.map (Statement.relocate g), m.moduleEntry.map (ModuleEntry.relocate g),
    m.goEntry.map (GoEntry.relocate g), m.requirements.map (Requirement.relocate g)⟩

def MisplacedDirective.relocate (e : MisplacedDirective) : MisplacedDirective :=
  ⟨e.policy, g e.position, e.name⟩

namespace Manifest

def Entry.relocate (e : Entry) : Entry := ⟨e.verb, e.arguments, e.line.relocate g⟩

/-- Declarations at other places. -/
def Declarations.relocate (d : Declarations) : Declarations :=
  ⟨d.moduleEntry.map (ModuleEntry.relocate g), d.goEntry.map (GoEntry.relocate g),
    d.requirements.map (Requirement.relocate g)⟩

def Fault.relocate (f : Fault) : Fault := ⟨f.reason, g f.position⟩

def Token.relocate (t : Token) : Token := ⟨t.text, g t.start, g t.stop⟩

/-- A line with tokens at other places. -/
def TokenLine.relocate (l : TokenLine) : TokenLine :=
  ⟨l.first.relocate g, l.rest.map (Token.relocate g), l.comment.map (Comment.relocate g)⟩

end Manifest

/-- Directives are found in the texts of comments alone. -/
theorem Directive.policies_relocate (ns : Text) (comments : List Comment) :
    policies ns (comments.map (Comment.relocate g)) = policies ns comments := by
  rw [policies, policies, List.filterMap_map]
  rfl

theorem Comments.all_relocate (c : Comments) :
    (c.relocate g).all = c.all.map (Comment.relocate g) :=
  List.map_append.symm

@[simp] theorem Line.policy?_relocate (ns : Text) (l : Line) :
    (l.relocate g).policy? ns = l.policy? ns := by
  rw [policy?, relocate, Comments.all_relocate, Directive.policies_relocate]
  rfl

@[simp] theorem Block.policy?_relocate (ns : Text) (b : Block) :
    (b.relocate g).policy? ns = b.policy? ns := by
  rw [policy?, relocate, Comments.all_relocate, Directive.policies_relocate]
  rfl

theorem Line.isIndirect_relocate (l : Line) : (l.relocate g).isIndirect = l.isIndirect := by
  rw [isIndirect, isIndirect, relocate, Comments.relocate]
  cases l.comments.suffix with
  | nil => rfl
  | cons c rest => rfl

namespace Manifest

theorem TokenLine.tokens_relocate (l : TokenLine) :
    (l.relocate g).tokens = l.tokens.map (Token.relocate g) := rfl

theorem TokenLine.text_tokens_relocate (l : TokenLine) :
    (l.relocate g).tokens.map Token.text = l.tokens.map Token.text := by
  rw [tokens_relocate, List.map_map]
  rfl

theorem TokenLine.suffix_relocate (l : TokenLine) :
    (l.relocate g).suffix = l.suffix.map (Comment.relocate g) := by
  rw [suffix, suffix, relocate]
  cases l.comment with
  | none => rfl
  | some c => rfl

theorem TokenLine.last_relocate (l : TokenLine) : (l.relocate g).last = l.last.relocate g := by
  rw [last, last, relocate, List.getLastD_eq_getLast?, List.getLastD_eq_getLast?,
    List.getLast?_map]
  cases l.rest.getLast? with
  | none => rfl
  | some t => rfl

theorem TokenLine.toLine_relocate (l : TokenLine) (above : List Comment) (inBlock : Bool) :
    (l.relocate g).toLine (above.map (Comment.relocate g)) inBlock =
      (l.toLine above inBlock).relocate g := by
  rw [toLine, toLine, last_relocate, suffix_relocate, text_tokens_relocate]
  rfl

theorem TokenLine.toBlock_relocate (header : TokenLine) (above : List Comment)
    (children : List Line) (left : List Comment) (closing : TokenLine) :
    (header.relocate g).toBlock (above.map (Comment.relocate g))
        (children.map (Line.relocate g)) (left.map (Comment.relocate g)) (closing.relocate g) =
      (header.toBlock above children left closing).relocate g := by
  rw [toBlock, toBlock, suffix_relocate, suffix_relocate]
  rfl

theorem TokenLine.toEmptyBlock_relocate (header : TokenLine) (above : List Comment)
    (closing : Token) :
    (header.relocate g).toEmptyBlock (above.map (Comment.relocate g)) (closing.relocate g) =
      (header.toEmptyBlock above closing).relocate g := by
  rw [toEmptyBlock, toEmptyBlock, suffix_relocate]
  rfl

theorem getLastD_relocate (first : Comment) (rest : List Comment) :
    (rest.map (Comment.relocate g)).getLastD (first.relocate g) =
      (rest.getLastD first).relocate g := by
  rw [List.getLastD_eq_getLast?, List.getLastD_eq_getLast?, List.getLast?_map]
  cases rest.getLast? with
  | none => rfl
  | some c => rfl

theorem entriesOf_relocate (s : Statement) :
    entriesOf (s.relocate g) = (entriesOf s).map (Entry.relocate g) := by
  cases s with
  | line l =>
    cases htokens : l.tokens with
    | nil => simp [entriesOf, Statement.relocate, Line.relocate, htokens]
    | cons verb arguments =>
      simp [entriesOf, Statement.relocate, Line.relocate, Entry.relocate, htokens]
  | block b =>
    cases htokens : b.tokens with
    | nil => simp [entriesOf, Statement.relocate, Block.relocate, htokens]
    | cons verb rest =>
      simp only [entriesOf, Statement.relocate, Block.relocate, htokens, List.map_map]
      rfl
  | comments r => rfl

theorem flatMap_entriesOf_relocate (statements : List Statement) :
    (statements.map (Statement.relocate g)).flatMap entriesOf =
      (statements.flatMap entriesOf).map (Entry.relocate g) := by
  rw [List.flatMap_map, List.map_flatMap]
  exact List.flatMap_congr fun s _ => entriesOf_relocate g s

/-- The same outcome at other places. -/
def relocated (x : Except Fault Declarations) : Except Fault Declarations :=
  (x.map (Declarations.relocate g)).mapError (Fault.relocate g)

theorem relocated_eq_ok_iff {x : Except Fault Declarations} {d : Declarations} :
    relocated g x = .ok d ↔ ∃ d₀, x = .ok d₀ ∧ d₀.relocate g = d := by
  rw [relocated, mapError_eq_ok_iff]
  cases x with
  | error f => simp [Except.map]
  | ok d₀ => simp [Except.map]

theorem unquote_relocate (p : Position) (token : Text) :
    unquote (g p) token = (unquote p token).mapError (Fault.relocate g) := by
  cases token with
  | nil => rfl
  | cons c t =>
    rw [unquote, unquote]
    split_ifs
    · rfl
    · cases Quoted.decode? (c :: t) <;> rfl
    · rfl

theorem Declarations.addModule_relocate (d : Declarations) (e : Entry) :
    (d.relocate g).addModule (e.relocate g) = relocated g (d.addModule e) := by
  obtain ⟨moduleEntry, goEntry, requirements⟩ := d
  cases moduleEntry with
  | some x => rfl
  | none =>
    obtain ⟨verb, arguments, line⟩ := e
    match arguments with
    | [] => rfl
    | [path] =>
      have hunquote := unquote_relocate g line.start path
      simp only [addModule, relocate, Entry.relocate, Line.relocate, Option.map_none,
        Option.isSome_none, Bool.false_eq_true, if_false, hunquote]
      cases unquote line.start path <;> rfl
    | _ :: _ :: _ => rfl

theorem Declarations.addGo_relocate (d : Declarations) (e : Entry) :
    (d.relocate g).addGo (e.relocate g) = relocated g (d.addGo e) := by
  obtain ⟨moduleEntry, goEntry, requirements⟩ := d
  cases goEntry with
  | some x => rfl
  | none =>
    obtain ⟨verb, arguments, line⟩ := e
    match arguments with
    | [] => rfl
    | [version] => rfl
    | _ :: _ :: _ => rfl

theorem Declarations.addRequire_relocate (d : Declarations) (e : Entry) :
    (d.relocate g).addRequire (e.relocate g) = relocated g (d.addRequire e) := by
  obtain ⟨verb, arguments, line⟩ := e
  match arguments with
  | [] => rfl
  | [_] => rfl
  | [path, version] =>
    have hpath := unquote_relocate g line.start path
    have hversion := unquote_relocate g line.start version
    have hindirect := line.isIndirect_relocate g
    rw [Line.relocate] at hindirect
    simp only [addRequire, relocate, Entry.relocate, Line.relocate, hpath, hversion, hindirect]
    cases unquote line.start path with
    | error f => rfl
    | ok p =>
      cases unquote line.start version with
      | error f => rfl
      | ok v =>
        simp [relocated, Except.map, Except.mapError, bind, Except.bind, pure, Except.pure,
          Declarations.relocate, Requirement.relocate, Line.relocate]
  | _ :: _ :: _ :: _ => rfl

/-- An entry at another place is added in the same way. -/
theorem Declarations.add_relocate (d : Declarations) (e : Entry) :
    (d.relocate g).add (e.relocate g) = relocated g (d.add e) := by
  have hverb : (e.relocate g).verb = e.verb := rfl
  rw [add, add, hverb]
  split_ifs
  · exact addModule_relocate g d e
  · exact addGo_relocate g d e
  · exact addRequire_relocate g d e
  · rfl

theorem foldlM_add_relocate (entries : List Entry) (d : Declarations) :
    (entries.map (Entry.relocate g)).foldlM Declarations.add (d.relocate g) =
      relocated g (entries.foldlM Declarations.add d) := by
  induction entries generalizing d with
  | nil => rfl
  | cons e entries ih =>
    rw [List.map_cons, List.foldlM_cons, List.foldlM_cons, Declarations.add_relocate]
    cases d.add e with
    | error f => rfl
    | ok d' => exact ih d'

/-- **Statements at other places declare the same**, and the fault of statements that declare
nothing is at another place. -/
theorem declarations_relocate (statements : List Statement) :
    declarations (statements.map (Statement.relocate g)) =
      relocated g (declarations statements) := by
  rw [declarations, declarations, flatMap_entriesOf_relocate]
  exact foldlM_add_relocate g _ {}

end Manifest

end

section

variable (f : Int → Int)

/-- An overwrite on another line. -/
def Overwrite.renumber (o : Overwrite) : Overwrite := ⟨o.path, o.old, o.new, f o.line⟩

/-- A resolution whose overwrites are on other lines. -/
def Resolution.renumber (res : Resolution) : Resolution :=
  ⟨res.policies, res.overwrites.map (Overwrite.renumber f)⟩

theorem Resolution.renumber_id : renumber id = id := by
  funext res
  change (⟨res.policies, res.overwrites.map id⟩ : Resolution) = res
  rw [List.map_id]

end

section

variable {f : Int → Int} {g : Position → Position}

theorem Manifest.misplaced?_relocate (g : Position → Position) (m : Manifest) (ns : Text) :
    (m.relocate g).misplaced? ns = (m.misplaced? ns).map (MisplacedDirective.relocate g) := by
  rw [misplaced?, misplaced?, relocate]
  cases m.goEntry with
  | none => rfl
  | some e =>
    simp only [Option.map_some, Option.bind_some, GoEntry.relocate, Line.relocate,
      Comments.all_relocate, List.findSome?_map, List.map_findSome?]
    refine congrArg (fun find => List.findSome? find e.line.comments.all) (funext fun c => ?_)
    simp only [Function.comp_apply, Option.map_map]
    rfl

theorem Resolution.assign_relocate (hg : ∀ p, (g p).line = f p.line) (nilPolicy : Text)
    (res : Resolution) (r : Requirement) (policy : Text) :
    (res.renumber f).assign nilPolicy (r.relocate g) policy =
      (res.assign nilPolicy r policy).renumber f := by
  have hoverwrite : (res.renumber f).overwrite? (r.relocate g) policy =
      (res.overwrite? r policy).map (Overwrite.renumber f) := by
    rw [overwrite?, overwrite?]
    simp only [renumber, Requirement.relocate, Line.relocate, hg]
    cases res.policies.get? r.path with
    | none => rfl
    | some old => by_cases hold : old = policy <;> simp [hold, Overwrite.renumber]
  rw [assign, assign, hoverwrite]
  simp only [renumber, Requirement.relocate, List.map_append, Option.toList_map]

/-- A run over requirements at other places comes to the same, on other lines. -/
theorem foldl_assign_relocate (hg : ∀ p, (g p).line = f p.line) (nilPolicy : Text)
    {policyOf policyOf' : Requirement → Text} (requirements : List Requirement)
    (hpolicy : ∀ r, policyOf' (r.relocate g) = policyOf r) (res : Resolution) :
    (requirements.map (Requirement.relocate g)).foldl
        (fun res r => res.assign nilPolicy r (policyOf' r)) (res.renumber f) =
      (requirements.foldl (fun res r => res.assign nilPolicy r (policyOf r)) res).renumber f := by
  induction requirements generalizing res with
  | nil => rfl
  | cons r requirements ih =>
    rw [List.map_cons, List.foldl_cons, List.foldl_cons, hpolicy,
      Resolution.assign_relocate hg, ih]

variable (hg : ∀ p, (g p).line = f p.line) (hf : ∀ a b, f a ≤ f b ↔ a ≤ b)

include hg hf

theorem Block.encloses_relocate (b : Block) (l : Line) :
    (b.relocate g).encloses (l.relocate g) = b.encloses l := by
  simp only [encloses, relocate, Line.relocate, hg, hf]

/-- The block around a line stays the block around it. -/
theorem enclosingBlock?_relocate (l : Line) (statements : List Statement) :
    enclosingBlock? (l.relocate g) (statements.map (Statement.relocate g)) =
      (enclosingBlock? l statements).map (Block.relocate g) := by
  induction statements with
  | nil => rfl
  | cons s statements ih =>
    cases s with
    | line x => exact ih
    | comments r => exact ih
    | block b =>
      rw [List.map_cons, Statement.relocate, enclosingBlock?, enclosingBlock?,
        Block.encloses_relocate hg hf, ih]
      split
      · rfl
      · rfl

namespace Manifest

theorem blockPolicy?_relocate (ns : Text) (m : Manifest) (l : Line) :
    (m.relocate g).blockPolicy? ns (l.relocate g) = m.blockPolicy? ns l := by
  have hinBlock : (l.relocate g).inBlock = l.inBlock := rfl
  rw [blockPolicy?, blockPolicy?, hinBlock, relocate, enclosingBlock?_relocate hg hf]
  cases enclosingBlock? l m.statements with
  | none => rfl
  | some b => simp

theorem effectivePolicy_relocate (ns nilPolicy : Text) (m : Manifest) (r : Requirement) :
    (m.relocate g).effectivePolicy ns nilPolicy (r.relocate g) =
      m.effectivePolicy ns nilPolicy r := by
  have hdefault : (m.relocate g).defaultPolicy? ns = m.defaultPolicy? ns := by
    rw [defaultPolicy?, defaultPolicy?, relocate]
    cases m.moduleEntry with
    | none => rfl
    | some e => exact e.line.policy?_relocate g ns
  have hline : (r.relocate g).line = r.line.relocate g := rfl
  rw [effectivePolicy, effectivePolicy, hdefault, hline, Line.policy?_relocate,
    blockPolicy?_relocate hg hf]

/-- **A manifest at other places resolves to the same**, where the order of its lines is kept: its
paths have the same policies, its overwrites are on other lines, and a misplaced directive is at
another place. -/
theorem resolve_relocate (ns nilPolicy : Text) (m : Manifest) :
    (m.relocate g).resolve ns nilPolicy =
      ((m.resolve ns nilPolicy).map (Resolution.renumber f)).mapError
        (MisplacedDirective.relocate g) := by
  rw [resolve, resolve, misplaced?_relocate]
  cases m.misplaced? ns with
  | some e => rfl
  | none =>
    exact congrArg Except.ok (foldl_assign_relocate hg nilPolicy m.requirements
      (effectivePolicy_relocate hg hf ns nilPolicy m) .empty)

end Manifest

end

end ManifestPolicy
