import ManifestPolicy.Proofs.Precedence
import Mathlib.Data.List.Forall2

/-!
# Edited comments

The texts of comments can be edited and the rest of a tree left as it is. A resolution reads
nothing of a comment but the policy that its text names, and of the go entry also the place
of the comment. So edits after which every comment names the same policy keep the resolution.

This holds of any tree. The lines of the entries are related one by one to the lines of the
other tree, and need not be the lines of its statements.

## Main definitions

* `Comment.Edited`, `Line.Edited`, `Statement.Edited`, `Manifest.Edited`: the same but for the
  texts of comments, which may be edited in given ways.

## Main statements

* `Manifest.resolve_congr`: what a resolution depends on.
* `Manifest.Edited.resolve_eq`: edits that keep the policies of comments keep the resolution.
-/

namespace ManifestPolicy

section

variable (E : Text → Text → Prop)

/-- A comment that stays as it is, or whose text is edited. -/
structure Comment.Edited (c c' : Comment) : Prop where
  start : c'.start = c.start
  text : c'.text = c.text ∨ E c.text c'.text

structure Comments.Edited (c c' : Comments) : Prop where
  before : List.Forall₂ (Comment.Edited E) c.before c'.before
  suffix : List.Forall₂ (Comment.Edited E) c.suffix c'.suffix

structure Line.Edited (l l' : Line) : Prop where
  start : l'.start = l.start
  stop : l'.stop = l.stop
  tokens : l'.tokens = l.tokens
  comments : Comments.Edited E l.comments l'.comments
  inBlock : l'.inBlock = l.inBlock

structure Block.Edited (b b' : Block) : Prop where
  start : b'.start = b.start
  stop : b'.stop = b.stop
  tokens : b'.tokens = b.tokens
  lines : List.Forall₂ (Line.Edited E) b.lines b'.lines
  comments : Comments.Edited E b.comments b'.comments
  closing : Comments.Edited E b.closing b'.closing

structure CommentRun.Edited (r r' : CommentRun) : Prop where
  start : r'.start = r.start
  stop : r'.stop = r.stop
  comments : Comments.Edited E r.comments r'.comments

/-- Statements of the same kind that differ in comments alone. -/
inductive Statement.Edited : Statement → Statement → Prop
  | line {l l' : Line} (edited : Line.Edited E l l') : Edited (.line l) (.line l')
  | block {b b' : Block} (edited : Block.Edited E b b') : Edited (.block b) (.block b')
  | comments {r r' : CommentRun} (edited : CommentRun.Edited E r r') :
      Edited (.comments r) (.comments r')

/-- Trees that differ in comments alone. The mark of an indirect requirement is free, since it
is read off a comment. -/
structure Manifest.Edited (m m' : Manifest) : Prop where
  name : m'.name = m.name
  statements : List.Forall₂ (Statement.Edited E) m.statements m'.statements
  module : Option.Rel (fun e e' => e'.path = e.path ∧ Line.Edited E e.line e'.line)
    m.moduleEntry m'.moduleEntry
  go : Option.Rel (fun e e' => e'.version = e.version ∧ Line.Edited E e.line e'.line)
    m.goEntry m'.goEntry
  requirements : List.Forall₂
    (fun r r' => r'.path = r.path ∧ r'.version = r.version ∧ Line.Edited E r.line r'.line)
    m.requirements m'.requirements

end

/-- A resolution depends on the misplaced directive, if there is one, and on the path, the
line number and the policy of each requirement. -/
theorem Manifest.resolve_congr {ns nilPolicy : Text} {m m' : Manifest}
    (hmisplaced : m'.misplaced? ns = m.misplaced? ns)
    (h : List.Forall₂ (fun r r' => r'.path = r.path ∧ r'.line.start.line = r.line.start.line ∧
      m'.effectivePolicy ns nilPolicy r' = m.effectivePolicy ns nilPolicy r)
      m.requirements m'.requirements) :
    m'.resolve ns nilPolicy = m.resolve ns nilPolicy := by
  rw [resolve, resolve, hmisplaced]
  cases m.misplaced? ns with
  | some e => rfl
  | none =>
    refine congrArg Except.ok ?_
    refine (List.rel_foldl (P := Eq) (fun res res' hres r r' hr => ?_) rfl h).symm
    obtain ⟨hpath, hline, hpolicy⟩ := hr
    rw [hres, hpolicy, Resolution.assign, Resolution.assign, Resolution.overwrite?,
      Resolution.overwrite?, hpath, hline]

/-- Related values give the same where what is made of them does. -/
theorem bind_eq_of_rel {α β γ : Type} {p : α → β → Prop} {x : Option α} {y : Option β}
    {f : α → Option γ} {g : β → Option γ} (h : Option.Rel p x y)
    (hfg : ∀ a b, p a b → g b = f a) : y.bind g = x.bind f := by
  cases h with
  | none => rfl
  | some hab => exact hfg _ _ hab

section

variable {E : Text → Text → Prop} {ns : Text}

/-- The places of the comments and the policies they name, of those that name one. -/
def Directive.found (ns : Text) (comments : List Comment) : List (Position × Text) :=
  comments.filterMap fun c => (policy? ns c.text).map fun policy => (c.start, policy)

theorem Directive.map_snd_found (comments : List Comment) :
    (found ns comments).map Prod.snd = policies ns comments := by
  rw [found, policies, List.map_filterMap]
  refine List.filterMap_congr fun c _ => ?_
  cases policy? ns c.text <;> rfl

theorem Comments.Edited.all {c c' : Comments} (h : Comments.Edited E c c') :
    List.Forall₂ (Comment.Edited E) c.all c'.all :=
  List.rel_append h.before h.suffix

variable (hE : ∀ t t', E t t' → Directive.policy? ns t' = Directive.policy? ns t)

include hE

theorem Directive.found_edited {comments comments' : List Comment}
    (h : List.Forall₂ (Comment.Edited E) comments comments') :
    found ns comments' = found ns comments := by
  induction h with
  | nil => rfl
  | @cons c c' _ _ hc _ ih =>
    have hpolicy : policy? ns c'.text = policy? ns c.text := by
      rcases hc.text with htext | htext
      · rw [htext]
      · exact hE _ _ htext
    rw [found, found, List.filterMap_cons, List.filterMap_cons, hpolicy, hc.start]
    cases policy? ns c.text with
    | none => exact ih
    | some policy => exact congrArg ((c.start, policy) :: ·) ih

theorem Comments.Edited.policies_eq {c c' : Comments} (h : Comments.Edited E c c') :
    Directive.policies ns c'.all = Directive.policies ns c.all := by
  rw [← Directive.map_snd_found, ← Directive.map_snd_found, Directive.found_edited hE h.all]

theorem Line.Edited.policy?_eq {l l' : Line} (h : Line.Edited E l l') :
    l'.policy? ns = l.policy? ns := by
  rw [Line.policy?, Line.policy?, h.comments.policies_eq hE]

omit hE in
/-- Blocks are found by line numbers, which no edit changes. -/
theorem enclosingBlock?_edited {l l' : Line} (hl : Line.Edited E l l')
    {statements statements' : List Statement}
    (h : List.Forall₂ (Statement.Edited E) statements statements') :
    Option.Rel (Block.Edited E) (enclosingBlock? l statements)
      (enclosingBlock? l' statements') := by
  induction h with
  | nil => exact .none
  | cons hs _ ih =>
    cases hs with
    | line | comments => exact ih
    | @block b b' edited =>
      have hencloses : b'.encloses l' = b.encloses l := by
        rw [Block.encloses, Block.encloses, edited.start, edited.stop, hl.start, hl.stop]
      rw [enclosingBlock?, enclosingBlock?, hencloses]
      split
      · exact .some edited
      · exact ih

namespace Manifest

variable {m m' : Manifest}

theorem Edited.blockPolicy?_eq (h : Edited E m m') {l l' : Line} (hl : Line.Edited E l l') :
    m'.blockPolicy? ns l' = m.blockPolicy? ns l := by
  have hblock : (enclosingBlock? l' m'.statements).bind (Block.policy? ns) =
      (enclosingBlock? l m.statements).bind (Block.policy? ns) :=
    bind_eq_of_rel (enclosingBlock?_edited hl h.statements) fun b b' edited => by
      rw [Block.policy?, Block.policy?, edited.comments.policies_eq hE]
  rw [blockPolicy?, blockPolicy?, hl.inBlock, hblock]

theorem Edited.defaultPolicy?_eq (h : Edited E m m') :
    m'.defaultPolicy? ns = m.defaultPolicy? ns :=
  bind_eq_of_rel h.module fun _ _ he => he.2.policy?_eq hE

omit hE in
theorem misplaced?_eq_found (m : Manifest) :
    m.misplaced? ns = m.goEntry.bind fun e =>
      (Directive.found ns e.line.comments.all).head?.map fun f => ⟨f.2, f.1, m.name⟩ := by
  rw [misplaced?]
  congr 1
  funext e
  rw [Directive.found, List.head?_filterMap, List.map_findSome?]
  congr 1
  funext c
  rw [Function.comp_apply, Option.map_map]
  rfl

theorem Edited.misplaced?_eq (h : Edited E m m') : m'.misplaced? ns = m.misplaced? ns := by
  rw [misplaced?_eq_found, misplaced?_eq_found, h.name]
  exact bind_eq_of_rel h.go fun _ _ he => by rw [Directive.found_edited hE he.2.comments.all]

/-- Edits that keep the policy of every comment keep the resolution. -/
theorem Edited.resolve_eq (h : Edited E m m') (nilPolicy : Text) :
    m'.resolve ns nilPolicy = m.resolve ns nilPolicy := by
  refine resolve_congr (h.misplaced?_eq hE) (h.requirements.imp fun r r' hr => ?_)
  obtain ⟨hpath, -, hline⟩ := hr
  refine ⟨hpath, by rw [hline.start], ?_⟩
  rw [effectivePolicy, effectivePolicy, hline.policy?_eq hE, h.blockPolicy?_eq hE hline,
    h.defaultPolicy?_eq hE]

end Manifest

end

end ManifestPolicy
