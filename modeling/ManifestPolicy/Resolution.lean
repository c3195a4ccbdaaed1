import ManifestPolicy.Dictionary
import ManifestPolicy.Directive
import ManifestPolicy.Text.Display

/-!
# Resolution

The policy of a requirement is the first that exists of: the last one its own comments
name; the first one that the opening line of its block names; the last one the comments
of the module entry name; and the nil policy, which stands for having none. A requirement
with the nil policy is left out of the result.

When a path is required more than once the last requirement decides, and each change from
one policy to another is recorded as an overwrite. A directive on the go entry applies to
nothing and is refused.

The block of a line is found by its place: it is the first block of the manifest whose
lines include those of the line.

## Main definitions

* `enclosingBlock?`: the block of a line.
* `Manifest.effectivePolicy`: the policy of one requirement.
* `Resolution.assign`: what one requirement does to the result.
* `Manifest.resolve`: the policies of all requirements, or the misplaced directive.
* `Manifest.warnings`: what a resolution warns of on its way.
-/

namespace ManifestPolicy

/-- Whether the lines of a block include those of a line. -/
def Block.encloses (b : Block) (l : Line) : Bool :=
  decide (b.start.line ≤ l.start.line) && decide (l.stop.line ≤ b.stop.line)

/-- Whether a statement is a block whose lines include those of a line. -/
def Statement.encloses (l : Line) : Statement → Bool
  | .block b => b.encloses l
  | .line _ => false
  | .comments _ => false

/-- The index of the first block whose lines include those of a line. -/
def enclosingIndex? (statements : List Statement) (l : Line) : Option Nat :=
  statements.findIdx? (Statement.encloses l)

/-- The first block whose lines include those of a line. -/
def enclosingBlock? (l : Line) : List Statement → Option Block
  | [] => none
  | .block b :: rest => if b.encloses l then some b else enclosingBlock? l rest
  | .line _ :: rest => enclosingBlock? l rest
  | .comments _ :: rest => enclosingBlock? l rest

/-- The policy that the opening line of a block names: the first one. -/
def Block.policy? (ns : Text) (b : Block) : Option Text :=
  (Directive.policies ns b.comments.all).head?

/-- The policy that the comments of a line name: the last one. -/
def Line.policy? (ns : Text) (l : Line) : Option Text :=
  (Directive.policies ns l.comments.all).getLast?

/-- The policy a line takes from its block, if it stands in one. -/
def Manifest.blockPolicy? (ns : Text) (m : Manifest) (l : Line) : Option Text :=
  if l.inBlock then (enclosingBlock? l m.statements).bind (Block.policy? ns) else none

/-- The policy the module entry names for every requirement. -/
def Manifest.defaultPolicy? (ns : Text) (m : Manifest) : Option Text :=
  m.moduleEntry.bind fun e => e.line.policy? ns

/-- The policy of a requirement. -/
def Manifest.effectivePolicy (ns nilPolicy : Text) (m : Manifest) (r : Requirement) : Text :=
  ((r.line.policy? ns).or ((m.blockPolicy? ns r.line).or (m.defaultPolicy? ns))).getD nilPolicy

/-- A requirement that changed the policy of its path. -/
structure Overwrite where
  path : Text
  old : Text
  new : Text
  /-- The line of the requirement. -/
  line : Int
deriving DecidableEq

/-- The wording of an overwrite. -/
def Overwrite.message (o : Overwrite) : Text :=
  Text.ofString "overwriting an existing policy for " ++ o.path ++ Text.ofString ": " ++
    o.old.display ++ Text.ofString " -> " ++ o.new.display ++ Text.ofString " (line " ++
    Text.ofInt o.line ++ Text.ofString ")"

/-- The policies of the required paths, and the overwrites in order. -/
structure Resolution where
  policies : Dictionary Text
  overwrites : List Overwrite
deriving DecidableEq

/-- No path has a policy. -/
def Resolution.empty : Resolution := ⟨.empty, []⟩

/-- The overwrite that giving a policy to a requirement is, if it is one. -/
def Resolution.overwrite? (res : Resolution) (r : Requirement) (policy : Text) :
    Option Overwrite :=
  match res.policies.get? r.path with
  | none => none
  | some old => if old = policy then none else some ⟨r.path, old, policy, r.line.start.line⟩

/-- Gives a requirement its policy. The nil policy takes its path out of the result. -/
def Resolution.assign (nilPolicy : Text) (res : Resolution) (r : Requirement)
    (policy : Text) : Resolution where
  policies :=
    if policy = nilPolicy then res.policies.erase r.path
    else res.policies.insert r.path policy
  overwrites := res.overwrites ++ (res.overwrite? r policy).toList

/-- A directive on the go entry, where none may stand. -/
structure MisplacedDirective where
  policy : Text
  position : Position
  /-- The name of the manifest, or nothing. -/
  name : Text
deriving DecidableEq

/-- The wording of a misplaced directive. -/
def MisplacedDirective.message (e : MisplacedDirective) : Text :=
  let place :=
    if e.name = [] then e.position.message
    else e.name ++ Text.ofString ":" ++ e.position.message
  Text.ofString "policy " ++ e.policy.display ++
    Text.ofString " is specified in an invalid position (" ++ place ++ Text.ofString ")"

/-- The first directive on the go entry. -/
def Manifest.misplaced? (ns : Text) (m : Manifest) : Option MisplacedDirective :=
  m.goEntry.bind fun e =>
    e.line.comments.all.findSome? fun c =>
      (Directive.policy? ns c.text).map fun policy => ⟨policy, c.start, m.name⟩

/-- The policies of all requirements, which take effect in order. -/
def Manifest.resolve (ns nilPolicy : Text) (m : Manifest) :
    Except MisplacedDirective Resolution :=
  match m.misplaced? ns with
  | some e => .error e
  | none =>
    .ok (m.requirements.foldl
      (fun res r => res.assign nilPolicy r (m.effectivePolicy ns nilPolicy r)) .empty)

/-- The warnings of a run over some requirements, each given out when the requirement it is
about takes effect. -/
def Resolution.warnings (nilPolicy : Text) (policyOf : Requirement → Text) (res : Resolution) :
    List Requirement → List Text
  | [] => []
  | r :: rest =>
    ((res.overwrite? r (policyOf r)).map Overwrite.message).toList ++
      warnings nilPolicy policyOf (res.assign nilPolicy r (policyOf r)) rest

/-- The warnings of a manifest. There are none where it is refused. -/
def Manifest.warnings (ns nilPolicy : Text) (m : Manifest) : List Text :=
  match m.misplaced? ns with
  | some _ => []
  | none => Resolution.empty.warnings nilPolicy (m.effectivePolicy ns nilPolicy) m.requirements

end ManifestPolicy
