import ManifestPolicy.Manifest.Token

/-!
# Directives in comments

A directive is a field of a comment that starts with a namespace and a colon; the rest of
the field is the policy it names. Other fields may stand around it, and it may carry a
comment marker of its own, so that it can follow another annotation in one comment.

Only the first field of the namespace counts, and a field that names no policy reads as
no directive.

## Main definitions

* `Directive.value?`: what the first field of a namespace names, which may be empty.
* `Directive.policy?`: the policy a comment names.
* `Directive.policies`: the policies some comments name, in order.
-/

namespace ManifestPolicy.Directive

/-- What a field of the namespace starts with. -/
def label (ns : Text) : Text := ns ++ Text.ofString ":"

/-- What a field names, if it is a field of the namespace. -/
def fieldValue? (ns field : Text) : Option Text :=
  Text.dropStart? (label ns) (Text.dropStart commentMarker field)

/-- What the first field of the namespace in a comment names. -/
def value? (ns comment : Text) : Option Text :=
  (Text.fields (Text.dropStart commentMarker comment)).findSome? (fieldValue? ns)

/-- The policy a comment names. -/
def policy? (ns comment : Text) : Option Text :=
  (value? ns comment).filter fun policy => !policy.isEmpty

/-- The policies that some comments name, in order. -/
def policies (ns : Text) (comments : List Comment) : List Text :=
  comments.filterMap fun c => policy? ns c.text

end ManifestPolicy.Directive
