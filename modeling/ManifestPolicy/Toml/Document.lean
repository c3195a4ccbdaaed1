import ManifestPolicy.Toml.Scalar
import ManifestPolicy.Toml.Table

/-!
# TOML documents

A document is a list of statements, one on a line: a header, which says where the keys
after it belong, or a key with its value. Values nest, and so do the readers of this
module; they end because each value starts after the bracket or key it stands behind.

A document with a fault anywhere has no value at all. What stops the reader first counts: a
fault, or a limit that it reaches before any fault.

## Main definitions

* `value`: reads a value of any kind.
* `Document`, `statement`: the tables read so far, and what one statement adds.
* `parse`: the table a document describes.
-/

namespace ManifestPolicy.Toml

/-- Reads one of the two words for truth values. -/
def boolean? : (s : Text) → Option (Cut s Value)
  | [] => none
  | c :: t =>
    if Text.startsWith (Text.ofString "true") (c :: t) then
      some (Cut.take c t 4 (.boolean true))
    else if Text.startsWith (Text.ofString "false") (c :: t) then
      some (Cut.take c t 5 (.boolean false))
    else none

/-- Reads a key and the sign between it and its value. -/
def keySign? (s : Text) : Option (Cut s (List Text × Text)) :=
  (key? s).bind fun key => (key.expect? '=').map Cut.skipBlanks

mutual

/-- Reads a value inside the brackets that are open. Its first code point decides its kind. -/
def value (limits : Limits) (outer : List CodePoint) (s : Text) : Except Fault (Cut s Value) :=
  if limits.room outer s then
    match s with
    | [] => .error .invalid
    | c :: t =>
      if c = quotation || c = apostrophe then
        orInvalid ((string? (c :: t)).map (Cut.map Value.string))
      else if c = '[' then
        (items limits (c :: outer) t).map fun items => (items.behind c).map Value.array
      else if c = '\x7b' then
        if (skipBlanks t).head? = some ('\x7d' : CodePoint) then
          orInvalid (((Cut.head c (Value.table [])).skipBlanks).expect? '\x7d')
        else (members limits (c :: outer) (skipBlanks t) []).map fun members =>
          ((members.widen (length_skipBlanks t)).behind c).map fun nodes =>
            Value.table (toEntries nodes)
      else
        match boolean? (c :: t) with
        | some truth => .ok truth
        | none => scalar limits (c :: t)
  else .error (.excess .nesting)
termination_by 2 * s.length
decreasing_by
  · simp only [List.length_cons]
    omega
  · have := length_skipBlanks t
    simp only [List.length_cons]
    omega

/-- Reads the items of an array from the place of the next one, and the closing bracket. -/
def items (limits : Limits) (outer : List CodePoint) (s : Text) :
    Except Fault (Cut s (List Value)) :=
  match h : skipSpace? s with
  | none => .error .invalid
  | some start =>
    have hstart : start.length ≤ s.length := length_skipSpace? h
    match start with
    | [] => .error .invalid
    | c :: t =>
      if c = ']' then .ok ((Cut.head c []).widen hstart)
      else
        match value limits outer (c :: t) with
        | .error fault => .error fault
        | .ok item =>
          match item.skipSpace? with
          | none => .error .invalid
          | some item =>
            match item.expect? ',' with
            | some comma =>
              (items limits outer comma.rest).map fun more =>
                ((comma.follow more).widen hstart).map (comma.value :: ·)
            | none =>
              orInvalid ((item.expect? ']').map fun last =>
                (last.widen hstart).map fun v => [v])
termination_by 2 * s.length + 1
decreasing_by
  · omega
  · have := comma.shorter
    omega

/-- Reads the members of a table written as a value, and its closing brace. -/
def members (limits : Limits) (outer : List CodePoint) (s : Text) (nodes : Nodes) :
    Except Fault (Cut s Nodes) :=
  match keySign? s with
  | none => .error .invalid
  | some key =>
    match value limits outer key.rest with
    | .error fault => .error fault
    | .ok v =>
      match assignDotted? 0 key.value.1 key.value.2 v.value nodes with
      | none => .error .invalid
      | some nodes =>
        let member := (key.follow v).skipBlanks.map fun _ => nodes
        match member.expect? ',' with
        | some comma =>
          (members limits outer comma.skipBlanks.rest nodes).map fun more =>
            comma.skipBlanks.follow more
        | none => orInvalid (member.expect? '\x7d')
termination_by 2 * s.length + 1
decreasing_by
  · have := key.shorter
    omega
  · have := comma.skipBlanks.shorter
    omega

end

/-- The tables read so far. -/
structure Document where
  nodes : Nodes := []
  /-- The table that keys belong to. -/
  header : List Text := []
  /-- How many headers were read. -/
  part : Nat := 0

/-- Reads the header of a table. -/
def tableHeader? (s : Text) (d : Document) : Option (Cut s Document) :=
  match (key? (skipBlanks s)).bind fun key => key.expect? ']' with
  | none => none
  | some key =>
    (declareTable? key.value.1 key.value.2 d.nodes).map fun nodes =>
      (key.map fun k => ⟨nodes, k.1 ++ [k.2], d.part + 1⟩).widen (length_skipBlanks s)

/-- Reads the header of one more table of an array. -/
def itemHeader? (s : Text) (d : Document) : Option (Cut s Document) :=
  match ((key? (skipBlanks s)).bind fun key => key.expect? ']').bind
    fun key => key.expect? ']' with
  | none => none
  | some key =>
    (declareItem? key.value.1 key.value.2 d.nodes).map fun nodes =>
      (key.map fun k => ⟨nodes, k.1 ++ [k.2], d.part + 1⟩).widen (length_skipBlanks s)

/-- Reads a header after its first bracket. -/
def header? (s : Text) (d : Document) : Option (Cut s Document) :=
  match s with
  | [] => none
  | c :: t =>
    if c = '[' then (itemHeader? t d).map (Cut.behind c) else tableHeader? (c :: t) d

/-- Reads a key with its value. -/
def pair (limits : Limits) (s : Text) (d : Document) : Except Fault (Cut s Document) :=
  match keySign? s with
  | none => .error .invalid
  | some key =>
    match value limits [] key.rest with
    | .error fault => .error fault
    | .ok v =>
      orInvalid ((assign? d.part d.header key.value.1 key.value.2 v.value d.nodes).map
        fun nodes => (key.follow v).map fun _ => { d with nodes := nodes })

/-- Reads a statement. -/
def statement (limits : Limits) (s : Text) (d : Document) : Except Fault (Cut s Document) :=
  match s with
  | [] => .error .invalid
  | c :: t =>
    if c = '[' then orInvalid ((header? t d).map (Cut.behind c))
    else if isBare c || c = quotation || c = apostrophe then pair limits (c :: t) d
    else .error .invalid

/-- Skips what may follow a statement on its line. Another statement may not. -/
def endOfLine? (s : Text) : Option Text :=
  match skipComment? (skipBlanks s) with
  | none => none
  | some [] => some []
  | some (c :: t) => if c = '\n' then some (c :: t) else none

theorem length_endOfLine? {s rest : Text} (h : endOfLine? s = some rest) :
    rest.length ≤ s.length := by
  have hs := length_skipBlanks s
  simp only [endOfLine?] at h
  split at h
  · simp at h
  · cases h
    exact Nat.zero_le _
  · next c t hc =>
    have := length_skipComment? hc
    split at h
    · cases h
      omega
    · simp at h

/-- Reads the lines of a document. -/
def document (limits : Limits) (d : Document) (s : Text) : Except Fault Document :=
  match _hs : skipBlanks s with
  | [] => .ok d
  | c :: t =>
    if c = '\n' then document limits d t
    else if c = '#' then
      match _hr : endOfLine? (c :: t) with
      | none => .error .invalid
      | some [] => .ok d
      | some (_ :: rest) => document limits d rest
    else
      match statement limits (c :: t) d with
      | .error fault => .error fault
      | .ok cut =>
        match _hr : endOfLine? cut.rest with
        | none => .error .invalid
        | some rest => document limits cut.value rest
termination_by s.length
decreasing_by
  · have := length_skipBlanks s
    rw [_hs, List.length_cons] at this
    omega
  · have := length_skipBlanks s
    have := length_endOfLine? _hr
    simp only [_hs, List.length_cons] at *
    omega
  · have := length_skipBlanks s
    have := length_endOfLine? _hr
    have := cut.shorter
    simp only [_hs, List.length_cons] at *
    omega

/-- A carriage return with a line feed after it counts as the line feed. A carriage return
alone is no end of a line, and may stand nowhere. -/
def dropReturns : Text → Text
  | [] => []
  | c :: t =>
    if c = '\r' && t.head? = some ('\n' : CodePoint) then dropReturns t
    else c :: dropReturns t

/-- The entries of the table that a document describes. -/
def parse (limits : Limits) (t : Text) : Except Fault (List (Text × Value)) :=
  (document limits {} (dropReturns t)).map fun d => toEntries d.nodes

end ManifestPolicy.Toml
