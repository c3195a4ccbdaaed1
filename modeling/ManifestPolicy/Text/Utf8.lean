import ManifestPolicy.Text.Basic

/-!
# UTF-8

Strict reading of octets as text: no overlong forms, no surrogates, nothing above
U+10FFFF. The first fault ends the reading and is reported with the octets it covers.

Reading takes one octet at a time. Between octets it holds either nothing or a sequence
that is valid so far, together with the range the next octet has to lie in; all the rules
about overlong forms and surrogates are limits on the second octet.

## Main definitions

* `Utf8.encode`: the octets of a text.
* `Utf8.decode`: the text of octets, or the first fault.
* `Utf8.Fault.message`: the wording of a fault.
-/

namespace ManifestPolicy.Utf8

/-- The octets of a code point. Surrogates, which have no encoding, are written like any
other code point of their size. -/
def encodePoint (c : CodePoint) : List UInt8 :=
  let trail (n : Nat) : UInt8 := UInt8.ofNat (0x80 + n % 0x40)
  if c.val < 0x80 then [UInt8.ofNat c.val]
  else if c.val < 0x800 then [UInt8.ofNat (0xC0 + c.val / 0x40), trail c.val]
  else if c.val < 0x10000 then
    [UInt8.ofNat (0xE0 + c.val / 0x1000), trail (c.val / 0x40), trail c.val]
  else
    [UInt8.ofNat (0xF0 + c.val / 0x40000), trail (c.val / 0x1000), trail (c.val / 0x40),
      trail c.val]

/-- The octets of a text. -/
def encode (t : Text) : List UInt8 := t.flatMap encodePoint

/-- Why octets are not UTF-8. -/
inductive Reason
  /-- An octet that begins no sequence. -/
  | invalidStart
  /-- A sequence whose next octet cannot continue it. -/
  | invalidContinuation
  /-- A sequence cut off by the end of the octets. -/
  | unexpectedEnd
deriving DecidableEq

/-- The first fault in a list of octets. -/
structure Fault where
  reason : Reason
  /-- The offset of the first octet at fault. -/
  start : Nat
  /-- How many octets are at fault. -/
  count : Nat
  /-- The first octet at fault. -/
  octet : UInt8
deriving DecidableEq

/-- The wording of a reason. -/
def Reason.message : Reason → Text
  | .invalidStart => "invalid start byte"
  | .invalidContinuation => "invalid continuation byte"
  | .unexpectedEnd => "unexpected end of data"

/-- The wording of a fault. One octet is shown by its value, several by their offsets. -/
def Fault.message (f : Fault) : Text :=
  let span : Text :=
    if f.count = 1 then
      Text.ofString " byte 0x" ++ Text.hexDigits 2 f.octet.toNat ++
        Text.ofString " in position " ++ Text.ofInt f.start
    else
      Text.ofString " bytes in position " ++ Text.ofInt f.start ++ Text.ofString "-" ++
        Text.ofInt (f.start + f.count - 1)
  Text.ofString "'utf-8' codec can't decode" ++ span ++ Text.ofString ": " ++ f.reason.message

/-- A sequence that has begun and is not complete. -/
structure OpenSequence where
  /-- The octet that began it. -/
  lead : UInt8
  /-- The bits read so far. -/
  bits : Nat
  /-- How many octets were read. -/
  seen : Nat
  /-- How many octets are still to come after the next one. -/
  more : Nat
  /-- The bounds of the next octet. -/
  low : Nat
  high : Nat

/-- The sequence a leading octet begins, if it begins one of several octets. The bounds on
the second octet leave out overlong forms, surrogates and numbers that are too large. -/
def lead? (b : UInt8) : Option OpenSequence :=
  let n := b.toNat
  if n < 0xC2 then none
  else if n < 0xE0 then some ⟨b, n - 0xC0, 1, 0, 0x80, 0xBF⟩
  else if n = 0xE0 then some ⟨b, 0, 1, 1, 0xA0, 0xBF⟩
  else if n = 0xED then some ⟨b, 0xD, 1, 1, 0x80, 0x9F⟩
  else if n < 0xF0 then some ⟨b, n - 0xE0, 1, 1, 0x80, 0xBF⟩
  else if n = 0xF0 then some ⟨b, 0, 1, 2, 0x90, 0xBF⟩
  else if n < 0xF4 then some ⟨b, n - 0xF0, 1, 2, 0x80, 0xBF⟩
  else if n = 0xF4 then some ⟨b, 4, 1, 2, 0x80, 0x8F⟩
  else none

/-- The fault of a sequence that does not go on before offset `offset`. -/
def OpenSequence.fault (p : OpenSequence) (reason : Reason) (offset : Nat) : Fault :=
  ⟨reason, offset - p.seen, p.seen, p.lead⟩

/-- Reads octets from offset `offset` on, with the sequence that is open there. -/
def decodeFrom (offset : Nat) : Option OpenSequence → List UInt8 → Except Fault Text
  | none, [] => .ok []
  | some p, [] => .error (p.fault .unexpectedEnd offset)
  | none, b :: rest =>
    if b.toNat < 0x80 then
      (CodePoint.ofNat b.toNat :: ·) <$> decodeFrom (offset + 1) none rest
    else
      match lead? b with
      | none => .error ⟨.invalidStart, offset, 1, b⟩
      | some p => decodeFrom (offset + 1) (some p) rest
  | some p, b :: rest =>
    if p.low ≤ b.toNat ∧ b.toNat ≤ p.high then
      let bits := p.bits * 0x40 + (b.toNat - 0x80)
      match p.more with
      | 0 => (CodePoint.ofNat bits :: ·) <$> decodeFrom (offset + 1) none rest
      | more + 1 =>
        decodeFrom (offset + 1) (some ⟨p.lead, bits, p.seen + 1, more, 0x80, 0xBF⟩) rest
    else .error (p.fault .invalidContinuation offset)

/-- The text that octets encode, or the first fault in them. -/
def decode (octets : List UInt8) : Except Fault Text := decodeFrom 0 none octets

end ManifestPolicy.Utf8
