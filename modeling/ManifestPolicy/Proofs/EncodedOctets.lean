import ManifestPolicy.Text.Utf8
import Mathlib.Algebra.Group.Nat.Defs
import Mathlib.Tactic.SplitIfs

/-!
# Octets that were written

A text without surrogates is read back from its octets. Reading holds, between two octets, the
sequence that is open and the bounds of the next octet, so each octet that was written for a code
point has to lie within these bounds. Beyond the second octet the bounds are those of any trailing
octet; for the second one they follow from the size of the code point, and from its being no
surrogate.

The same bounds keep surrogates out of what is read, so that the texts with octets are exactly
those without surrogates. They also keep out every second way of writing a code point, so that
octets which are read are those of the text they are read as.

## Main definitions

* `OpenSequence.Plain`: no way to complete the sequence gives a surrogate.
* `Leads`: the sequences that a leading octet begins.

## Main statements

* `decodeFrom_ascii`, `decodeFrom_lead`, `decodeFrom_next`, `decodeFrom_last`: what one octet does.
* `lead?_two`, `exists_lead?_three`, `exists_lead?_four`: the first octet of a sequence, and its
  bounds on the second.
* `decode_encode`: a text without surrogates is read back.
* `noSurrogate_of_decode`: no surrogate is read.
* `decode_eq_ok_iff`: which octets are read as which text.
-/

namespace ManifestPolicy.Utf8

/-! ## Octets of a text -/

section

variable {offset n : Nat} {rest : List UInt8}

theorem decodeFrom_ascii (h : n < 0x80) :
    decodeFrom offset none (UInt8.ofNat n :: rest) =
      (CodePoint.ofNat n :: ·) <$> decodeFrom (offset + 1) none rest := by
  rw [decodeFrom, UInt8.toNat_ofNat_of_lt' (show _ < 0x100 by omega), if_pos h]

theorem decodeFrom_lead {p : OpenSequence} (hlow : 0x80 ≤ n) (hhigh : n < 0x100)
    (hlead : lead? (UInt8.ofNat n) = some p) :
    decodeFrom offset none (UInt8.ofNat n :: rest) = decodeFrom (offset + 1) (some p) rest := by
  rw [decodeFrom, UInt8.toNat_ofNat_of_lt' hhigh, if_neg (by omega), hlead]

variable {lead : UInt8} {bits seen low high : Nat}

theorem decodeFrom_next {more : Nat} (hn : n < 0x100) (hlow : low ≤ n) (hhigh : n ≤ high) :
    decodeFrom offset (some ⟨lead, bits, seen, more + 1, low, high⟩) (UInt8.ofNat n :: rest) =
      decodeFrom (offset + 1)
        (some ⟨lead, bits * 0x40 + (n - 0x80), seen + 1, more, 0x80, 0xBF⟩) rest := by
  rw [decodeFrom, UInt8.toNat_ofNat_of_lt' hn, if_pos ⟨hlow, hhigh⟩]

theorem decodeFrom_last (hn : n < 0x100) (hlow : low ≤ n) (hhigh : n ≤ high) :
    decodeFrom offset (some ⟨lead, bits, seen, 0, low, high⟩) (UInt8.ofNat n :: rest) =
      (CodePoint.ofNat (bits * 0x40 + (n - 0x80)) :: ·) <$> decodeFrom (offset + 1) none rest := by
  rw [decodeFrom, UInt8.toNat_ofNat_of_lt' hn, if_pos ⟨hlow, hhigh⟩]

end

section

variable {v : Nat}

theorem lead?_two (hlow : 0x80 ≤ v) (hhigh : v < 0x800) :
    lead? (UInt8.ofNat (0xC0 + v / 0x40)) =
      some ⟨UInt8.ofNat (0xC0 + v / 0x40), v / 0x40, 1, 0, 0x80, 0xBF⟩ := by
  have hn : (UInt8.ofNat (0xC0 + v / 0x40)).toNat = 0xC0 + v / 0x40 :=
    UInt8.toNat_ofNat_of_lt' (show _ < 0x100 by omega)
  simp only [lead?, hn]
  rw [if_neg (by omega), if_pos (by omega), Nat.add_sub_cancel_left]

theorem exists_lead?_three (hlow : 0x800 ≤ v) (hhigh : v < 0x10000)
    (hplain : ¬ (0xD800 ≤ v ∧ v ≤ 0xDFFF)) :
    ∃ low high, lead? (UInt8.ofNat (0xE0 + v / 0x1000)) =
        some ⟨UInt8.ofNat (0xE0 + v / 0x1000), v / 0x1000, 1, 1, low, high⟩ ∧
      low ≤ 0x80 + v / 0x40 % 0x40 ∧ 0x80 + v / 0x40 % 0x40 ≤ high := by
  have hn : (UInt8.ofNat (0xE0 + v / 0x1000)).toNat = 0xE0 + v / 0x1000 :=
    UInt8.toNat_ofNat_of_lt' (show _ < 0x100 by omega)
  simp only [lead?, hn]
  rw [if_neg (by omega), if_neg (by omega)]
  by_cases hfirst : v / 0x1000 = 0
  · refine ⟨0xA0, 0xBF, ?_, by omega, by omega⟩
    rw [if_pos (by omega), hfirst]
  · rw [if_neg (by omega)]
    by_cases hbefore : v / 0x1000 = 0xD
    · refine ⟨0x80, 0x9F, ?_, by omega, by omega⟩
      rw [if_pos (by omega), hbefore]
    · refine ⟨0x80, 0xBF, ?_, by omega, by omega⟩
      rw [if_neg (by omega), if_pos (by omega), Nat.add_sub_cancel_left]

theorem exists_lead?_four (hlow : 0x10000 ≤ v) (hhigh : v < 0x110000) :
    ∃ low high, lead? (UInt8.ofNat (0xF0 + v / 0x40000)) =
        some ⟨UInt8.ofNat (0xF0 + v / 0x40000), v / 0x40000, 1, 2, low, high⟩ ∧
      low ≤ 0x80 + v / 0x1000 % 0x40 ∧ 0x80 + v / 0x1000 % 0x40 ≤ high := by
  have hn : (UInt8.ofNat (0xF0 + v / 0x40000)).toNat = 0xF0 + v / 0x40000 :=
    UInt8.toNat_ofNat_of_lt' (show _ < 0x100 by omega)
  simp only [lead?, hn]
  rw [if_neg (by omega), if_neg (by omega), if_neg (by omega), if_neg (by omega),
    if_neg (by omega)]
  by_cases hfirst : v / 0x40000 = 0
  · refine ⟨0x90, 0xBF, ?_, by omega, by omega⟩
    rw [if_pos (by omega), hfirst]
  · rw [if_neg (by omega)]
    by_cases hlast : v / 0x40000 = 4
    · refine ⟨0x80, 0x8F, ?_, by omega, by omega⟩
      rw [if_neg (by omega), if_pos (by omega), hlast]
    · refine ⟨0x80, 0xBF, ?_, by omega, by omega⟩
      rw [if_pos (by omega), Nat.add_sub_cancel_left]

end

theorem ofNat_val (c : CodePoint) : CodePoint.ofNat c.val = c :=
  CodePoint.eq_of_val_eq (CodePoint.val_ofNat c.isLt)

/-- A code point is read back from its octets, whatever octets follow. -/
theorem decodeFrom_encodePoint {c : CodePoint} (h : c.isSurrogate = false) (offset : Nat)
    (rest : List UInt8) :
    ∃ offset', decodeFrom offset none (encodePoint c ++ rest) =
      (c :: ·) <$> decodeFrom offset' none rest := by
  have hlt := c.isLt
  have hplain : ¬ (0xD800 ≤ c.val ∧ c.val ≤ 0xDFFF) := by
    simpa [CodePoint.isSurrogate, CodePoint.between] using h
  by_cases hone : c.val < 0x80
  · refine ⟨offset + 1, ?_⟩
    rw [encodePoint, if_pos hone, List.singleton_append, decodeFrom_ascii hone, ofNat_val]
  by_cases htwo : c.val < 0x800
  · have hval : c.val / 0x40 * 0x40 + (0x80 + c.val % 0x40 - 0x80) = c.val := by omega
    refine ⟨offset + 2, ?_⟩
    rw [encodePoint, if_neg hone, if_pos htwo, List.cons_append, List.singleton_append,
      decodeFrom_lead (by omega) (by omega) (lead?_two (by omega) htwo),
      decodeFrom_last (by omega) (by omega) (by omega), hval, ofNat_val]
  by_cases hthree : c.val < 0x10000
  · obtain ⟨low, high, hlead, hlow, hhigh⟩ := exists_lead?_three (by omega) hthree hplain
    have hval : (c.val / 0x1000 * 0x40 + (0x80 + c.val / 0x40 % 0x40 - 0x80)) * 0x40 +
        (0x80 + c.val % 0x40 - 0x80) = c.val := by omega
    refine ⟨offset + 3, ?_⟩
    rw [encodePoint, if_neg hone, if_neg htwo, if_pos hthree, List.cons_append, List.cons_append,
      List.singleton_append, decodeFrom_lead (by omega) (by omega) hlead,
      decodeFrom_next (by omega) hlow hhigh, decodeFrom_last (by omega) (by omega) (by omega),
      hval, ofNat_val]
  · obtain ⟨low, high, hlead, hlow, hhigh⟩ := exists_lead?_four (by omega) hlt
    have hval : ((c.val / 0x40000 * 0x40 + (0x80 + c.val / 0x1000 % 0x40 - 0x80)) * 0x40 +
        (0x80 + c.val / 0x40 % 0x40 - 0x80)) * 0x40 + (0x80 + c.val % 0x40 - 0x80) = c.val := by
      omega
    refine ⟨offset + 4, ?_⟩
    rw [encodePoint, if_neg hone, if_neg htwo, if_neg hthree, List.cons_append, List.cons_append,
      List.cons_append, List.singleton_append, decodeFrom_lead (by omega) (by omega) hlead,
      decodeFrom_next (by omega) hlow hhigh, decodeFrom_next (by omega) (by omega) (by omega),
      decodeFrom_last (by omega) (by omega) (by omega), hval, ofNat_val]

/-- Octets before a text move the offsets of its faults, and it has none. -/
theorem decodeFrom_encode {t : Text} (h : ∀ c ∈ t, c.isSurrogate = false) (offset : Nat) :
    decodeFrom offset none (encode t) = .ok t := by
  induction t generalizing offset with
  | nil => rfl
  | cons c t ih =>
    rw [List.forall_mem_cons] at h
    obtain ⟨offset', hpoint⟩ := decodeFrom_encodePoint h.1 offset (encode t)
    have hcons : encode (c :: t) = encodePoint c ++ encode t := List.flatMap_cons
    rw [hcons, hpoint, ih h.2]
    rfl

/-- **A text without surrogates is read back from its octets.** -/
theorem decode_encode {t : Text} (h : ∀ c ∈ t, c.isSurrogate = false) :
    decode (encode t) = .ok t :=
  decodeFrom_encode h 0

/-! ## Octets that were read -/

/-- However a sequence goes on, the number it comes to is none of a surrogate: the next octet is
within its bounds, and the octets after that give some number below `x`. -/
def OpenSequence.Plain (p : OpenSequence) : Prop :=
  ∀ n x, p.low ≤ n → n ≤ p.high → x < 0x40 ^ p.more →
    ¬ (0xD800 ≤ (p.bits * 0x40 + (n - 0x80)) * 0x40 ^ p.more + x ∧
      (p.bits * 0x40 + (n - 0x80)) * 0x40 ^ p.more + x ≤ 0xDFFF)

/-- The bounds on the second octet keep the surrogates out. -/
theorem plain_of_lead? {b : UInt8} {p : OpenSequence} (h : lead? b = some p) : p.Plain := by
  intro n x hlow hhigh hx
  simp only [lead?] at h
  split_ifs at h
  all_goals
    rw [← Option.some.inj h] at hlow hhigh hx ⊢
    dsimp only at hlow hhigh hx ⊢
    omega

/-- An octet within the bounds leaves less to choose. -/
theorem OpenSequence.Plain.next {p : OpenSequence} (h : p.Plain) {more n : Nat}
    (hmore : p.more = more + 1) (hlow : p.low ≤ n) (hhigh : n ≤ p.high) :
    (⟨p.lead, p.bits * 0x40 + (n - 0x80), p.seen + 1, more, 0x80, 0xBF⟩ : OpenSequence).Plain := by
  intro n' x hlow' hhigh' hx
  dsimp only at hlow' hhigh' hx ⊢
  have hsum : (n' - 0x80) * 0x40 ^ more + x < 0x40 ^ p.more := by
    have hdigit : n' - 0x80 + 1 ≤ 0x40 := by omega
    calc (n' - 0x80) * 0x40 ^ more + x
        < (n' - 0x80) * 0x40 ^ more + 0x40 ^ more := Nat.add_lt_add_left hx _
      _ = (n' - 0x80 + 1) * 0x40 ^ more := (Nat.succ_mul _ _).symm
      _ ≤ 0x40 * 0x40 ^ more := Nat.mul_le_mul_right _ hdigit
      _ = 0x40 ^ p.more := by rw [hmore, Nat.pow_succ']
  have hnumber : (p.bits * 0x40 + (n - 0x80)) * 0x40 ^ p.more + ((n' - 0x80) * 0x40 ^ more + x) =
      ((p.bits * 0x40 + (n - 0x80)) * 0x40 + (n' - 0x80)) * 0x40 ^ more + x := by
    rw [hmore, Nat.pow_succ', ← Nat.mul_assoc, Nat.add_mul _ (n' - 0x80), Nat.add_assoc]
  rw [← hnumber]
  exact h n _ hlow hhigh hsum

theorem isSurrogate_ofNat {n : Nat} (h : ¬ (0xD800 ≤ n ∧ n ≤ 0xDFFF)) :
    (CodePoint.ofNat n).isSurrogate = false := by
  rw [CodePoint.ofNat]
  split
  · rw [Bool.eq_false_iff]
    simpa [CodePoint.isSurrogate, CodePoint.between] using h
  · decide

/-- Whatever is open before an octet is completed to no surrogate. -/
theorem noSurrogate_of_decodeFrom {octets : List UInt8} {offset : Nat} {open? : Option OpenSequence}
    {t : Text} (h : decodeFrom offset open? octets = .ok t) (hopen : ∀ p ∈ open?, p.Plain) :
    ∀ c ∈ t, c.isSurrogate = false := by
  induction octets generalizing offset open? t with
  | nil =>
    cases open? with
    | none =>
      rw [decodeFrom, Except.ok.injEq] at h
      simp [← h]
    | some p => cases h
  | cons b octets ih =>
    have point {n : Nat} (hn : ¬ (0xD800 ≤ n ∧ n ≤ 0xDFFF))
        (hrest : (CodePoint.ofNat n :: ·) <$> decodeFrom (offset + 1) none octets = .ok t) :
        ∀ c ∈ t, c.isSurrogate = false := by
      cases hmore : decodeFrom (offset + 1) none octets with
      | error f =>
        rw [hmore] at hrest
        cases hrest
      | ok more =>
        rw [hmore] at hrest
        rw [← Except.ok.inj hrest, List.forall_mem_cons]
        exact ⟨isSurrogate_ofNat hn, ih hmore (by simp)⟩
    cases open? with
    | none =>
      rw [decodeFrom] at h
      split at h
      · exact point (by omega) h
      · cases hlead : lead? b with
        | none =>
          rw [hlead] at h
          cases h
        | some p =>
          rw [hlead] at h
          exact ih h fun q hq => Option.some.inj hq ▸ plain_of_lead? hlead
    | some p =>
      have hplain := hopen p rfl
      rw [decodeFrom] at h
      split at h
      · next hbounds =>
        cases hmore : p.more with
        | zero =>
          rw [hmore] at h
          have hlast := hplain b.toNat 0 hbounds.1 hbounds.2 (by simp [hmore])
          rw [hmore, Nat.pow_zero, Nat.mul_one, Nat.add_zero] at hlast
          exact point hlast h
        | succ more =>
          rw [hmore] at h
          exact ih h fun q hq =>
            Option.some.inj hq ▸ hplain.next hmore hbounds.1 hbounds.2
      · cases h

/-- No surrogate is read from octets. -/
theorem noSurrogate_of_decode {octets : List UInt8} {t : Text} (h : decode octets = .ok t) :
    ∀ c ∈ t, c.isSurrogate = false :=
  noSurrogate_of_decodeFrom h (by simp)

/-- The sequences of several octets by their leading octet, with what their second octet has to
satisfy. -/
inductive Leads (b : UInt8) : OpenSequence → Prop
  | two (low : 0xC2 ≤ b.toNat) (high : b.toNat < 0xE0) :
      Leads b ⟨b, b.toNat - 0xC0, 1, 0, 0x80, 0xBF⟩
  | three {n m : Nat} (low : 0xE0 ≤ b.toNat) (high : b.toNat < 0xF0) (trailing : 0x80 ≤ n)
      (below : m ≤ 0xBF) (overlong : b.toNat = 0xE0 → n = 0xA0) :
      Leads b ⟨b, b.toNat - 0xE0, 1, 1, n, m⟩
  | four {n m : Nat} (low : 0xF0 ≤ b.toNat) (high : b.toNat ≤ 0xF4) (trailing : 0x80 ≤ n)
      (below : m ≤ 0xBF) (overlong : b.toNat = 0xF0 → n = 0x90)
      (large : b.toNat = 0xF4 → m = 0x8F) : Leads b ⟨b, b.toNat - 0xF0, 1, 2, n, m⟩

theorem leads_of_lead? {b : UInt8} {p : OpenSequence} (h : lead? b = some p) : Leads b p := by
  simp only [lead?] at h
  split_ifs at h with hlow htwo hzero hbefore hthree hfirst hfour hlast
  · exact Option.some.inj h ▸ .two (by omega) htwo
  · have hp : p = ⟨b, b.toNat - 0xE0, 1, 1, 0xA0, 0xBF⟩ := by rw [← Option.some.inj h, hzero]
    exact hp ▸ .three (by omega) (by omega) (by omega) (by omega) fun _ => rfl
  · have hp : p = ⟨b, b.toNat - 0xE0, 1, 1, 0x80, 0x9F⟩ := by rw [← Option.some.inj h, hbefore]
    exact hp ▸ .three (by omega) (by omega) (by omega) (by omega) (by omega)
  · exact Option.some.inj h ▸ .three (by omega) hthree (by omega) (by omega) (by omega)
  · have hp : p = ⟨b, b.toNat - 0xF0, 1, 2, 0x90, 0xBF⟩ := by rw [← Option.some.inj h, hfirst]
    exact hp ▸ .four (by omega) (by omega) (by omega) (by omega) (fun _ => rfl) (by omega)
  · exact Option.some.inj h ▸
      .four (by omega) (by omega) (by omega) (by omega) (by omega) (by omega)
  · have hp : p = ⟨b, b.toNat - 0xF0, 1, 2, 0x80, 0x8F⟩ := by rw [← Option.some.inj h, hlast]
    exact hp ▸ .four (by omega) (by omega) (by omega) (by omega) (by omega) fun _ => rfl

section

variable {offset : Nat} {octets : List UInt8} {t : Text}

theorem exists_of_map_eq_ok {α : Type} {f : Text → α} {x : Except Fault Text} {a : α}
    (h : f <$> x = .ok a) : ∃ t, x = .ok t ∧ a = f t := by
  cases x with
  | error fault => cases h
  | ok t => exact ⟨t, rfl, (Except.ok.inj h).symm⟩

variable {lead : UInt8} {bits seen low high : Nat}

/-- The octet that completes a sequence. -/
theorem exists_last_of_decodeFrom
    (h : decodeFrom offset (some ⟨lead, bits, seen, 0, low, high⟩) octets = .ok t) :
    ∃ b rest t', octets = b :: rest ∧ low ≤ b.toNat ∧ b.toNat ≤ high ∧
      t = CodePoint.ofNat (bits * 0x40 + (b.toNat - 0x80)) :: t' ∧
      decodeFrom (offset + 1) none rest = .ok t' := by
  cases octets with
  | nil => cases h
  | cons b rest =>
    rw [decodeFrom] at h
    split at h
    · next hbounds =>
      obtain ⟨t', hrest, rfl⟩ := exists_of_map_eq_ok h
      exact ⟨b, rest, t', rfl, hbounds.1, hbounds.2, rfl, hrest⟩
    · cases h

/-- An octet after which a sequence goes on. -/
theorem exists_next_of_decodeFrom {more : Nat}
    (h : decodeFrom offset (some ⟨lead, bits, seen, more + 1, low, high⟩) octets = .ok t) :
    ∃ b rest, octets = b :: rest ∧ low ≤ b.toNat ∧ b.toNat ≤ high ∧
      decodeFrom (offset + 1)
        (some ⟨lead, bits * 0x40 + (b.toNat - 0x80), seen + 1, more, 0x80, 0xBF⟩) rest =
          .ok t := by
  cases octets with
  | nil => cases h
  | cons b rest =>
    rw [decodeFrom] at h
    split at h
    · next hbounds => exact ⟨b, rest, rfl, hbounds.1, hbounds.2, h⟩
    · cases h

theorem ofNat_eq_octet {n : Nat} {b : UInt8} (h : n = b.toNat) : UInt8.ofNat n = b := by
  rw [h, UInt8.ofNat_toNat]

theorem encodePoint_one {b : UInt8} (h : b.toNat < 0x80) :
    encodePoint (CodePoint.ofNat b.toNat) = [b] := by
  rw [encodePoint, CodePoint.val_ofNat (by omega), if_pos h, UInt8.ofNat_toNat]

/-- The octets of a number are those it was put together from. -/
theorem encodePoint_two {b c : UInt8} (hlow : 0xC2 ≤ b.toNat) (hhigh : b.toNat < 0xE0)
    (hc : 0x80 ≤ c.toNat) (hc' : c.toNat ≤ 0xBF) :
    encodePoint (CodePoint.ofNat ((b.toNat - 0xC0) * 0x40 + (c.toNat - 0x80))) = [b, c] := by
  rw [encodePoint, CodePoint.val_ofNat (by omega), if_neg (by omega), if_pos (by omega)]
  simp only [List.cons.injEq, and_true]
  exact ⟨ofNat_eq_octet (by omega), ofNat_eq_octet (by omega)⟩

theorem encodePoint_three {b c d : UInt8} {v : Nat} (hlow : 0xE0 ≤ b.toNat) (hhigh : b.toNat < 0xF0)
    (hc : 0x80 ≤ c.toNat) (hc' : c.toNat ≤ 0xBF) (hlong : b.toNat = 0xE0 → 0xA0 ≤ c.toNat)
    (hd : 0x80 ≤ d.toNat) (hd' : d.toNat ≤ 0xBF)
    (hv : v = ((b.toNat - 0xE0) * 0x40 + (c.toNat - 0x80)) * 0x40 + (d.toNat - 0x80)) :
    encodePoint (CodePoint.ofNat v) = [b, c, d] := by
  rw [encodePoint, CodePoint.val_ofNat (by omega), if_neg (by omega), if_neg (by omega),
    if_pos (by omega)]
  simp only [List.cons.injEq, and_true]
  exact ⟨ofNat_eq_octet (by omega), ofNat_eq_octet (by omega), ofNat_eq_octet (by omega)⟩

theorem encodePoint_four {b c d e : UInt8} {v : Nat} (hlow : 0xF0 ≤ b.toNat)
    (hhigh : b.toNat ≤ 0xF4) (hc : 0x80 ≤ c.toNat) (hc' : c.toNat ≤ 0xBF)
    (hlong : b.toNat = 0xF0 → 0x90 ≤ c.toNat) (hlarge : b.toNat = 0xF4 → c.toNat ≤ 0x8F)
    (hd : 0x80 ≤ d.toNat) (hd' : d.toNat ≤ 0xBF) (he : 0x80 ≤ e.toNat) (he' : e.toNat ≤ 0xBF)
    (hv : v = (((b.toNat - 0xF0) * 0x40 + (c.toNat - 0x80)) * 0x40 + (d.toNat - 0x80)) * 0x40 +
      (e.toNat - 0x80)) :
    encodePoint (CodePoint.ofNat v) = [b, c, d, e] := by
  rw [encodePoint, CodePoint.val_ofNat (by omega), if_neg (by omega), if_neg (by omega),
    if_neg (by omega)]
  simp only [List.cons.injEq, and_true]
  exact ⟨ofNat_eq_octet (by omega), ofNat_eq_octet (by omega), ofNat_eq_octet (by omega),
    ofNat_eq_octet (by omega)⟩

/-- A sequence that is read to its end comes to a code point that is written with its octets. -/
theorem exists_point_of_leads {b : UInt8} {p : OpenSequence} (hb : Leads b p)
    (h : decodeFrom offset (some p) octets = .ok t) :
    ∃ c trail rest offset' t', b :: octets = encodePoint c ++ rest ∧
      octets = trail ++ rest ∧ t = c :: t' ∧ decodeFrom offset' none rest = .ok t' := by
  cases hb with
  | two hlow hhigh =>
    obtain ⟨c, rest, t', rfl, hc, hc', rfl, hrest⟩ := exists_last_of_decodeFrom h
    refine ⟨_, [c], rest, _, t', ?_, rfl, rfl, hrest⟩
    rw [encodePoint_two hlow hhigh hc hc']
    rfl
  | three hlow hhigh htrailing hbelow hoverlong =>
    obtain ⟨c, _, rfl, hc, hc', hmore⟩ := exists_next_of_decodeFrom h
    obtain ⟨d, rest, t', rfl, hd, hd', rfl, hrest⟩ := exists_last_of_decodeFrom hmore
    refine ⟨_, [c, d], rest, _, t', ?_, rfl, rfl, hrest⟩
    rw [encodePoint_three hlow hhigh (by omega) (by omega)
      (fun hfirst => hoverlong hfirst ▸ hc) hd hd' rfl]
    rfl
  | four hlow hhigh htrailing hbelow hoverlong hlarge =>
    obtain ⟨c, _, rfl, hc, hc', hmore⟩ := exists_next_of_decodeFrom h
    obtain ⟨d, _, rfl, hd, hd', hmore⟩ := exists_next_of_decodeFrom hmore
    obtain ⟨e, rest, t', rfl, he, he', rfl, hrest⟩ := exists_last_of_decodeFrom hmore
    refine ⟨_, [c, d, e], rest, _, t', ?_, rfl, rfl, hrest⟩
    rw [encodePoint_four hlow hhigh (by omega) (by omega)
      (fun hfirst => hoverlong hfirst ▸ hc) (fun hlast => hlarge hlast ▸ hc') hd hd' he he' rfl]
    rfl

/-- Octets that are read are those of the text that is read. -/
theorem encode_of_decodeFrom (h : decodeFrom offset none octets = .ok t) : octets = encode t := by
  induction hn : octets.length using Nat.strongRecOn generalizing octets offset t with
  | _ n ih =>
    cases octets with
    | nil =>
      rw [← Except.ok.inj h]
      rfl
    | cons b octets =>
      -- The code points are read one by one, each with all its octets.
      suffices ∃ c rest offset' t', b :: octets = encodePoint c ++ rest ∧
          rest.length ≤ octets.length ∧ t = c :: t' ∧ decodeFrom offset' none rest = .ok t' by
        obtain ⟨c, rest, offset', t', hoctets, hlength, rfl, hrest⟩ := this
        have hshorter : rest.length < n := by
          rw [← hn, List.length_cons]
          omega
        have hencode : encode (c :: t') = encodePoint c ++ encode t' := List.flatMap_cons
        rw [hoctets, ih _ hshorter hrest rfl, hencode]
      rw [decodeFrom] at h
      split at h
      · next hone =>
        obtain ⟨t', hrest, rfl⟩ := exists_of_map_eq_ok h
        refine ⟨_, octets, _, t', ?_, Nat.le_refl _, rfl, hrest⟩
        rw [encodePoint_one hone]
        rfl
      · cases hlead : lead? b with
        | none =>
          rw [hlead] at h
          cases h
        | some p =>
          rw [hlead] at h
          obtain ⟨c, trail, rest, offset', t', hoctets, htrail, rfl, hrest⟩ :=
            exists_point_of_leads (leads_of_lead? hlead) h
          exact ⟨c, rest, offset', t', hoctets, by simp [htrail], rfl, hrest⟩

end

/-- **Octets are read as a text exactly if they are its octets**, and it has no surrogates. -/
theorem decode_eq_ok_iff {octets : List UInt8} {t : Text} :
    decode octets = .ok t ↔ octets = encode t ∧ ∀ c ∈ t, c.isSurrogate = false := by
  constructor
  · intro h
    exact ⟨encode_of_decodeFrom h, noSurrogate_of_decode h⟩
  · rintro ⟨rfl, h⟩
    exact decode_encode h

end ManifestPolicy.Utf8
