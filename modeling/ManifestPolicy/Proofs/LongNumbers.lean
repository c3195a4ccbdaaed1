import ManifestPolicy.Proofs.DocumentLines

/-!
# Numbers that are too long

A whole number in base ten with more digits than are converted stops the reader, under whatever key
it stands and whatever follows its line. So a text can be a document and still not be read.

## Main definitions

* `IsLong`: the digits of such a number.

## Main statements

* `IsLong.scalar_eq`: the number is refused.
* `IsLong.stopsAt`, `IsLong.stops`: a line with such a number is not read, and neither is the text.
-/

namespace ManifestPolicy.Toml

theorem moreDigits_append {ds : Text} (h : ∀ c ∈ ds, c.isDigit = true) (rest : Text) :
    moreDigits CodePoint.isDigit (ds ++ ('\n' : CodePoint) :: rest) = ds := by
  induction ds with
  | nil => rfl
  | cons c ds ih =>
    rw [List.forall_mem_cons] at h
    rw [List.cons_append, moreDigits, if_pos (by simp [h.1]), ih h.2]

/-- A class of code points sets those in it apart from the others. -/
theorem ne_of_class {p : CodePoint → Bool} {c d : CodePoint} (hc : p c = true) (hd : p d = false) :
    c ≠ d := by
  rintro rfl
  rw [hc] at hd
  cases hd

theorem skipBlanks_cons {c : CodePoint} (hspace : c ≠ ' ') (htab : c ≠ '\t') (t : Text) :
    skipBlanks (c :: t) = c :: t := by
  rw [skipBlanks, List.dropWhile_cons_of_neg (by simp [isBlank, hspace, htab])]

theorem basedInteger?_of_ne {c : CodePoint} (hzero : c ≠ '0') (t : Text) :
    basedInteger? (c :: t) = none := by
  cases t with
  | nil => rfl
  | cons b t => rw [basedInteger?, if_neg hzero]

/-- Digits up to the end of a line are one whole number. -/
theorem number?_of_digits {c : CodePoint} {ds : Text} (hc : c.isDigit = true) (hzero : c ≠ '0')
    (h : ∀ d ∈ ds, d.isDigit = true) (rest : Text) :
    number? (c :: ds ++ ('\n' : CodePoint) :: rest) = some (c :: ds, .integer (c :: ds)) := by
  have hbased : basedInteger? (c :: ds ++ ('\n' : CodePoint) :: rest) = none :=
    basedInteger?_of_ne hzero _
  have hdecimal : decimalInteger? (c :: ds ++ ('\n' : CodePoint) :: rest) = some (c :: ds) := by
    have hplus : c ≠ '+' := ne_of_class hc (by decide)
    have hminus : c ≠ '-' := ne_of_class hc (by decide)
    simp [decimalInteger?, sign, hplus, hminus, hzero, hc, moreDigits_append h]
  have hdrop : (c :: ds ++ ('\n' : CodePoint) :: rest).drop (c :: ds).length =
      ('\n' : CodePoint) :: rest := List.drop_left
  have hfraction : fraction (('\n' : CodePoint) :: rest) = [] := rfl
  have hexponent : exponent (('\n' : CodePoint) :: rest) = [] := rfl
  rw [number?, hbased, hdecimal]
  simp only [Option.map_some, hdrop, hfraction, hexponent, List.append_nil, if_pos]

/-- The digits of a whole number that is not converted. There are more of them than a date has code
points. -/
structure IsLong (limits : Limits) (ds : Text) : Prop where
  digits : ∀ c ∈ ds, c.isDigit = true
  nonzero : ds.head? ≠ some ('0' : CodePoint)
  noDate : 10 ≤ ds.length
  long : limits.digits < ds.length

section

variable {limits : Limits} {ds : Text}

/-- **A whole number with too many digits is refused.** -/
theorem IsLong.scalar_eq (h : IsLong limits ds) (rest : Text) :
    scalar limits (ds ++ ('\n' : CodePoint) :: rest) =
      .error (.excess (.digits ds.length limits.digits)) := by
  obtain ⟨hdigits, hnonzero, hlength, hlong⟩ := h
  match ds, hlength with
  | c :: y₂ :: y₃ :: y₄ :: s₁ :: m₁ :: m₂ :: s₂ :: d₁ :: d₂ :: ds, _ =>
    obtain ⟨more, hmore⟩ :
        ∃ more, more = y₂ :: y₃ :: y₄ :: s₁ :: m₁ :: m₂ :: s₂ :: d₁ :: d₂ :: ds := ⟨_, rfl⟩
    have hdash : s₁ ≠ '-' := ne_of_class (hdigits s₁ (by simp)) (by decide)
    have hcolon : y₃ ≠ ':' := ne_of_class (hdigits y₃ (by simp)) (by decide)
    have hdate : date? (c :: more ++ ('\n' : CodePoint) :: rest) = none := by
      simp [hmore, date?, hdash, bind]
    have hclock : clock? (c :: more ++ ('\n' : CodePoint) :: rest) = none := by
      simp [hmore, clock?, hcolon, bind]
    rw [← hmore] at hdigits hnonzero hlong ⊢
    have hzero : c ≠ '0' := fun h => hnonzero (congrArg some h)
    have hnumber := number?_of_digits (hdigits c List.mem_cons_self) hzero
      (fun d hd => hdigits d (List.mem_cons_of_mem _ hd)) rest
    have hcount : (Value.integer (c :: more)).decimalDigits = (c :: more).length := by
      rw [Value.decimalDigits, basedInteger?_of_ne hzero]
      simpa using List.countP_eq_length.2 hdigits
    rw [List.cons_append] at *
    rw [scalar, scalarPart?, hdate, hclock]
    simp only [hnumber, Option.some_or, hcount, if_pos hlong]

/-- No other value starts with a digit. -/
theorem IsLong.value_eq (h : IsLong limits ds) (hroom : ∀ s, limits.room [] s = true)
    (rest : Text) :
    value limits [] (ds ++ ('\n' : CodePoint) :: rest) =
      .error (.excess (.digits ds.length limits.digits)) := by
  have hscalar := h.scalar_eq rest
  have hlength := h.noDate
  obtain ⟨c, t, rfl⟩ : ∃ c t, ds = c :: t := List.exists_cons_of_length_pos (by omega)
  have hne (d : CodePoint) (hd : d.isDigit = false) : c ≠ d :=
    ne_of_class (h.digits c List.mem_cons_self) hd
  have hquotes : c ≠ quotation ∧ c ≠ apostrophe := ⟨hne _ (by decide), hne _ (by decide)⟩
  have hboolean : boolean? (c :: (t ++ ('\n' : CodePoint) :: rest)) = none := by
    have htrue : c ≠ 't' := hne _ (by decide)
    have hfalse : c ≠ 'f' := hne _ (by decide)
    simp [boolean?, Text.startsWith, Text.ofString, Text.dropStart?, Ne.symm htrue, Ne.symm hfalse]
  rw [List.cons_append] at hscalar ⊢
  rw [value, if_pos (hroom _), if_neg (by simp [hquotes]), if_neg (hne _ (by decide)),
    if_neg (hne _ (by decide)), hboolean]
  exact hscalar

end

namespace Cut

variable {s t : Text} {α : Type} {cut : Cut s α} {c d : CodePoint}

theorem expect?_of_ne (h : cut.rest = d :: t) (hne : d ≠ c) : cut.expect? c = none := by
  rw [expect?]
  split
  · rfl
  · next h' =>
    obtain ⟨rfl, rfl⟩ := List.cons.inj (h.symm.trans h')
    rw [if_neg hne]

theorem exists_expect? (h : cut.rest = c :: t) :
    ∃ cut', cut.expect? c = some cut' ∧ cut'.rest = t := by
  rw [expect?]
  split
  · next h' => simp [h'] at h
  · next h' =>
    obtain ⟨rfl, rfl⟩ := List.cons.inj (h.symm.trans h')
    rw [if_pos rfl]
    exact ⟨_, rfl, rfl⟩

end Cut

section

variable {name : Text}

theorem exists_keyPart? (hname : name ≠ []) (hbare : ∀ c ∈ name, isBare c = true) (rest : Text) :
    ∃ cut, keyPart? (name ++ (' ' : CodePoint) :: rest) = some cut ∧
      cut.rest = (' ' : CodePoint) :: rest := by
  obtain ⟨c, t, rfl⟩ := List.exists_cons_of_ne_nil hname
  have hc : isBare c = true := hbare c List.mem_cons_self
  have hquotes : c ≠ quotation ∧ c ≠ apostrophe := by
    constructor <;> rintro rfl <;> exact absurd hc (by decide)
  have hspan : (t ++ (' ' : CodePoint) :: rest).takeWhile isBare = t := by
    have hblank : isBare ' ' = false := by decide
    rw [List.takeWhile_append_of_pos fun d hd => hbare d (List.mem_cons_of_mem _ hd),
      List.takeWhile_cons_of_neg (by simp [hblank]), List.append_nil]
  simp only [List.cons_append, keyPart?, if_neg hquotes.1, if_neg hquotes.2, if_pos hc, hspan]
  exact ⟨_, rfl, by simp [Cut.take]⟩

/-- The value behind a key without quotes is found. -/
theorem exists_keySign? (hname : name ≠ []) (hbare : ∀ c ∈ name, isBare c = true) {t : Text}
    (ht : skipBlanks t = t) :
    ∃ cut, keySign? (name ++ Text.ofString " = " ++ t) = some cut ∧ cut.rest = t := by
  have htext : name ++ Text.ofString " = " ++ t =
      name ++ (' ' : CodePoint) :: ('=' : CodePoint) :: (' ' : CodePoint) :: t := by
    rw [List.append_assoc]
    rfl
  obtain ⟨part, hpart, hrest⟩ :=
    exists_keyPart? hname hbare (('=' : CodePoint) :: (' ' : CodePoint) :: t)
  have hfirst : part.skipBlanks.rest = ('=' : CodePoint) :: (' ' : CodePoint) :: t := by
    have hskip := congrArg skipBlanks hrest
    exact hskip
  have hdot : part.skipBlanks.expect? '.' = none := Cut.expect?_of_ne hfirst (by decide)
  obtain ⟨key, hkey⟩ : ∃ key, key = part.skipBlanks.map fun last => (([] : List Text), last) :=
    ⟨_, rfl⟩
  have hbehind : key.rest = ('=' : CodePoint) :: (' ' : CodePoint) :: t := by
    rw [hkey]
    exact hfirst
  obtain ⟨sign, hsign, hafter⟩ := Cut.exists_expect? hbehind
  rw [htext, keySign?, key?, hpart]
  simp only [hdot, ← hkey]
  refine ⟨sign.skipBlanks, by rw [Option.bind_some, hsign]; rfl, ?_⟩
  have hskip := congrArg skipBlanks hafter
  exact hskip.trans ht

end

/-- A key is not read with a value that is not. -/
theorem pair_of_unread {limits : Limits} {s : Text} {d : Document} {key : Cut s (List Text × Text)}
    {fault : Fault} (hkey : keySign? s = some key)
    (hvalue : value limits [] key.rest = .error fault) : pair limits s d = .error fault := by
  rw [pair, hkey]
  simp only
  split
  · next hfault =>
    rw [hvalue] at hfault
    rw [Except.error.inj hfault]
  · next hok =>
    rw [hok] at hvalue
    cases hvalue

/-- **A line with a whole number of too many digits is not read**, whatever tables the lines before
it have filled. -/
theorem IsLong.stopsAt {limits : Limits} {name ds : Text} (h : IsLong limits ds)
    (hroom : ∀ s, limits.room [] s = true) (hname : name ≠ [])
    (hbare : ∀ c ∈ name, isBare c = true) (d : Document) (rest : Text) :
    StopsAt limits d (name ++ Text.ofString " = " ++ (ds ++ ('\n' : CodePoint) :: rest))
      (.excess (.digits ds.length limits.digits)) := by
  have hvalue := h.value_eq hroom rest
  have hblanks : skipBlanks (ds ++ ('\n' : CodePoint) :: rest) =
      ds ++ ('\n' : CodePoint) :: rest := by
    have hlength := h.noDate
    obtain ⟨c, t, rfl⟩ : ∃ c t, ds = c :: t := List.exists_cons_of_length_pos (by omega)
    have hc := h.digits c List.mem_cons_self
    exact skipBlanks_cons (ne_of_class hc (by decide)) (ne_of_class hc (by decide)) _
  obtain ⟨key, hkey, hrest⟩ := exists_keySign? hname hbare hblanks
  obtain ⟨c, t, rfl⟩ := List.exists_cons_of_ne_nil hname
  have hc : isBare c = true := hbare c List.mem_cons_self
  have hne (d : CodePoint) (hd : isBare d = false) : c ≠ d := ne_of_class hc hd
  have hstart : skipBlanks (c :: t ++ Text.ofString " = " ++ (ds ++ ('\n' : CodePoint) :: rest)) =
      c :: (t ++ Text.ofString " = " ++ (ds ++ ('\n' : CodePoint) :: rest)) :=
    skipBlanks_cons (hne _ (by decide)) (hne _ (by decide)) _
  refine .statement hstart (hne _ (by decide)) (hne _ (by decide)) ?_
  simp only [List.cons_append] at hkey
  rw [statement, if_neg (hne _ (by decide)), if_pos (by simp [hc])]
  refine pair_of_unread hkey ?_
  rw [hrest]
  exact hvalue

theorem dropReturns_append {s : Text} (h : ('\r' : CodePoint) ∉ s) (t : Text) :
    dropReturns (s ++ t) = s ++ dropReturns t := by
  induction s with
  | nil => rfl
  | cons c s ih =>
    rw [List.mem_cons, not_or] at h
    rw [List.cons_append, dropReturns, if_neg (by simp [Ne.symm h.1]), ih h.2, List.cons_append]

/-- A text whose first line has such a number is not read. -/
theorem IsLong.stops {limits : Limits} {name ds : Text} (h : IsLong limits ds)
    (hroom : ∀ s, limits.room [] s = true) (hname : name ≠ [])
    (hbare : ∀ c ∈ name, isBare c = true) (rest : Text) :
    Stops limits (name ++ Text.ofString " = " ++ (ds ++ ('\n' : CodePoint) :: rest))
      (.excess (.digits ds.length limits.digits)) := by
  have hreturn : ('\r' : CodePoint) ∉
      name ++ Text.ofString " = " ++ (ds ++ [('\n' : CodePoint)]) := by
    intro hmem
    rcases List.mem_append.1 hmem with hmem | hmem
    · rcases List.mem_append.1 hmem with hmem | hmem
      · exact absurd (hbare _ hmem) (by decide)
      · exact absurd hmem (by decide)
    · rcases List.mem_append.1 hmem with hmem | hmem
      · exact absurd (h.digits _ hmem) (by decide)
      · exact absurd hmem (by decide)
  have htext (rest : Text) : name ++ Text.ofString " = " ++ (ds ++ ('\n' : CodePoint) :: rest) =
      name ++ Text.ofString " = " ++ (ds ++ [('\n' : CodePoint)]) ++ rest := by simp
  refine ⟨_, _, .refl _ _, ?_⟩
  rw [htext, dropReturns_append hreturn, ← htext]
  exact h.stopsAt hroom hname hbare _ _

/-- A document of one line, with a number of so many nines in place of a table of directives. -/
def nines (count : Nat) : Text :=
  Text.ofString "directives = " ++ (List.replicate count ('9' : CodePoint) ++ [('\n' : CodePoint)])

theorem noSurrogate_of_mem_nines {count : Nat} {c : CodePoint} (h : c ∈ nines count) :
    c.isSurrogate = false := by
  simp only [nines, List.mem_append, List.mem_replicate, List.mem_singleton] at h
  rcases h with h | ⟨-, rfl⟩ | rfl
  · have hall : ∀ d ∈ Text.ofString "directives = ", d.isSurrogate = false := by decide
    exact hall c h
  · decide
  · decide

section

variable {limits : Limits} {count : Nat}

theorem isLong_replicate (hdate : 10 ≤ count) (hlong : limits.digits < count) :
    IsLong limits (List.replicate count ('9' : CodePoint)) where
  digits c hc := by
    rw [List.eq_of_mem_replicate hc]
    decide
  nonzero := by
    rw [List.head?_replicate, if_neg (by omega)]
    decide
  noDate := by rwa [List.length_replicate]
  long := by rwa [List.length_replicate]

theorem stops_nines (hroom : ∀ s, limits.room [] s = true) (hdate : 10 ≤ count)
    (hlong : limits.digits < count) :
    Stops limits (nines count) (.excess (.digits count limits.digits)) := by
  have hname : Text.ofString "directives" ≠ [] := by decide
  have hstops := (isLong_replicate hdate hlong).stops hroom hname (by decide) []
  rw [List.length_replicate] at hstops
  exact hstops

end

end ManifestPolicy.Toml
