import ManifestPolicy.Toml.Document
import Mathlib.Data.Nat.Init

/-!
# Documents line by line

A document of the settings format is read line by line, where a value that is written over several
lines belongs to the line it starts on. Each line is blank, a comment, or a statement that adds to
the tables. So there are two ends: the last line is read, or a line is reached that is not read. In
the second case the lines before it have said nothing. Then the text is no document, or the line
has something in it that the reader does not take on, and it is not known whether the text is one.

## Main definitions

* `ReadsLine`, `ReadsLines`: some lines are read.
* `AtEnd`, `StopsAt`: nothing is left to read, or a line that is not read.
* `IsDocument`, `Stops`: the texts that are read, and those that are not.

## Main statements

* `exists_readsLines`: every text is read to one of the two ends.
* `parse_eq_ok_iff`, `parse_eq_error_iff`: what is read from a text.
-/

namespace ManifestPolicy.Toml

variable (limits : Limits)

/-- One line is read. Behind a statement its rest starts with the end of the line. -/
inductive ReadsLine (d : Document) (s : Text) : Document → Text → Prop
  | blank {t : Text} (start : skipBlanks s = ('\n' : CodePoint) :: t) : ReadsLine d s d t
  | comment {c : CodePoint} {t rest : Text} (start : skipBlanks s = ('#' : CodePoint) :: t)
      (ended : endOfLine? (('#' : CodePoint) :: t) = some (c :: rest)) : ReadsLine d s d rest
  | statement {c : CodePoint} {t rest : Text} {cut : Cut (c :: t) Document}
      (start : skipBlanks s = c :: t) (noEnd : c ≠ '\n') (noComment : c ≠ '#')
      (read : statement limits (c :: t) d = .ok cut) (ended : endOfLine? cut.rest = some rest) :
      ReadsLine d s cut.value rest

/-- Any number of lines are read. -/
inductive ReadsLines : Document → Text → Document → Text → Prop
  | refl (d : Document) (s : Text) : ReadsLines d s d s
  | step {d d' d'' : Document} {s s' s'' : Text} (line : ReadsLine limits d s d' s')
      (more : ReadsLines d' s' d'' s'') : ReadsLines d s d'' s''

/-- Nothing is left but blanks and a comment that no line follows. -/
inductive AtEnd (s : Text) : Prop
  | blanks (start : skipBlanks s = [])
  | comment {t : Text} (start : skipBlanks s = ('#' : CodePoint) :: t)
      (ended : endOfLine? (('#' : CodePoint) :: t) = some [])

/-- The next line is not read. It is a comment with a control code, or no statement that can be
added to the tables, or more than one statement; or it is a statement with something in it that the
reader does not take on. -/
inductive StopsAt (d : Document) (s : Text) : Fault → Prop
  | comment {t : Text} (start : skipBlanks s = ('#' : CodePoint) :: t)
      (control : endOfLine? (('#' : CodePoint) :: t) = none) : StopsAt d s .invalid
  | statement {c : CodePoint} {t : Text} {fault : Fault} (start : skipBlanks s = c :: t)
      (noEnd : c ≠ '\n') (noComment : c ≠ '#')
      (unread : statement limits (c :: t) d = .error fault) : StopsAt d s fault
  | more {c : CodePoint} {t : Text} {cut : Cut (c :: t) Document} (start : skipBlanks s = c :: t)
      (noEnd : c ≠ '\n') (noComment : c ≠ '#') (read : statement limits (c :: t) d = .ok cut)
      (unended : endOfLine? cut.rest = none) : StopsAt d s .invalid

/-- The text is a document: all its lines are read. -/
def IsDocument (t : Text) : Prop := ∃ d s, ReadsLines limits {} (dropReturns t) d s ∧ AtEnd s

/-- The text is not read, for the fault of the first line that is not. -/
def Stops (t : Text) (fault : Fault) : Prop :=
  ∃ d s, ReadsLines limits {} (dropReturns t) d s ∧ StopsAt limits d s fault

section

variable {limits : Limits} {d d' : Document} {s s' : Text} {fault : Fault}

/-- What is done with the rest of a text depends on its first code point that is no blank. -/
theorem document_of_cons {c : CodePoint} {t : Text} (h : skipBlanks s = c :: t) :
    document limits d s =
      if c = '\n' then document limits d t
      else if c = '#' then
        (orInvalid (endOfLine? (c :: t))).bind fun rest =>
          match rest with
          | [] => .ok d
          | _ :: rest => document limits d rest
      else (statement limits (c :: t) d).bind fun cut =>
        (orInvalid (endOfLine? cut.rest)).bind fun rest => document limits cut.value rest := by
  rw [document]
  split
  · next hnil => exact absurd (hnil.symm.trans h) (by simp)
  · next c' t' hcons =>
    obtain ⟨rfl, rfl⟩ := List.cons.inj (hcons.symm.trans h)
    by_cases hnewline : c' = '\n'
    · rw [if_pos hnewline, if_pos hnewline]
    · rw [if_neg hnewline, if_neg hnewline]
      by_cases hcomment : c' = '#'
      · rw [if_pos hcomment, if_pos hcomment]
        split
        · next hnone => rw [hnone]; rfl
        · next hend => rw [hend]; rfl
        · next hrest => rw [hrest]; rfl
      · rw [if_neg hcomment, if_neg hcomment]
        split
        · next hfault => rw [hfault]; rfl
        · next cut hcut =>
          rw [hcut, Except.bind]
          split
          · next hnone => rw [hnone]; rfl
          · next hrest => rw [hrest]; rfl

theorem document_of_nil (h : skipBlanks s = []) : document limits d s = .ok d := by
  rw [document]
  split
  · rfl
  · next hcons => exact absurd (hcons.symm.trans h) (by simp)

theorem ReadsLine.document_eq (h : ReadsLine limits d s d' s') :
    document limits d s = document limits d' s' := by
  cases h with
  | blank start => rw [document_of_cons start, if_pos rfl]
  | comment start ended =>
    rw [document_of_cons start, if_neg (by decide), if_pos rfl, ended]
    rfl
  | statement start noEnd noComment read ended =>
    rw [document_of_cons start, if_neg noEnd, if_neg noComment, read, Except.bind, ended]
    rfl

theorem ReadsLines.document_eq (h : ReadsLines limits d s d' s') :
    document limits d s = document limits d' s' := by
  induction h with
  | refl => rfl
  | step line _ ih => exact line.document_eq.trans ih

theorem AtEnd.document_eq (h : AtEnd s) : document limits d s = .ok d := by
  cases h with
  | blanks start => exact document_of_nil start
  | comment start ended =>
    rw [document_of_cons start, if_neg (by decide), if_pos rfl, ended]
    rfl

theorem StopsAt.document_eq (h : StopsAt limits d s fault) :
    document limits d s = .error fault := by
  cases h with
  | comment start control =>
    rw [document_of_cons start, if_neg (by decide), if_pos rfl, control]
    rfl
  | statement start noEnd noComment unread =>
    rw [document_of_cons start, if_neg noEnd, if_neg noComment, unread]
    rfl
  | more start noEnd noComment read unended =>
    rw [document_of_cons start, if_neg noEnd, if_neg noComment, read, Except.bind, unended]
    rfl

variable (limits) in
/-- A text is at its end, or its next line is not read, or it is read and less is left. -/
theorem atEnd_or_stopsAt_or_reads (d : Document) (s : Text) :
    AtEnd s ∨ (∃ fault, StopsAt limits d s fault) ∨
      ∃ d' s', ReadsLine limits d s d' s' ∧ s'.length < s.length := by
  have hblanks := length_skipBlanks s
  cases hs : skipBlanks s with
  | nil => exact .inl (.blanks hs)
  | cons c t =>
    rw [hs, List.length_cons] at hblanks
    by_cases hnewline : c = '\n'
    · subst hnewline
      exact .inr (.inr ⟨d, t, .blank hs, hblanks⟩)
    by_cases hcomment : c = '#'
    · subst hcomment
      cases hend : endOfLine? (('#' : CodePoint) :: t) with
      | none => exact .inr (.inl ⟨_, .comment hs hend⟩)
      | some rest =>
        have hlength := length_endOfLine? hend
        cases rest with
        | nil => exact .inl (.comment hs hend)
        | cons c' rest =>
          simp only [List.length_cons] at hlength
          exact .inr (.inr ⟨d, rest, .comment hs hend, by omega⟩)
    · cases hread : statement limits (c :: t) d with
      | error fault => exact .inr (.inl ⟨_, .statement hs hnewline hcomment hread⟩)
      | ok cut =>
        have hcut := cut.shorter
        cases hend : endOfLine? cut.rest with
        | none => exact .inr (.inl ⟨_, .more hs hnewline hcomment hread hend⟩)
        | some rest =>
          have hlength := length_endOfLine? hend
          simp only [List.length_cons] at hcut
          exact .inr (.inr ⟨cut.value, rest, .statement hs hnewline hcomment hread hend,
            by omega⟩)

variable (limits) in
/-- **Every text is read to its end or up to a line that is not read.** -/
theorem exists_readsLines (d : Document) (s : Text) :
    ∃ d' s', ReadsLines limits d s d' s' ∧ (AtEnd s' ∨ ∃ fault, StopsAt limits d' s' fault) := by
  induction hn : s.length using Nat.strongRecOn generalizing d s with
  | _ n ih =>
    rcases atEnd_or_stopsAt_or_reads limits d s with hend | hstops | ⟨d', s', hline, hlength⟩
    · exact ⟨d, s, .refl d s, .inl hend⟩
    · exact ⟨d, s, .refl d s, .inr hstops⟩
    · obtain ⟨d'', s'', hmore, hlast⟩ := ih s'.length (hn ▸ hlength) d' s' rfl
      exact ⟨d'', s'', .step hline hmore, hlast⟩

theorem document_eq_ok_iff :
    document limits d s = .ok d' ↔ ∃ s', ReadsLines limits d s d' s' ∧ AtEnd s' := by
  constructor
  · intro h
    obtain ⟨d'', s', hlines, hend | ⟨fault, hstops⟩⟩ := exists_readsLines limits d s
    · rw [hlines.document_eq, hend.document_eq, Except.ok.injEq] at h
      exact ⟨s', h ▸ hlines, hend⟩
    · rw [hlines.document_eq, hstops.document_eq] at h
      cases h
  · rintro ⟨s', hlines, hend⟩
    rw [hlines.document_eq, hend.document_eq]

theorem document_eq_error_iff :
    document limits d s = .error fault ↔
      ∃ d' s', ReadsLines limits d s d' s' ∧ StopsAt limits d' s' fault := by
  constructor
  · intro h
    obtain ⟨d', s', hlines, hend | ⟨fault', hstops⟩⟩ := exists_readsLines limits d s
    · rw [hlines.document_eq, hend.document_eq] at h
      cases h
    · rw [hlines.document_eq, hstops.document_eq, Except.error.injEq] at h
      exact ⟨d', s', hlines, h ▸ hstops⟩
  · rintro ⟨d', s', hlines, hstops⟩
    rw [hlines.document_eq, hstops.document_eq]

end

section

variable {limits : Limits} {t : Text} {entries : List (Text × Value)} {fault : Fault}

/-- What a document describes is described by the tables that all its lines fill. -/
theorem parse_eq_ok_iff :
    parse limits t = .ok entries ↔
      ∃ d s, ReadsLines limits {} (dropReturns t) d s ∧ AtEnd s ∧
        entries = toEntries d.nodes := by
  rw [parse]
  constructor
  · intro h
    cases hd : document limits {} (dropReturns t) with
    | error fault =>
      rw [hd] at h
      cases h
    | ok d =>
      obtain ⟨s, hlines, hend⟩ := document_eq_ok_iff.1 hd
      rw [hd] at h
      exact ⟨d, s, hlines, hend, (Except.ok.inj h).symm⟩
  · rintro ⟨d, s, hlines, hend, rfl⟩
    rw [document_eq_ok_iff.2 ⟨s, hlines, hend⟩]
    rfl

/-- **A line that is not read takes everything away** that the lines before it have said. -/
theorem parse_eq_error_iff : parse limits t = .error fault ↔ Stops limits t fault := by
  rw [Stops, ← document_eq_error_iff, parse]
  cases document limits {} (dropReturns t) <;> simp [Except.map]

theorem isDocument_iff : IsDocument limits t ↔ ∃ entries, parse limits t = .ok entries := by
  simp only [parse_eq_ok_iff, IsDocument]
  constructor
  · rintro ⟨d, s, hlines, hend⟩
    exact ⟨_, d, s, hlines, hend, rfl⟩
  · rintro ⟨_, d, s, hlines, hend, -⟩
    exact ⟨d, s, hlines, hend⟩

/-- A text is read, or it is not for one fault. -/
theorem not_isDocument_iff : ¬ IsDocument limits t ↔ ∃ fault, Stops limits t fault := by
  simp only [isDocument_iff, ← parse_eq_error_iff]
  cases parse limits t <;> simp

variable (limits t) in
/-- The fault of the first line that is not read. -/
def fault? : Option Fault :=
  match parse limits t with
  | .ok _ => none
  | .error fault => some fault

theorem fault?_eq_some_iff : fault? limits t = some fault ↔ Stops limits t fault := by
  rw [← parse_eq_error_iff, fault?]
  cases parse limits t <;> simp

instance : Decidable (Stops limits t fault) := decidable_of_iff _ fault?_eq_some_iff

end

end ManifestPolicy.Toml
