import ManifestPolicy.Proofs.Grammar
import ManifestPolicy.Proofs.Precedence
import Mathlib.Data.List.Forall2

/-!
# The log of overwrites

Whether a requirement is an overwrite depends on what all requirements before it left at its
path: they set policies, replace them, and remove them again. Yet the log can be said by
position. A requirement is an overwrite of the latest one before it with the same path, and
of no other, if that one had a policy and the two policies differ.

The latest requirement is what matters because a run leaves a path as its last requirement
did. So the log of a run is found at each position from the requirements before it, and the
requirements after it do not change it.

## Main definitions

* `overwriteAt?`: the overwrite at a position of the requirements.
* `Manifest.OverwritesAt`: the same, by the rules of precedence.
* `Manifest.Logs`: a log with the positions of its overwrites.

## Main statements

* `overwrites_foldl_assign`: the log of a run, position by position.
* `map_message_foldl_assign`: a run warns of each overwrite once, in order.
* `warnings_of_resolve`: the warnings of a manifest are the wordings of its overwrites.
* `Manifest.resolve_logs`: the log of a manifest.
-/

namespace ManifestPolicy

/-- The overwrite at position `i`: of the policy of the latest requirement before it with the
same path, if there is one and it had a policy, and the policies differ. -/
def overwriteAt? (nilPolicy : Text) (policyOf : Requirement → Text)
    (requirements : List Requirement) (i : Nat) : Option Overwrite :=
  requirements[i]?.bind fun r =>
    (lastRequiring? r.path (requirements.take i)).bind fun s =>
      if policyOf s = nilPolicy ∨ policyOf s = policyOf r then none
      else some ⟨r.path, policyOf s, policyOf r, r.line.start.line⟩

/-- Position `i` of a manifest holds an overwrite: of the policy that the latest requirement
before it with the same path takes, by the one it takes itself. A change to the nil policy
is an overwrite, and a change from it is none. -/
def Manifest.OverwritesAt (ns nilPolicy : Text) (m : Manifest) (i : Nat) (o : Overwrite) : Prop :=
  ∃ r s, m.requirements[i]? = some r ∧ LastRequiring r.path (m.requirements.take i) s ∧
    m.Takes ns nilPolicy s o.old ∧ m.Takes ns nilPolicy r o.new ∧
    o.old ≠ nilPolicy ∧ o.old ≠ o.new ∧ o.path = r.path ∧ o.line = r.line.start.line

/-- The log has one record for each position with an overwrite, in order. -/
structure Manifest.Logs (ns nilPolicy : Text) (m : Manifest) (positions : List Nat)
    (log : List Overwrite) : Prop where
  sorted : positions.Pairwise (· < ·)
  complete : ∀ i, i ∈ positions ↔ ∃ o, m.OverwritesAt ns nilPolicy i o
  records : List.Forall₂ (m.OverwritesAt ns nilPolicy) positions log

section

variable {nilPolicy : Text} {policyOf : Requirement → Text}

theorem overwriteAt?_eq_some_iff {requirements : List Requirement} {i : Nat} {o : Overwrite} :
    overwriteAt? nilPolicy policyOf requirements i = some o ↔
      ∃ r s, requirements[i]? = some r ∧ LastRequiring r.path (requirements.take i) s ∧
        policyOf s = o.old ∧ policyOf r = o.new ∧
        o.old ≠ nilPolicy ∧ o.old ≠ o.new ∧ o.path = r.path ∧ o.line = r.line.start.line := by
  simp only [overwriteAt?, Option.bind_eq_some_iff, lastRequiring?_eq_some_iff]
  constructor
  · rintro ⟨r, hr, s, hs, h⟩
    split at h
    · simp at h
    · next hchange =>
      rw [not_or] at hchange
      rw [Option.some.injEq] at h
      exact ⟨r, s, hr, hs, by rw [← h], by rw [← h], by rw [← h]; exact hchange.1,
        by rw [← h]; exact hchange.2, by rw [← h], by rw [← h]⟩
  · rintro ⟨r, s, hr, hs, hold, hnew, hnil, hne, hpath, hline⟩
    refine ⟨r, hr, s, hs, ?_⟩
    rw [if_neg (by rw [hold, hnew]; exact not_or.2 ⟨hnil, hne⟩), hold, hnew, ← hpath, ← hline]

/-- What stands before a position decides, not what follows it. -/
theorem overwriteAt?_append {requirements : List Requirement} {i : Nat}
    (hi : i < requirements.length) (more : List Requirement) :
    overwriteAt? nilPolicy policyOf (requirements ++ more) i =
      overwriteAt? nilPolicy policyOf requirements i := by
  rw [overwriteAt?, overwriteAt?, List.getElem?_append_left hi,
    List.take_append_of_le_length (Nat.le_of_lt hi)]

/-- After a run the next requirement is an overwrite exactly of what the latest one with its
path left there. -/
theorem overwrite?_foldl_assign (requirements : List Requirement) (r : Requirement) :
    (requirements.foldl (fun res r => res.assign nilPolicy r (policyOf r))
      Resolution.empty).overwrite? r (policyOf r) =
      overwriteAt? nilPolicy policyOf (requirements ++ [r]) requirements.length := by
  rw [Resolution.overwrite?, get?_foldl_assign, overwriteAt?, List.getElem?_concat_length,
    List.take_left, Option.bind_some]
  cases lastRequiring? r.path requirements with
  | none => rfl
  | some s =>
    by_cases hnil : policyOf s = nilPolicy
    · simp [hnil, Option.filter_some]
    · by_cases hsame : policyOf s = policyOf r
      · simp [hsame ▸ hnil, hsame, Option.filter_some]
      · simp [hnil, hsame, Option.filter_some]

/-- The log of a run, position by position. -/
theorem overwrites_foldl_assign (nilPolicy : Text) (policyOf : Requirement → Text)
    (requirements : List Requirement) :
    (requirements.foldl (fun res r => res.assign nilPolicy r (policyOf r))
      Resolution.empty).overwrites =
      (List.range requirements.length).filterMap
        (overwriteAt? nilPolicy policyOf requirements) := by
  induction requirements using List.reverseRecOn with
  | nil => rfl
  | append_singleton requirements r ih =>
    have hbefore : (List.range requirements.length).filterMap
          (overwriteAt? nilPolicy policyOf (requirements ++ [r])) =
        (List.range requirements.length).filterMap
          (overwriteAt? nilPolicy policyOf requirements) :=
      List.filterMap_congr fun i hi => overwriteAt?_append (List.mem_range.1 hi) [r]
    rw [List.foldl_append, List.foldl_cons, List.foldl_nil, Resolution.assign, ih,
      overwrite?_foldl_assign, List.length_append, List.length_singleton, List.range_succ,
      List.filterMap_append, hbefore]
    rfl

/-- The places where a partial function has a value are the places of its values. -/
theorem forall₂_filter_filterMap {α β : Type} (f : α → Option β) (l : List α) :
    List.Forall₂ (fun a b => f a = some b) (l.filter fun a => (f a).isSome) (l.filterMap f) := by
  induction l with
  | nil => exact .nil
  | cons a l ih =>
    cases ha : f a with
    | none => simpa [ha] using ih
    | some b => simpa [ha] using ih

/-- A run warns of each overwrite that it adds to the log, in order. -/
theorem map_message_foldl_assign (nilPolicy : Text) (policyOf : Requirement → Text)
    (res : Resolution) (requirements : List Requirement) :
    (requirements.foldl (fun res r => res.assign nilPolicy r (policyOf r)) res).overwrites.map
        Overwrite.message =
      res.overwrites.map Overwrite.message ++ res.warnings nilPolicy policyOf requirements := by
  induction requirements generalizing res with
  | nil => simp [Resolution.warnings]
  | cons r rest ih =>
    rw [List.foldl_cons, ih, Resolution.warnings, Resolution.assign, List.map_append,
      List.append_assoc]
    cases res.overwrite? r (policyOf r) <;> rfl

/-- The warnings of a manifest are the wordings of its overwrites. -/
theorem warnings_of_resolve {ns nilPolicy : Text} {m : Manifest} {res : Resolution}
    (h : m.resolve ns nilPolicy = .ok res) :
    m.warnings ns nilPolicy = res.overwrites.map Overwrite.message := by
  rw [Manifest.resolve] at h
  split at h
  · simp at h
  · next hnone =>
    rw [Except.ok.injEq] at h
    rw [Manifest.warnings, hnone, ← h, map_message_foldl_assign]
    rfl

end

namespace Manifest

variable {ns nilPolicy : Text} {m : Manifest}

theorem overwritesAt_iff {i : Nat} {o : Overwrite} :
    m.OverwritesAt ns nilPolicy i o ↔
      overwriteAt? nilPolicy (m.effectivePolicy ns nilPolicy) m.requirements i = some o := by
  rw [overwriteAt?_eq_some_iff]
  simp only [OverwritesAt, takes_iff]

/-- The log of a run over the requirements of a manifest. -/
theorem logs_filterMap (ns nilPolicy : Text) (m : Manifest) :
    m.Logs ns nilPolicy
      ((List.range m.requirements.length).filter fun i =>
        (overwriteAt? nilPolicy (m.effectivePolicy ns nilPolicy) m.requirements i).isSome)
      ((List.range m.requirements.length).filterMap
        (overwriteAt? nilPolicy (m.effectivePolicy ns nilPolicy) m.requirements)) where
  sorted := List.pairwise_lt_range.filter _
  complete := by
    intro i
    simp only [List.mem_filter, List.mem_range, Option.isSome_iff_exists, overwritesAt_iff,
      and_iff_right_iff_imp]
    rintro ⟨o, ho⟩
    obtain ⟨r, -, hr, -⟩ := overwriteAt?_eq_some_iff.1 ho
    exact (List.getElem?_eq_some_iff.1 hr).1
  records := by
    refine (forall₂_filter_filterMap _ _).imp fun i o ho => ?_
    exact overwritesAt_iff.2 ho

/-- **The log of overwrites is exact.** A manifest that resolves has in its log one record for
each requirement that changes the policy of its path, in the order of the requirements; no
record repeats a policy or has the nil policy as the old one; and the warnings are the
records in words. -/
theorem resolve_logs {res : Resolution} (h : m.resolve ns nilPolicy = .ok res) :
    (∃ positions, m.Logs ns nilPolicy positions res.overwrites) ∧
    (∀ o ∈ res.overwrites, o.old ≠ o.new ∧ o.old ≠ nilPolicy) ∧
    m.warnings ns nilPolicy = res.overwrites.map Overwrite.message := by
  cases hmisplaced : m.misplaced? ns with
  | some e => simp [resolve, hmisplaced] at h
  | none =>
    rw [resolve, hmisplaced, Except.ok.injEq] at h
    have hlog := overwrites_foldl_assign nilPolicy (m.effectivePolicy ns nilPolicy) m.requirements
    rw [h] at hlog
    refine ⟨⟨_, hlog ▸ logs_filterMap ns nilPolicy m⟩, fun o ho => ?_, ?_⟩
    · rw [hlog, List.mem_filterMap] at ho
      obtain ⟨i, -, hi⟩ := ho
      obtain ⟨r, s, -, -, -, -, hnil, hne, -⟩ := overwriteAt?_eq_some_iff.1 hi
      exact ⟨hne, hnil⟩
    · have hwarnings := map_message_foldl_assign nilPolicy (m.effectivePolicy ns nilPolicy)
        Resolution.empty m.requirements
      rw [warnings, hmisplaced, ← h]
      exact hwarnings.symm

/-- Two paths in turn: a policy, its reset to the nil policy, and a policy from there; and a
policy, the same again, and another one. -/
theorem resolve_logs_sample :
    ∃ m res, (read [] (Text.ofString
        "require (\n a v1 // s:p\n b v1 // s:q\n a v2\n b v2 // s:q\n a v3 // s:r\n b v3\n)\n") =
        .ok m ∧ m.resolve (Text.ofString "s") (Text.ofString "n") = .ok res) ∧
      res.overwrites = [⟨Text.ofString "a", Text.ofString "p", Text.ofString "n", 4⟩,
        ⟨Text.ofString "b", Text.ofString "q", Text.ofString "n", 7⟩] ∧
      (∃ positions, m.Logs (Text.ofString "s") (Text.ofString "n") positions res.overwrites) ∧
      (∀ o ∈ res.overwrites, o.old ≠ o.new ∧ o.old ≠ Text.ofString "n") ∧
      m.warnings (Text.ofString "s") (Text.ofString "n") =
        res.overwrites.map Overwrite.message := by
  have hlog : (read [] (Text.ofString
        "require (\n a v1 // s:p\n b v1 // s:q\n a v2\n b v2 // s:q\n a v3 // s:r\n b v3\n)\n")
      ).toOption.bind (fun m => (m.resolve (Text.ofString "s") (Text.ofString "n")).toOption.map
        Resolution.overwrites) =
      some [⟨Text.ofString "a", Text.ofString "p", Text.ofString "n", 4⟩,
        ⟨Text.ofString "b", Text.ofString "q", Text.ofString "n", 7⟩] := by
    decide +kernel
  obtain ⟨m, hm, hres⟩ := Option.bind_eq_some_iff.1 hlog
  obtain ⟨res, hres, hoverwrites⟩ := Option.map_eq_some_iff.1 hres
  rw [toOption_eq_some_iff] at hm hres
  exact ⟨m, res, ⟨hm, hres⟩, hoverwrites, resolve_logs hres⟩

end Manifest

end ManifestPolicy
