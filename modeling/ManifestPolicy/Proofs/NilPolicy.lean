import ManifestPolicy.Proofs.Directives
import ManifestPolicy.Proofs.Precedence
import ManifestPolicy.Proofs.WrittenRequirements

/-!
# The nil policy as a filter

The nil policy has two uses in a resolution: it is the policy of a requirement for which nothing
names one, and the value that takes a path out of the result. Together they make it a filter. What
is named for the last requirement of a path does not depend on it, and the path has that policy
unless it is the nil policy.

So the results for two nil policies differ only in the entries that have one of the two as their
value. In between the two runs have different policies, and an entry can be in one of them and
not in the other; only after a whole run is a path as its last requirement left it.

## Main definitions

* `Dictionary.without`: the mapping without the entries that have a given value.
* `Manifest.namedPolicy?`: the policy that is named for a requirement, if one is.

## Main statements

* `Manifest.get?_eq_namedPolicy?`: what a path has after a resolution, by what is named for it.
* `Manifest.resolve_without`: two nil policies give the same mapping, but for their own entries.
-/

namespace ManifestPolicy

namespace Dictionary

/-- The mapping without the entries that have this value. -/
def without (d : Dictionary Text) (value : Text) : Dictionary Text :=
  ⟨d.entries.filter fun e => decide (e.2 ≠ value), d.sorted.filter _⟩

theorem get?_without (d : Dictionary Text) (value key : Text) :
    (d.without value).get? key = (d.get? key).filter fun v => v ≠ value := by
  have hentry (e : Dictionary Text) (v : Text) : e.get? key = some v ↔ (key, v) ∈ e.entries :=
    Entries.get?_eq_some_iff e.nodup_keys
  apply Option.ext
  intro v
  rw [hentry, Option.filter_eq_some_iff, hentry]
  exact List.mem_filter

end Dictionary

theorem Directive.ne_nil_of_mem_policies {ns policy : Text} {comments : List Comment}
    (h : policy ∈ policies ns comments) : policy ≠ [] := by
  obtain ⟨c, -, hc⟩ := List.mem_filterMap.1 h
  exact (exists_of_policy? hc).1

theorem Line.ne_nil_of_policy? {ns policy : Text} {l : Line} (h : l.policy? ns = some policy) :
    policy ≠ [] :=
  Directive.ne_nil_of_mem_policies (List.mem_of_getLast? h)

theorem Block.ne_nil_of_policy? {ns policy : Text} {b : Block} (h : b.policy? ns = some policy) :
    policy ≠ [] :=
  Directive.ne_nil_of_mem_policies (List.mem_of_head? h)

namespace Manifest

variable {ns nilPolicy policy : Text} {m : Manifest}

/-- The policy that is named for a requirement: by its own comments, by its block, or by the module
entry. -/
def namedPolicy? (ns : Text) (m : Manifest) (r : Requirement) : Option Text :=
  (r.line.policy? ns).or ((m.blockPolicy? ns r.line).or (m.defaultPolicy? ns))

theorem effectivePolicy_eq (r : Requirement) :
    m.effectivePolicy ns nilPolicy r = (m.namedPolicy? ns r).getD nilPolicy := rfl

theorem ne_nil_of_blockPolicy? {l : Line} (h : m.blockPolicy? ns l = some policy) :
    policy ≠ [] := by
  rw [blockPolicy?] at h
  split at h
  · obtain ⟨b, -, hb⟩ := Option.bind_eq_some_iff.1 h
    exact Block.ne_nil_of_policy? hb
  · cases h

theorem ne_nil_of_defaultPolicy? (h : m.defaultPolicy? ns = some policy) : policy ≠ [] := by
  obtain ⟨e, -, he⟩ := Option.bind_eq_some_iff.1 h
  exact Line.ne_nil_of_policy? he

theorem ne_nil_of_namedPolicy? {r : Requirement} (h : m.namedPolicy? ns r = some policy) :
    policy ≠ [] := by
  rw [namedPolicy?, Option.or_eq_some_iff, Option.or_eq_some_iff] at h
  rcases h with hown | ⟨-, hblock | ⟨-, hdefault⟩⟩
  · exact Line.ne_nil_of_policy? hown
  · exact ne_nil_of_blockPolicy? hblock
  · exact ne_nil_of_defaultPolicy? hdefault

/-- After a resolution a path has the policy that is named for its last requirement, unless that
is the nil policy. -/
theorem get?_eq_namedPolicy? {res : Resolution} (h : m.resolve ns nilPolicy = .ok res)
    (path : Text) :
    res.policies.get? path =
      ((lastRequiring? path m.requirements).bind (m.namedPolicy? ns)).filter
        fun p => p ≠ nilPolicy := by
  rw [resolve] at h
  split at h
  · cases h
  · rw [Except.ok.injEq] at h
    rw [← h, get?_foldl_assign]
    cases lastRequiring? path m.requirements with
    | none => rfl
    | some r =>
      rw [Option.map_some, Option.bind_some, effectivePolicy_eq]
      cases m.namedPolicy? ns r with
      | none => simp [Option.filter_some]
      | some p => rfl

theorem ne_of_get?_of_resolve {res : Resolution} (h : m.resolve ns nilPolicy = .ok res)
    {path : Text} (hpath : res.policies.get? path = some policy) :
    policy ≠ nilPolicy ∧ policy ≠ [] := by
  rw [get?_eq_namedPolicy? h, Option.filter_eq_some_iff] at hpath
  obtain ⟨r, -, hnamed⟩ := Option.bind_eq_some_iff.1 hpath.1
  exact ⟨by simpa using hpath.2, ne_nil_of_namedPolicy? hnamed⟩

/-- **The nil policy only filters.** Whether a manifest is refused, and for which directive, does
not depend on the nil policy. Where it resolves, the results for two nil policies are the same
after the entries with the other one of them are left out of each. No value in a result is the
nil policy or empty, and a path that is in both results has the same policy in both. -/
theorem resolve_without (ns n₁ n₂ : Text) (m : Manifest) :
    (∀ e, m.resolve ns n₁ = .error e ↔ m.resolve ns n₂ = .error e) ∧
    ((∀ e, m.resolve ns n₁ ≠ .error e) →
      ∃ res₁ res₂, m.resolve ns n₁ = .ok res₁ ∧ m.resolve ns n₂ = .ok res₂ ∧
        res₁.policies.without n₂ = res₂.policies.without n₁ ∧
        (∀ path policy, res₁.policies.get? path = some policy → policy ≠ n₁ ∧ policy ≠ []) ∧
        (∀ path policy, res₂.policies.get? path = some policy → policy ≠ n₂ ∧ policy ≠ []) ∧
        ∀ path p₁ p₂, res₁.policies.get? path = some p₁ → res₂.policies.get? path = some p₂ →
          p₁ = p₂) := by
  have hsame (e : MisplacedDirective) :
      m.resolve ns n₁ = .error e ↔ m.resolve ns n₂ = .error e := by
    rw [resolve_eq_error_iff, resolve_eq_error_iff]
  refine ⟨hsame, fun hresolves => ?_⟩
  cases h₁ : m.resolve ns n₁ with
  | error e => exact absurd h₁ (hresolves e)
  | ok res₁ =>
    cases h₂ : m.resolve ns n₂ with
    | error e => exact absurd ((hsame e).2 h₂) (hresolves e)
    | ok res₂ =>
      refine ⟨res₁, res₂, rfl, rfl, ?_, fun _ _ => ne_of_get?_of_resolve h₁,
        fun _ _ => ne_of_get?_of_resolve h₂, fun path p₁ p₂ hp₁ hp₂ => ?_⟩
      · -- both sides keep what is named and is neither of the two nil policies
        apply Dictionary.ext_get?
        intro path
        rw [Dictionary.get?_without, Dictionary.get?_without, get?_eq_namedPolicy? h₁,
          get?_eq_namedPolicy? h₂, Option.filter_filter, Option.filter_filter]
        simp only [Bool.and_comm]
      · rw [get?_eq_namedPolicy? h₁, Option.filter_eq_some_iff] at hp₁
        rw [get?_eq_namedPolicy? h₂, Option.filter_eq_some_iff] at hp₂
        exact Option.some.inj (hp₁.1.symm.trans hp₂.1)

/-- With the nil policy `q` the path has the policy `p` for a while, and with the nil policy `p` it
never has one. At the end it has none in both, as its last requirement names nothing. -/
example :
    let named : Line := ⟨⟨1, 1⟩, ⟨1, 9⟩, [], ⟨[⟨⟨1, 9⟩, Text.ofString "//ns:p"⟩], []⟩, false⟩
    let silent : Line := ⟨⟨2, 1⟩, ⟨2, 9⟩, [], {}, false⟩
    let m : Manifest := ⟨[], [], none, none,
      [⟨Text.ofString "a", [], named, false⟩, ⟨Text.ofString "a", [], silent, false⟩]⟩
    (∃ o, m.resolve (Text.ofString "ns") (Text.ofString "q") = .ok ⟨.empty, [o]⟩) ∧
      m.resolve (Text.ofString "ns") (Text.ofString "p") = .ok ⟨.empty, []⟩ := by
  intro named silent m
  exact ⟨⟨⟨Text.ofString "a", Text.ofString "p", Text.ofString "q", 2⟩, by decide⟩, by decide⟩

end Manifest

end ManifestPolicy
