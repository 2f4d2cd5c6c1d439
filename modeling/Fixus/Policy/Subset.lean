import Fixus.Policy.Ceiling

/-!
# What the subset check says

The check compares the roots of the scopes only. Containment is a preorder, so that is enough for all paths below them,
and checking the levels of a chain of policies one after the other is enough for its ends.

- `NoWider`: no path and no rule of a policy goes beyond another policy;
- `validateSubset_ok_iff_noWider`: what is accepted;
- `validateSubset_error`: what is reported;
- `validateSubset_exact`: both, and the levels of a chain.
-/

namespace Fixus

/-- Every path in a scope of the child is in one of the parent, and every rule of the child is one of the parent. -/
structure NoWider (child parent : CapabilityPolicy) : Prop where
  read : ∀ p, Covered child.fs.readPaths p → Covered parent.fs.readPaths p
  write : ∀ p, Covered child.fs.writePaths p → Covered parent.fs.writePaths p
  egress : ∀ r ∈ child.net.egress, r ∈ parent.net.egress

/-- No scope of the list covers all paths of the scope. -/
def Uncovered (scopes : List PathScope) (c : PathScope) : Prop :=
  ∀ s ∈ scopes, ∃ p, pathWithin p c = true ∧ pathWithin p s = false

variable {scopes : List PathScope} {c : PathScope} {a b d child parent : CapabilityPolicy}

/-- A scope covers another if the root of the other lies in it. -/
theorem uncovered_iff : Uncovered scopes c ↔ ¬ Covered scopes c.path := by
  constructor
  · rintro h ⟨s, hs, hc⟩
    obtain ⟨p, hpc, hps⟩ := h s hs
    rw [pathWithin_trans hpc hc] at hps
    cases hps
  · intro h s hs
    refine ⟨c.path, pathWithin_self c, Bool.eq_false_iff.mpr fun hc => ?_⟩
    exact h ⟨s, hs, hc⟩

instance : Decidable (Uncovered scopes c) := decidable_of_iff _ uncovered_iff.symm

/-- A list of scopes covers the paths of another if it covers their roots. -/
theorem covered_of_roots {scopes' : List PathScope} :
    (∀ p, Covered scopes p → Covered scopes' p) ↔ ∀ c ∈ scopes, Covered scopes' c.path := by
  constructor
  · intro h c hc
    exact h c.path ⟨c, hc, pathWithin_self c⟩
  · rintro h p ⟨c, hc, hp⟩
    obtain ⟨s, hs, hcs⟩ := h c hc
    exact ⟨s, hs, pathWithin_trans hp hcs⟩

/-- **A policy is accepted exactly if it goes nowhere beyond its parent.** -/
theorem validateSubset_ok_iff_noWider : validateSubset child parent = .ok () ↔ NoWider child parent := by
  rw [validateSubset_ok_iff]
  constructor
  · rintro ⟨hread, hwrite, hegress⟩
    exact ⟨covered_of_roots.mpr hread, covered_of_roots.mpr hwrite, hegress⟩
  · rintro ⟨hread, hwrite, hegress⟩
    exact ⟨covered_of_roots.mp hread, covered_of_roots.mp hwrite, hegress⟩

theorem NoWider.refl (a : CapabilityPolicy) : NoWider a a := ⟨fun _ h => h, fun _ h => h, fun _ h => h⟩

theorem NoWider.trans (h₁ : NoWider a b) (h₂ : NoWider b d) : NoWider a d where
  read p h := h₂.read p (h₁.read p h)
  write p h := h₂.write p (h₁.write p h)
  egress r h := h₂.egress r (h₁.egress r h)

/-- What is beyond the parent, in the order of the child. -/
def violationsOf (child parent : CapabilityPolicy) : SubsetViolation where
  fsReadViolations :=
    (child.fs.readPaths.filter fun c => Uncovered parent.fs.readPaths c).map fun c => normalizePath c.path
  fsWriteViolations :=
    (child.fs.writePaths.filter fun c => Uncovered parent.fs.writePaths c).map fun c => normalizePath c.path
  netViolations := (child.net.egress.filter fun r => r ∉ parent.net.egress).map EgressRule.host

theorem checkPaths_eq {scopes' : List PathScope} : checkPaths scopes scopes' =
    (scopes.filter fun c => Uncovered scopes' c).map fun c => normalizePath c.path := by
  unfold checkPaths
  refine congrArg _ (List.filter_congr fun c _ => ?_)
  rw [Bool.eq_iff_iff, decide_eq_true_eq, uncovered_iff]
  simp [Covered]

/-- **A rejection reports what is beyond the parent.** -/
theorem validateSubset_error {v : SubsetViolation} (h : validateSubset child parent = .error v) :
    v = violationsOf child parent := by
  unfold validateSubset at h
  dsimp only at h
  split at h
  · cases h
  · obtain rfl := Except.error.inj h
    have hnet : (child.net.egress.filter fun cr => !parent.net.egress.any fun pr => decide (pr = cr)) =
        child.net.egress.filter fun r => r ∉ parent.net.egress := List.filter_congr fun r _ => by
        have hany : (parent.net.egress.any fun pr => decide (pr = r)) = decide (r ∈ parent.net.egress) := by
          rw [Bool.eq_iff_iff]
          simp
        rw [hany, decide_not]
    unfold violationsOf
    rw [checkPaths_eq, checkPaths_eq, hnet]

/-- **The subset check is exact**: it accepts what goes nowhere beyond the parent, it is reflexive and transitive, and
it reports the scopes that no scope of the parent covers and the rules that are missing there, in order. -/
theorem validateSubset_exact :
    (∀ child parent, validateSubset child parent = .ok () ↔ NoWider child parent) ∧
    (∀ policy, validateSubset policy policy = .ok ()) ∧
    (∀ task tenant operator, validateSubset task tenant = .ok () → validateSubset tenant operator = .ok () →
      validateSubset task operator = .ok ()) ∧
    ∀ child parent v, validateSubset child parent = .error v → v = violationsOf child parent := by
  refine ⟨fun child parent => validateSubset_ok_iff_noWider, fun policy => ?_, fun task tenant operator h₁ h₂ => ?_,
    fun child parent v => validateSubset_error⟩
  · exact validateSubset_ok_iff_noWider.mpr (NoWider.refl policy)
  · rw [validateSubset_ok_iff_noWider] at h₁ h₂ ⊢
    exact h₁.trans h₂

end Fixus
