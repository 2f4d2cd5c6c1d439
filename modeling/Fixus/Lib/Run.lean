import Mathlib.Tactic.Common

/-!
# Runs of a deterministic system

A system is a function `step : σ → ι → σ` from states and inputs; a run feeds it a list of inputs. Inputs that a state
does not admit leave it alone.

- `Meets C`: every step of the run satisfies a condition on its input and the state before it;
- `Along P`: every step of the run, with the states on both sides, satisfies a property;
- `run_invariant`: what the steps preserve under the condition holds at the end of every run that meets it;
- `run_iff`: what the steps preserve exactly under the condition;
- `along_of_invariant`, `meets_of_invariant`: and every step of it has what follows from the invariant before the step;
- `meets_iff`: a condition along a run, read off the inputs one by one;
- `meets_append`, `meets_congr`: a run in two parts, and the runs of two systems that agree on the way;
- `run_relation`: a preorder that the steps respect relates the two ends of a run.
-/

namespace Lib

variable {σ ι : Type*}

/-- Feed a list of inputs. -/
def run (step : σ → ι → σ) (s : σ) (is : List ι) : σ := is.foldl step s

/-- Every step of the run meets the condition. -/
def Meets (step : σ → ι → σ) (C : σ → ι → Prop) : σ → List ι → Prop
  | _, [] => True
  | s, i :: is => C s i ∧ Meets step C (step s i) is

/-- Every step of the run has the property. -/
def Along (step : σ → ι → σ) (P : σ → ι → σ → Prop) : σ → List ι → Prop
  | _, [] => True
  | s, i :: is => P s i (step s i) ∧ Along step P (step s i) is

/-- Conditions can be tested along a run. -/
instance Meets.decidable (step : σ → ι → σ) (C : σ → ι → Prop) [∀ s i, Decidable (C s i)] :
    (s : σ) → (is : List ι) → Decidable (Meets step C s is)
  | _, [] => isTrue trivial
  | s, i :: is =>
    have := Meets.decidable step C (step s i) is
    inferInstanceAs (Decidable (C s i ∧ Meets step C (step s i) is))

variable {step : σ → ι → σ} {s : σ} {is : List ι}

@[simp] theorem run_nil : run step s [] = s := rfl

@[simp] theorem run_cons (i : ι) : run step s (i :: is) = run step (step s i) is := rfl

/-- What the steps preserve under the condition holds at the end of every run that meets it. -/
theorem run_invariant {C : σ → ι → Prop} (Inv : σ → Prop) (hstep : ∀ s i, Inv s → C s i → Inv (step s i)) (h : Inv s)
    (hm : Meets step C s is) : Inv (run step s is) := by
  induction is generalizing s with
  | nil => exact h
  | cons i is ih => exact ih (hstep s i h hm.1) hm.2

/-- An invariant that a step keeps exactly under the condition holds at the end of exactly the runs that meet it. -/
theorem run_iff {C : σ → ι → Prop} (Inv : σ → Prop) (hstep : ∀ s i, Inv (step s i) ↔ Inv s ∧ C s i) :
    Inv (run step s is) ↔ Inv s ∧ Meets step C s is := by
  induction is generalizing s with
  | nil => exact (and_iff_left trivial).symm
  | cons i is ih => rw [run_cons, ih, hstep, Meets, and_assoc]

/-- What the invariant gives about a step holds of every step. -/
theorem along_of_invariant {C : σ → ι → Prop} {P : σ → ι → σ → Prop} (Inv : σ → Prop)
    (hstep : ∀ s i, Inv s → C s i → Inv (step s i)) (hP : ∀ s i, Inv s → C s i → P s i (step s i)) (h : Inv s)
    (hm : Meets step C s is) : Along step P s is := by
  induction is generalizing s with
  | nil => trivial
  | cons i is ih => exact ⟨hP s i h hm.1, ih (hstep s i h hm.1) hm.2⟩

/-- What the invariant gives about the next input holds along every run that meets the condition. -/
theorem meets_of_invariant {C P : σ → ι → Prop} (Inv : σ → Prop) (hstep : ∀ s i, Inv s → C s i → Inv (step s i))
    (hP : ∀ s i, Inv s → C s i → P s i) (h : Inv s) (hm : Meets step C s is) : Meets step P s is := by
  induction is generalizing s with
  | nil => trivial
  | cons i is ih => exact ⟨hP s i h hm.1, ih (hstep s i h hm.1) hm.2⟩

/-- A preorder that every step respects relates the two ends of a run. -/
theorem run_relation {C : σ → ι → Prop} (Inv : σ → Prop) (R : σ → σ → Prop) (hrefl : ∀ s, R s s)
    (htrans : ∀ s t u, R s t → R t u → R s u) (hstep : ∀ s i, Inv s → C s i → Inv (step s i))
    (hR : ∀ s i, Inv s → C s i → R s (step s i)) (h : Inv s) (hm : Meets step C s is) : R s (run step s is) := by
  induction is generalizing s with
  | nil => exact hrefl s
  | cons i is ih => exact htrans _ _ _ (hR s i h hm.1) (ih (hstep s i h hm.1) hm.2)

/-- A condition holds along a run when it holds of every input and the state it finds. -/
theorem meets_iff {C : σ → ι → Prop} :
    Meets step C s is ↔ ∀ pre i post, is = pre ++ i :: post → C (run step s pre) i := by
  induction is generalizing s with
  | nil => simp [Meets]
  | cons j is ih =>
    constructor
    · rintro ⟨hj, hm⟩ pre i post he
      cases pre with
      | nil =>
        obtain ⟨rfl, -⟩ := List.cons.inj he
        exact hj
      | cons j' pre =>
        obtain ⟨rfl, hrest⟩ := List.cons.inj he
        exact ih.mp hm pre i post hrest
    · intro h
      refine ⟨h [] j is rfl, ih.mpr fun pre i post he => ?_⟩
      exact h (j :: pre) i post (by rw [he, List.cons_append])

/-- A run in two parts. -/
theorem meets_append {C : σ → ι → Prop} {is' : List ι} :
    Meets step C s (is ++ is') ↔ Meets step C s is ∧ Meets step C (run step s is) is' := by
  induction is generalizing s with
  | nil => simp [Meets]
  | cons i is ih => simp [Meets, ih, and_assoc]

/-- Two systems that agree on every step of a run agree on the run. -/
theorem run_congr {step' : σ → ι → σ} {D : σ → ι → Prop} (heq : ∀ s i, D s i → step' s i = step s i)
    (hD : Meets step D s is) : run step' s is = run step s is := by
  induction is generalizing s with
  | nil => rfl
  | cons i is ih =>
    rw [run_cons, heq s i hD.1, run_cons]
    exact ih hD.2

/-- They also meet the same conditions on it. -/
theorem meets_congr {step' : σ → ι → σ} {C D : σ → ι → Prop} (heq : ∀ s i, D s i → step' s i = step s i)
    (hD : Meets step D s is) : Meets step' C s is ↔ Meets step C s is := by
  induction is generalizing s with
  | nil => exact Iff.rfl
  | cons i is ih =>
    unfold Meets
    rw [heq s i hD.1, ih hD.2]

/-- No condition at all. -/
theorem meets_true : Meets step (fun _ _ => True) s is := by
  induction is generalizing s with
  | nil => trivial
  | cons i is ih => exact ⟨trivial, ih⟩

end Lib
