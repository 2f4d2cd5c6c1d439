import Mathlib.Data.List.Basic

/-!
# Lists by key

The keys of a list in order, and for every key the values that have it in order, determine the values of the list.

- `map_eq_of_groups`: lists with the same keys and the same groups have the same values;
- `eq_of_map_eq`: and are equal if the values tell their elements apart.
-/

namespace Lib

variable {α κ ν : Type*} {key : α → κ} {val : α → ν} {l l' : List α}

/-- Lists with the same keys and the same groups have the same values. -/
theorem map_eq_of_groups [DecidableEq κ] (hkeys : l.map key = l'.map key)
    (hgroups : ∀ k, (l.filter fun a => key a = k).map val = (l'.filter fun a => key a = k).map val) :
    l.map val = l'.map val := by
  induction l generalizing l' with
  | nil => cases l' with
    | nil => rfl
    | cons a' l' => cases hkeys
  | cons a l ih =>
    cases l' with
    | nil => cases hkeys
    | cons a' l' =>
      obtain ⟨hk, hks⟩ := List.cons.inj hkeys
      -- the heads are the first elements of the same group
      have hhead := hgroups (key a)
      simp only [List.filter_cons, hk.symm, decide_true, if_true, List.map_cons] at hhead
      obtain ⟨hv, -⟩ := List.cons.inj hhead
      have hrest := ih hks fun k => by
        have h := hgroups k
        rw [List.filter_cons, List.filter_cons, ← hk] at h
        by_cases hka : key a = k
        · simp only [hka, decide_true, if_true, List.map_cons] at h
          exact (List.cons.inj h).2
        · simpa [hka] using h
      rw [List.map_cons, List.map_cons, hv, hrest]

/-- Lists with the same values are equal if the values tell their elements apart. -/
theorem eq_of_map_eq (h : l.map val = l'.map val) (hinj : ∀ a ∈ l, ∀ a' ∈ l', val a = val a' → a = a') : l = l' := by
  induction l generalizing l' with
  | nil => exact (List.map_eq_nil_iff.mp h.symm).symm
  | cons a l ih =>
    cases l' with
    | nil => cases h
    | cons a' l' =>
      obtain ⟨hv, hvs⟩ := List.cons.inj h
      rw [hinj a (by simp) a' (by simp) hv,
        ih hvs fun b hb b' hb' => hinj b (List.mem_cons_of_mem _ hb) b' (List.mem_cons_of_mem _ hb')]

end Lib
