import Mathlib.Data.List.Infix

/-!
# Lists up to a mark

`upTo p l` is the list up to and including its first element with the property, and the whole list without one.

- `upTo_append`: in two parts;
- `upTo_prefix_append`: more elements at the end make it longer at most;
- `upTo_filter`: a filter that keeps the marks may come before or after.
-/

namespace Lib

variable {α : Type*} {p q : α → Bool} {l l' : List α}

/-- The list up to and including its first element with the property. -/
def upTo (p : α → Bool) : List α → List α
  | [] => []
  | a :: l => if p a then [a] else a :: upTo p l

@[simp] theorem upTo_nil : upTo p [] = [] := rfl

theorem upTo_of_none (h : ∀ a ∈ l, p a = false) : upTo p l = l := by
  induction l with
  | nil => rfl
  | cons a l ih =>
    rw [upTo, h a List.mem_cons_self, ih fun b hb => h b (List.mem_cons_of_mem a hb)]
    rfl

/-- A mark in the first part ends it there. -/
theorem upTo_append_of_mem (h : ∃ a ∈ l, p a = true) : upTo p (l ++ l') = upTo p l := by
  induction l with
  | nil =>
    obtain ⟨a, ha, -⟩ := h
    cases ha
  | cons a l ih =>
    rw [List.cons_append, upTo, upTo]
    by_cases ha : p a = true
    · rw [if_pos ha, if_pos ha]
    · obtain ⟨b, hb, hpb⟩ := h
      rcases List.mem_cons.mp hb with rfl | hb
      · exact absurd hpb ha
      · rw [if_neg ha, if_neg ha, ih ⟨b, hb, hpb⟩]

/-- Without one it goes on in the second. -/
theorem upTo_append_of_none (h : ∀ a ∈ l, p a = false) : upTo p (l ++ l') = l ++ upTo p l' := by
  induction l with
  | nil => rfl
  | cons a l ih =>
    rw [List.cons_append, upTo, h a List.mem_cons_self, ih fun b hb => h b (List.mem_cons_of_mem a hb)]
    rfl

theorem upTo_append : upTo p (l ++ l') = if l.any p then upTo p l else l ++ upTo p l' := by
  by_cases h : l.any p = true
  · rw [if_pos h, upTo_append_of_mem (List.any_eq_true.mp h)]
  · rw [if_neg h, upTo_append_of_none]
    intro a ha
    rw [Bool.eq_false_iff]
    intro hpa
    exact h (List.any_eq_true.mpr ⟨a, ha, hpa⟩)

theorem upTo_prefix_self (p : α → Bool) (l : List α) : upTo p l <+: l := by
  induction l with
  | nil => exact List.prefix_refl _
  | cons a l ih =>
    rw [upTo]
    split
    · exact ⟨l, rfl⟩
    · exact List.cons_prefix_cons.mpr ⟨rfl, ih⟩

/-- More elements at the end make it longer at most. -/
theorem upTo_prefix_append : upTo p l <+: upTo p (l ++ l') := by
  rw [upTo_append]
  split
  · exact List.prefix_refl _
  · exact (upTo_prefix_self p l).trans (List.prefix_append _ _)

/-- A filter that keeps the marks may come before or after. -/
theorem upTo_filter (h : ∀ a, p a = true → q a = true) (l : List α) : upTo p (l.filter q) = (upTo p l).filter q := by
  induction l with
  | nil => rfl
  | cons a l ih =>
    by_cases hp : p a = true
    · simp [upTo, hp, h a hp]
    · by_cases hq : q a = true
      · simp [upTo, hp, hq, ih]
      · simp [upTo, hp, hq, ih]

end Lib
