import Mathlib.Data.List.Forall2

/-!
# Separated texts

A sequence is written as the texts of its items with a separator between them and an end mark after them. When the
texts of single items can be told apart in front of a separator or an end mark, so can those of sequences.

- `Ends`: a text that goes on with a separator or an end mark;
- `forall₂_of_intercalate`: sequences with the same text have related items, and the texts go on alike;
- `append_sep_eq_iff`: two pairs of free texts with a separator between them are written alike exactly if they are the
  same or the separator has `Moved`.
-/

namespace Lib.Separated

variable {α β γ : Type*} {text₁ : α → List γ} {text₂ : β → List γ} {R : α → β → Prop} {sep close : γ}

/-- The text goes on with a separator or an end mark. -/
def Ends (sep close : γ) (r : List γ) : Prop := ∃ c cs, r = c :: cs ∧ (c = sep ∨ c = close)

/-- A separator before each item but the first one. -/
theorem intercalate_cons (p : List γ) (ps : List (List γ)) :
    [sep].intercalate (p :: ps) = p ++ ps.flatMap (sep :: ·) := by
  induction ps generalizing p with
  | nil => simp
  | cons q ps ih => rw [List.intercalate_cons_cons, ih, List.flatMap_cons, List.append_assoc]; rfl

/-- Two items can be told apart in front of what comes after an item. -/
def Apart (sep close : γ) (text₁ : α → List γ) (text₂ : β → List γ) (R : α → β → Prop) (a : α) (b : β) : Prop :=
  ∀ r r', Ends sep close r → Ends sep close r' → text₁ a ++ r = text₂ b ++ r' → R a b ∧ r = r'

theorem ends_more (as : List α) (r : List γ) : Ends sep close (as.flatMap (sep :: text₁ ·) ++ close :: r) := by
  cases as with
  | nil => exact ⟨close, r, rfl, Or.inr rfl⟩
  | cons a as => exact ⟨sep, _, rfl, Or.inl rfl⟩

/-- The items after the first ones. -/
theorem forall₂_of_more (hne : sep ≠ close) {as : List α} {bs : List β} {r r' : List γ}
    (hitem : ∀ a ∈ as, ∀ b ∈ bs, Apart sep close text₁ text₂ R a b)
    (h : as.flatMap (sep :: text₁ ·) ++ close :: r = bs.flatMap (sep :: text₂ ·) ++ close :: r') :
    List.Forall₂ R as bs ∧ r = r' := by
  induction as generalizing bs with
  | nil =>
    cases bs with
    | nil => exact ⟨.nil, (List.cons.inj h).2⟩
    | cons b bs => exact absurd (List.cons.inj h).1.symm hne
  | cons a as ih =>
    cases bs with
    | nil => exact absurd (List.cons.inj h).1 hne
    | cons b bs =>
      rw [List.flatMap_cons, List.flatMap_cons, List.cons_append, List.cons_append, List.cons_append, List.cons_append,
        List.append_assoc, List.append_assoc] at h
      obtain ⟨hab, hrest⟩ := hitem a List.mem_cons_self b List.mem_cons_self _ _ (ends_more as r) (ends_more bs r')
        (List.cons.inj h).2
      obtain ⟨hall, hr⟩ := ih (fun a ha b hb => hitem a (List.mem_cons_of_mem _ ha) b (List.mem_cons_of_mem _ hb)) hrest
      exact ⟨.cons hab hall, hr⟩

/-- **Sequences with the same text have related items.** No item starts like the end mark. -/
theorem forall₂_of_intercalate (hne : sep ≠ close) {as : List α} {bs : List β} {r r' : List γ}
    (hopen₁ : ∀ a ∈ as, ∃ c cs, text₁ a = c :: cs ∧ c ≠ close)
    (hopen₂ : ∀ b ∈ bs, ∃ c cs, text₂ b = c :: cs ∧ c ≠ close)
    (hitem : ∀ a ∈ as, ∀ b ∈ bs, Apart sep close text₁ text₂ R a b)
    (h : [sep].intercalate (as.map text₁) ++ close :: r = [sep].intercalate (bs.map text₂) ++ close :: r') :
    List.Forall₂ R as bs ∧ r = r' := by
  cases as with
  | nil =>
    cases bs with
    | nil => exact ⟨.nil, (List.cons.inj h).2⟩
    | cons b bs =>
      obtain ⟨c, cs, htext, hc⟩ := hopen₂ b List.mem_cons_self
      rw [List.map_cons, intercalate_cons, htext] at h
      exact absurd (List.cons.inj h).1.symm hc
  | cons a as =>
    cases bs with
    | nil =>
      obtain ⟨c, cs, htext, hc⟩ := hopen₁ a List.mem_cons_self
      rw [List.map_cons, intercalate_cons, htext] at h
      exact absurd (List.cons.inj h).1 hc
    | cons b bs =>
      rw [List.map_cons, List.map_cons, intercalate_cons, intercalate_cons, List.flatMap_map, List.flatMap_map,
        List.append_assoc, List.append_assoc] at h
      obtain ⟨hab, hrest⟩ := hitem a List.mem_cons_self b List.mem_cons_self _ _ (ends_more as r) (ends_more bs r') h
      obtain ⟨hall, hr⟩ := forall₂_of_more hne
        (fun a ha b hb => hitem a (List.mem_cons_of_mem _ ha) b (List.mem_cons_of_mem _ hb)) hrest
      exact ⟨.cons hab hall, hr⟩

/-! ## Two free texts with a separator between them -/

/-- The separator is found further on: after a part of the second text, or overlapping itself. -/
def Moved (sep x y x' y' : List γ) : Prop :=
  (∃ z, x' = x ++ sep ++ z ∧ y = z ++ sep ++ y') ∨
    ∃ w u v, w ≠ [] ∧ u ≠ [] ∧ sep = w ++ u ∧ sep = u ++ v ∧ x' = x ++ w ∧ y = v ++ y'

theorem Moved.append_eq {sep x y x' y' : List γ} (h : Moved sep x y x' y') :
    x ++ sep ++ y = x' ++ sep ++ y' := by
  rcases h with ⟨z, rfl, rfl⟩ | ⟨w, u, v, -, -, hw, hv, rfl, rfl⟩
  · simp only [List.append_assoc]
  · calc x ++ sep ++ (v ++ y') = x ++ w ++ (u ++ v) ++ y' := by rw [hw]; simp only [List.append_assoc]
      _ = x ++ w ++ sep ++ y' := by rw [← hv]

/-- A separator that is found further on. -/
theorem moved_of_append {sep x y w y' : List γ} (hw : w ≠ []) (h : sep ++ y = w ++ (sep ++ y')) :
    Moved sep x y (x ++ w) y' := by
  rcases List.append_eq_append_iff.mp h with ⟨z, rfl, rfl⟩ | ⟨u, hsep, hrest⟩
  · exact Or.inl ⟨z, by simp only [List.append_assoc], by simp only [List.append_assoc]⟩
  · by_cases hu : u = []
    · -- it starts right after the first one
      subst hu
      rw [List.append_nil] at hsep
      subst hsep
      exact Or.inl ⟨[], by simp, by simpa using hrest.symm⟩
    · rcases List.append_eq_append_iff.mp hrest with ⟨v, hv, -⟩ | ⟨v, hv, hy⟩
      · -- the second one is not longer than the first one
        have hlen := congrArg List.length (hsep.trans (congrArg (w ++ ·) hv))
        have hpos := List.length_pos_iff.mpr hw
        simp only [List.length_append] at hlen
        omega
      · exact Or.inr ⟨w, u, v, hw, hu, hsep, hv, rfl, hy⟩

/-- **When two pairs are written alike.** -/
theorem append_sep_eq_iff {sep x y x' y' : List γ} : x ++ sep ++ y = x' ++ sep ++ y' ↔
    (x = x' ∧ y = y') ∨ Moved sep x y x' y' ∨ Moved sep x' y' x y := by
  constructor
  · intro h
    rw [List.append_assoc, List.append_assoc] at h
    rcases List.append_eq_append_iff.mp h with ⟨w, rfl, hrest⟩ | ⟨w, rfl, hrest⟩
    · by_cases hw : w = []
      · subst hw
        exact Or.inl ⟨by simp, List.append_cancel_left hrest⟩
      · exact Or.inr (Or.inl (moved_of_append hw hrest))
    · by_cases hw : w = []
      · subst hw
        exact Or.inl ⟨by simp, List.append_cancel_left hrest.symm⟩
      · exact Or.inr (Or.inr (moved_of_append hw hrest))
  · rintro (⟨rfl, rfl⟩ | h | h)
    · rfl
    · exact h.append_eq
    · exact h.append_eq.symm

end Lib.Separated
