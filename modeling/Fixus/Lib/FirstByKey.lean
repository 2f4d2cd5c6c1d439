import Mathlib.Data.List.Induction

/-!
# Keeping the first element of each key

`firstBy key xs` keeps, for every key, the first element of `xs` that has it, in order: what a loop computes that
pushes an element unless one of the same key was pushed before.

- `mem_firstBy_iff`: membership is being the first occurrence of one's key;
- `firstBy_filterMap_firstBy`: removing later occurrences before a key-respecting partial map changes nothing.
-/

namespace Lib

variable {α β κ : Type*} [DecidableEq κ]

/-- Append an element unless its key is already there. -/
def pushNew (key : α → κ) (out : List α) (x : α) : List α :=
  if out.any (fun e => decide (key e = key x)) then out else out ++ [x]

/-- The first element of each key. -/
def firstBy (key : α → κ) (xs : List α) : List α := xs.foldl (pushNew key) []

/-- The keys of the list contain the key. -/
theorem any_key_iff (key : α → κ) (out : List α) (k : κ) :
    out.any (fun e => decide (key e = k)) = true ↔ ∃ e ∈ out, key e = k := by simp

@[simp] theorem firstBy_nil (key : α → κ) : firstBy key [] = [] := rfl

theorem firstBy_append_singleton (key : α → κ) (xs : List α) (x : α) :
    firstBy key (xs ++ [x]) = pushNew key (firstBy key xs) x := by simp [firstBy]

/-- Pushing adds nothing but the element. -/
theorem mem_pushNew {key : α → κ} {out : List α} {x y : α} :
    y ∈ pushNew key out x ↔ y ∈ out ∨ (y = x ∧ ∀ e ∈ out, key e ≠ key x) := by
  unfold pushNew
  by_cases h : out.any (fun e => decide (key e = key x)) = true
  · rw [if_pos h]
    obtain ⟨e, he, hk⟩ := (any_key_iff key out (key x)).mp h
    exact ⟨Or.inl, fun hy => hy.elim id fun hy => absurd hk (hy.2 e he)⟩
  · rw [if_neg h]
    have hno : ∀ e ∈ out, key e ≠ key x := fun e he hk => h ((any_key_iff key out (key x)).mpr ⟨e, he, hk⟩)
    simp only [List.mem_append, List.mem_singleton]
    exact ⟨fun hy => hy.imp id fun e => ⟨e, hno⟩, fun hy => hy.imp id And.left⟩

/-- A kept element is an element. -/
theorem mem_of_mem_firstBy {key : α → κ} {xs : List α} {x : α} (h : x ∈ firstBy key xs) : x ∈ xs := by
  induction xs using List.reverseRecOn with
  | nil => simp at h
  | append_singleton xs y ih =>
    rw [firstBy_append_singleton] at h
    rcases mem_pushNew.mp h with h | ⟨rfl, -⟩
    · exact List.mem_append_left _ (ih h)
    · simp

/-- No key is lost. -/
theorem exists_firstBy_key (key : α → κ) {xs : List α} {x : α} (h : x ∈ xs) :
    ∃ e ∈ firstBy key xs, key e = key x := by
  induction xs using List.reverseRecOn with
  | nil => simp at h
  | append_singleton xs y ih =>
    rw [firstBy_append_singleton]
    by_cases hk : ∃ e ∈ firstBy key xs, key e = key x
    · obtain ⟨e, he, hk⟩ := hk
      exact ⟨e, mem_pushNew.mpr (Or.inl he), hk⟩
    · have hx : x ∉ xs := fun hx => hk (ih hx)
      have hxy : x = y := by simpa [hx] using h
      subst hxy
      exact ⟨x, mem_pushNew.mpr (Or.inr ⟨rfl, fun e he hek => hk ⟨e, he, hek⟩⟩), rfl⟩

/-- An element is kept exactly when it occurs with no element of the same key before it. -/
theorem mem_firstBy_iff {key : α → κ} {xs : List α} {x : α} :
    x ∈ firstBy key xs ↔ ∃ before after, xs = before ++ x :: after ∧ ∀ e ∈ before, key e ≠ key x := by
  induction xs using List.reverseRecOn with
  | nil => simp
  | append_singleton xs y ih =>
    rw [firstBy_append_singleton, mem_pushNew, ih]
    constructor
    · rintro (⟨before, after, rfl, hno⟩ | ⟨rfl, hno⟩)
      · exact ⟨before, after ++ [y], by simp, hno⟩
      · refine ⟨xs, [], rfl, fun e he hk => ?_⟩
        obtain ⟨e', he', hk'⟩ := exists_firstBy_key key he
        exact hno e' he' (hk'.trans hk)
    · rintro ⟨before, after, hxs, hno⟩
      rcases List.eq_nil_or_concat after with rfl | ⟨after', z, rfl⟩
      · obtain ⟨rfl, hy⟩ := List.append_inj' hxs rfl
        have hyx : y = x := by simpa using hy
        subst hyx
        exact Or.inr ⟨rfl, fun e he => hno e (mem_of_mem_firstBy he)⟩
      · have hxs' : xs ++ [y] = (before ++ x :: after') ++ [z] := by simpa using hxs
        obtain ⟨rfl, -⟩ := List.append_inj' hxs' rfl
        exact Or.inl ⟨before, after', rfl, hno⟩

/-- A partial map respects keys when elements of one key go to nothing together or to elements of one key. -/
def RespectsKey {κ' : Type*} (key : α → κ) (key' : β → κ') (f : α → Option β) : Prop :=
  ∀ x y, key x = key y → (f x).map key' = (f y).map key'

/-- Removing later occurrences before a key-respecting partial map changes nothing. -/
theorem firstBy_filterMap_firstBy {κ' : Type*} [DecidableEq κ'] {key : α → κ} {key' : β → κ'} {f : α → Option β}
    (hf : RespectsKey key key' f) (xs : List α) :
    firstBy key' ((firstBy key xs).filterMap f) = firstBy key' (xs.filterMap f) := by
  induction xs using List.reverseRecOn with
  | nil => simp
  | append_singleton xs y ih =>
    rw [firstBy_append_singleton, List.filterMap_append]
    unfold pushNew
    by_cases h : (firstBy key xs).any (fun e => decide (key e = key y)) = true
    · rw [if_pos h, ih]
      obtain ⟨e, he, hk⟩ := (any_key_iff key _ _).mp h
      have hfe := hf e y hk
      cases hfy : f y with
      | none => simp [hfy]
      | some z =>
        rw [hfy] at hfe
        obtain ⟨z', hz', hzk⟩ := Option.map_eq_some_iff.mp hfe
        obtain ⟨w, hw, hwk⟩ := exists_firstBy_key key'
          (List.mem_filterMap.mpr ⟨e, mem_of_mem_firstBy he, hz'⟩ : z' ∈ xs.filterMap f)
        have hany := (any_key_iff key' (firstBy key' (xs.filterMap f)) (key' z)).mpr ⟨w, hw, hwk.trans hzk⟩
        simp only [List.filterMap_cons, hfy, List.filterMap_nil]
        rw [firstBy_append_singleton, pushNew, if_pos hany]
    · rw [if_neg h, List.filterMap_append]
      cases hfy : f y with
      | none => simp [hfy, ih]
      | some z =>
        simp only [List.filterMap_cons, hfy, List.filterMap_nil]
        rw [firstBy_append_singleton, firstBy_append_singleton, ih]

end Lib
