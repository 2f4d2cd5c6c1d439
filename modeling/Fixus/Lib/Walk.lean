import Mathlib.Data.Finset.Dedup
import Mathlib.Data.List.Sort
import Mathlib.Order.Basic

/-!
# Orders in which a set is walked

A hash set is walked in an order of its own. `walk order S` lists the elements of `S`, those of `order` first and in
this order.

- `mem_walk`: every element is visited, and nothing else;
- `nodup_walk`: none is visited twice;
- `walk_perm`: two walks visit the same elements;
- `walk_of_mem`: any elements can come first;
- `walk_filterMap_perm`: what is read off a set and off a part of it that has all the readings;
- `walk_flatMap_iff`: what is read off the elements does not depend on the order exactly if the readings commute.
-/

namespace Lib

variable {α : Type*} [LinearOrder α]

/-- The elements of a set, the smallest first. -/
def ascending (S : Finset α) : List α :=
  Quotient.liftOn S.val (fun l => l.insertionSort (· ≤ ·)) fun _ _ h =>
    List.Perm.eq_of_pairwise (fun _ _ _ _ => le_antisymm) (List.pairwise_insertionSort _ _)
      (List.pairwise_insertionSort _ _)
      ((List.perm_insertionSort _ _).trans (h.trans (List.perm_insertionSort _ _).symm))

theorem coe_ascending (S : Finset α) : (ascending S : Multiset α) = S.val := by
  obtain ⟨v, hv⟩ := S
  induction v using Quotient.inductionOn with
  | h l => exact Multiset.coe_eq_coe.mpr (List.perm_insertionSort _ l)

@[simp] theorem mem_ascending {S : Finset α} {a : α} : a ∈ ascending S ↔ a ∈ S := by
  rw [← Multiset.mem_coe, coe_ascending, Finset.mem_val]

theorem nodup_ascending (S : Finset α) : (ascending S).Nodup := by
  rw [← Multiset.coe_nodup, coe_ascending]
  exact S.nodup

/-- They come in strictly ascending order. -/
theorem pairwise_ascending (S : Finset α) : (ascending S).Pairwise (· < ·) := by
  have hsorted : (ascending S).Pairwise (· ≤ ·) := by
    obtain ⟨v, hv⟩ := S
    induction v using Quotient.inductionOn with
    | h l => exact List.pairwise_insertionSort _ l
  exact (hsorted.and (nodup_ascending S)).imp fun h => lt_of_le_of_ne h.1 h.2

/-- The elements of the set, those of the order first. -/
def walk (order : List α) (S : Finset α) : List α :=
  order.dedup.filter (· ∈ S) ++ (ascending S).filter (· ∉ order)

/-- Every element is visited, and nothing else. -/
@[simp] theorem mem_walk {order : List α} {S : Finset α} {a : α} : a ∈ walk order S ↔ a ∈ S := by
  by_cases h : a ∈ order <;> simp [walk, h]

/-- No element is visited twice. -/
theorem nodup_walk (order : List α) (S : Finset α) : (walk order S).Nodup := by
  refine List.Nodup.append ((List.nodup_dedup _).filter _) ((nodup_ascending S).filter _) fun a h h' => ?_
  simp only [List.mem_filter, List.mem_dedup, decide_eq_true_eq] at h h'
  exact h'.2 h.1

@[simp] theorem walk_nil (S : Finset α) : walk [] S = ascending S := by simp [walk]

/-- Two walks of a set visit the same elements. -/
theorem walk_perm (order order' : List α) (S : Finset α) : (walk order S).Perm (walk order' S) :=
  (List.perm_ext_iff_of_nodup (nodup_walk order S) (nodup_walk order' S)).mpr fun a => by simp

/-- Some elements can come first. -/
theorem walk_of_mem {order : List α} {S : Finset α} (hn : order.Nodup) (hm : ∀ a ∈ order, a ∈ S) :
    walk order S = order ++ (ascending S).filter (· ∉ order) := by
  have hfirst : order.dedup.filter (· ∈ S) = order := by
    rw [hn.dedup]
    exact List.filter_eq_self.mpr fun a ha => by simpa using hm a ha
  rw [walk, hfirst]

/-! ## What is read off a walk -/

section Readings

variable {β : Type*} {f : α → List β} {S : Finset α}

/-- A part of a set has all the readings if there are none elsewhere. -/
theorem walk_filterMap_perm {S' : Finset α} {g g' : α → Option β} (order order' : List α) (hsub : S' ⊆ S)
    (hsame : ∀ a ∈ S', g' a = g a) (hnone : ∀ a ∈ S, a ∉ S' → g a = none) :
    ((walk order' S').filterMap g').Perm ((walk order S).filterMap g) := by
  have hpart : ((walk order S).filter (· ∈ S')).Perm (walk order' S') :=
    (List.perm_ext_iff_of_nodup ((nodup_walk order S).filter _) (nodup_walk order' S')).mpr fun a => by
      simpa using fun ha => hsub ha
  have hrest : ((walk order S).filter (· ∈ S')).filterMap g = (walk order S).filterMap g := by
    rw [List.filterMap_filter]
    refine List.filterMap_congr fun a ha => ?_
    by_cases hmem : a ∈ S'
    · simp [hmem]
    · simp [hmem, hnone a (mem_walk.mp ha) hmem]
  rw [List.filterMap_congr fun a ha => hsame a (mem_walk.mp ha), ← hrest]
  exact hpart.symm.filterMap g

omit [LinearOrder α] in
/-- Readings that commute can be made in any order. -/
theorem flatMap_eq_of_perm {l l' : List α} (h : l.Perm l') (hc : ∀ a ∈ l, ∀ b ∈ l, f a ++ f b = f b ++ f a) :
    l.flatMap f = l'.flatMap f := by
  induction h with
  | nil => rfl
  | cons a _ ih =>
    rw [List.flatMap_cons, List.flatMap_cons,
      ih fun b hb b' hb' => hc b (List.mem_cons_of_mem _ hb) b' (List.mem_cons_of_mem _ hb')]
  | swap a b l =>
    simp only [List.flatMap_cons, ← List.append_assoc]
    rw [hc a (by simp) b (by simp)]
  | trans h _ ih ih' =>
    exact (ih hc).trans (ih' fun a ha b hb => hc a (h.mem_iff.mpr ha) b (h.mem_iff.mpr hb))

/-- **The readings of a set do not depend on the order of the walk exactly if any two of them commute.** -/
theorem walk_flatMap_iff : (∀ order, (walk order S).flatMap f = (ascending S).flatMap f) ↔
    ∀ a ∈ S, ∀ b ∈ S, f a ++ f b = f b ++ f a := by
  constructor
  · intro h a ha b hb
    by_cases hne : a = b
    · rw [hne]
    · have hab := h [a, b]
      have hba := h [b, a]
      rw [walk_of_mem (by simp [hne]) (by simp [ha, hb])] at hab
      rw [walk_of_mem (by simp [Ne.symm hne]) (by simp [ha, hb])] at hba
      have hrest : (fun c => decide (c ∉ [b, a])) = fun c => decide (c ∉ [a, b]) := by
        funext c
        simp [and_comm]
      have heq := hab.trans hba.symm
      rw [hrest] at heq
      simp only [List.cons_append, List.nil_append, List.flatMap_cons, ← List.append_assoc] at heq
      exact List.append_cancel_right heq
  · intro h order
    rw [← walk_nil S]
    exact flatMap_eq_of_perm (walk_perm order [] S) fun a ha b hb => h a (mem_walk.mp ha) b (mem_walk.mp hb)

end Readings

end Lib
