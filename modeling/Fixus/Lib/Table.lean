import Mathlib.Algebra.BigOperators.Group.Finset.Basic
import Mathlib.Data.Finmap

/-!
# Tables

A table is a finite map whose missing entries stand for a default value. `sumValues g d m` adds up `g` over the entries
of `m`; `tally` adds an element to the entry of its key.

- `sumValues_insert`: what one entry changes;
- `lookup_foldl_insert`: the entries after the same value was entered under some keys;
- `lookup_foldl_tally`: an entry of the tally of a list is made of the elements with its key.
-/

namespace Lib

variable {α β : Type*} [DecidableEq α] {g : β → Nat} {d : β} {m : Finmap fun _ : α => β} {a : α} {b : β}

/-- The sum of a function over the entries of a table. -/
def sumValues (g : β → Nat) (d : β) (m : Finmap fun _ : α => β) : Nat := ∑ k ∈ m.keys, g ((m.lookup k).getD d)

@[simp] theorem sumValues_empty : sumValues g d (∅ : Finmap fun _ : α => β) = 0 := by simp [sumValues]

theorem keys_insert (m : Finmap fun _ : α => β) (a : α) (b : β) : (m.insert a b).keys = insert a m.keys := by
  ext k
  simp [Finmap.mem_keys]

/-- A new entry takes the place of the old one, or of the default. -/
theorem sumValues_insert (hg : g d = 0) :
    sumValues g d (m.insert a b) + g ((m.lookup a).getD d) = sumValues g d m + g b := by
  -- the keys but `a` keep their entries
  have hrest : ∑ k ∈ m.keys.erase a, g (((m.insert a b).lookup k).getD d) =
      ∑ k ∈ m.keys.erase a, g ((m.lookup k).getD d) :=
    Finset.sum_congr rfl fun k hk => by rw [Finmap.lookup_insert_of_ne _ (Finset.ne_of_mem_erase hk)]
  have hnew : sumValues g d (m.insert a b) = g b + ∑ k ∈ m.keys.erase a, g ((m.lookup k).getD d) := by
    unfold sumValues
    rw [keys_insert, ← Finset.insert_erase (Finset.mem_insert_self a m.keys), Finset.erase_insert_eq_erase,
      Finset.sum_insert (Finset.notMem_erase a _), hrest, Finmap.lookup_insert]
    rfl
  have hold : sumValues g d m = g ((m.lookup a).getD d) + ∑ k ∈ m.keys.erase a, g ((m.lookup k).getD d) := by
    unfold sumValues
    by_cases ha : a ∈ m.keys
    · exact (Finset.add_sum_erase m.keys (fun k => g ((m.lookup k).getD d)) ha).symm
    · have hnone : m.lookup a = none := Finmap.lookup_eq_none.mpr fun h => ha (Finmap.mem_keys.mpr h)
      rw [Finset.erase_eq_of_notMem ha, hnone, Option.getD_none, hg, Nat.zero_add]
  omega

/-- An entry counts at most as much as the table. -/
theorem le_sumValues (h : m.lookup a = some b) : g b ≤ sumValues g d m := by
  have ha : a ∈ m.keys := Finmap.mem_keys.mpr (Finmap.mem_of_lookup_eq_some h)
  have hsum := Finset.add_sum_erase m.keys (fun k => g ((m.lookup k).getD d)) ha
  simp only [h, Option.getD_some] at hsum
  unfold sumValues
  omega

/-- The same value under the keys of a list. -/
theorem lookup_foldl_insert {γ : Type*} (key : γ → α) (b : β) (l : List γ) (m : Finmap fun _ : α => β) (k : α) :
    (l.foldl (fun m c => m.insert (key c) b) m).lookup k = if k ∈ l.map key then some b else m.lookup k := by
  induction l generalizing m with
  | nil => rfl
  | cons c l ih =>
    rw [List.foldl_cons, ih, List.map_cons]
    by_cases hmem : k ∈ l.map key
    · rw [if_pos hmem, if_pos (List.mem_cons_of_mem _ hmem)]
    · by_cases hk : k = key c
      · subst hk
        rw [if_neg hmem, if_pos List.mem_cons_self, Finmap.lookup_insert]
      · have hnot : k ∉ key c :: l.map key := List.not_mem_cons_of_ne_of_not_mem hk hmem
        rw [if_neg hmem, if_neg hnot, Finmap.lookup_insert_of_ne _ hk]

section Tally

variable {γ : Type*} (key : γ → α) (start : α → β) (add : β → γ → β)

/-- Add an element to the entry of its key. -/
def tally (m : Finmap fun _ : α => β) (c : γ) : Finmap fun _ : α => β :=
  m.insert (key c) (add ((m.lookup (key c)).getD (start (key c))) c)

/-- An entry is made of the elements with its key, in their order. -/
theorem lookup_foldl_tally (l : List γ) (k : α) : (l.foldl (tally key start add) ∅).lookup k =
    if k ∈ l.map key then some ((l.filter fun c => key c = k).foldl add (start k)) else none := by
  induction l using List.reverseRecOn with
  | nil => rfl
  | append_singleton l c ih =>
    rw [List.foldl_append, List.foldl_cons, List.foldl_nil, tally]
    by_cases hk : k = key c
    · subst hk
      rw [Finmap.lookup_insert, ih]
      by_cases hmem : key c ∈ l.map key
      · simp [hmem]
      · -- the first element with this key
        have hnone : (l.filter fun c' => key c' = key c) = [] := by
          refine List.filter_eq_nil_iff.mpr fun c' hc' => ?_
          have hne : key c' ≠ key c := fun heq => hmem (heq ▸ List.mem_map_of_mem hc')
          simp [hne]
        rw [if_neg hmem, List.filter_append, hnone]
        simp
    · have hne : ¬ key c = k := fun heq => hk heq.symm
      rw [Finmap.lookup_insert_of_ne _ hk, ih]
      simp [hne, hk]

/-- The tally has the keys of the list. -/
theorem mem_keys_foldl_tally (l : List γ) (k : α) :
    k ∈ (l.foldl (tally key start add) ∅).keys ↔ k ∈ l.map key := by
  rw [Finmap.mem_keys, Finmap.mem_iff]
  by_cases h : k ∈ l.map key <;> simp only [lookup_foldl_tally, h, if_true, if_false] <;> simp

end Tally

end Lib
