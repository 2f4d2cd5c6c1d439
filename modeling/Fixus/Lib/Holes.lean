import Mathlib.Data.Nat.Find
import Mathlib.Data.Set.Basic
import Mathlib.Tactic.Common

/-!
# Holes in a set of numbers

A hole is a maximal block of numbers that are missing between two numbers of the set.

- `Hole`: a hole with its two neighbours;
- `exists_hole_after`: a number whose successor is missing, and that is not the last one, has a hole after it;
- `exists_hole_around`: a missing number between two numbers of the set is in a hole between them.
-/

namespace Lib

/-- The numbers between two numbers of the set are missing, and there are some. -/
structure Hole (S : Set Nat) (before after : Nat) : Prop where
  before_mem : before ∈ S
  after_mem : after ∈ S
  lt : before + 1 < after
  missing : ∀ n, before < n → n < after → n ∉ S

namespace Hole

variable {S : Set Nat} {before after : Nat}

/-- The first missing number of a hole. -/
theorem first_missing (h : Hole S before after) : before + 1 ∉ S := h.missing _ (Nat.lt_succ_self _) h.lt

end Hole

variable {S : Set Nat} {a b m : Nat}

/-- The next number of the set. -/
theorem exists_next (hb : b ∈ S) (hab : a < b) : ∃ c ∈ S, a < c ∧ c ≤ b ∧ ∀ n, a < n → n < c → n ∉ S := by
  classical
  have hex : ∃ c, a < c ∧ c ∈ S := ⟨b, hab, hb⟩
  obtain ⟨hlt, hmem⟩ := Nat.find_spec hex
  exact ⟨Nat.find hex, hmem, hlt, Nat.find_min' hex ⟨hab, hb⟩, fun n hn hn' hmem' => Nat.find_min hex hn' ⟨hn, hmem'⟩⟩

/-- The number of the set before a missing one. -/
theorem exists_previous (ha : a ∈ S) (ham : a ≤ m) (hm : m ∉ S) :
    ∃ c ∈ S, a ≤ c ∧ c < m ∧ ∀ n, c < n → n ≤ m → n ∉ S := by
  induction m, ham using Nat.le_induction with
  | base => exact absurd ha hm
  | succ m ham ih =>
    by_cases hmem : m ∈ S
    · refine ⟨m, hmem, ham, Nat.lt_succ_self m, fun n hn hle => ?_⟩
      obtain rfl : n = m + 1 := by omega
      exact hm
    · obtain ⟨c, hc, hac, hcm, hmissing⟩ := ih hmem
      refine ⟨c, hc, hac, by omega, fun n hn hle => ?_⟩
      rcases Nat.le_succ_iff.mp hle with hle | rfl
      · exact hmissing n hn hle
      · exact hm

/-- **After a number whose successor is missing there is a hole**, unless it is the last one. -/
theorem exists_hole_after (ha : a ∈ S) (hb : b ∈ S) (hab : a < b) (hnext : a + 1 ∉ S) : ∃ after, Hole S a after := by
  obtain ⟨c, hc, hac, -, hmissing⟩ := exists_next hb hab
  have hne : c ≠ a + 1 := by
    rintro rfl
    exact hnext hc
  exact ⟨c, ha, hc, by omega, hmissing⟩

/-- **A missing number between two numbers of the set is in a hole between them.** -/
theorem exists_hole_around (ha : a ∈ S) (hb : b ∈ S) (ham : a ≤ m) (hmb : m ≤ b) (hm : m ∉ S) :
    ∃ before after, Hole S before after ∧ a ≤ before ∧ before < m ∧ m < after ∧ after ≤ b := by
  obtain ⟨before, hbefore, hle, hlt, hmissing⟩ := exists_previous ha ham hm
  have hne : m ≠ b := by
    rintro rfl
    exact hm hb
  obtain ⟨after, hafter, hma, hab, hmissing'⟩ := exists_next hb (show m < b by omega)
  refine ⟨before, after, ⟨hbefore, hafter, by omega, fun n hn hn' => ?_⟩, hle, hlt, hma, hab⟩
  rcases Nat.lt_or_ge m n with hmn | hnm
  · exact hmissing' n hmn hn'
  · exact hmissing n hn hnm

end Lib
