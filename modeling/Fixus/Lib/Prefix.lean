import Mathlib.Data.List.Infix

/-!
# Prefixes for all insertions

When does it make no difference to a prefix relation that other lists come before one side? The lists that come before
are taken from an alphabet that has a letter besides those of any given list.

- `prefix_append_all_iff`, `append_prefix_all_iff`: insertions of bounded length;
- `prefix_append_any_iff`, `append_prefix_any_iff`: insertions of any length.
-/

namespace Lib

variable {α : Type*}

/-- Letters outside of any given list. -/
def HasFresh (P : α → Prop) : Prop := ∀ l : List α, ∃ a, P a ∧ a ∉ l

/-- A prefix of a concatenation, cut at the border. -/
theorem prefix_append_drop {X Y Z : List α} (h : Y <+: Z ++ X) : Y.drop Z.length <+: X := by
  have hd : Y.drop Z.length <+: (Z ++ X).drop Z.length := h.drop Z.length
  rwa [List.drop_left] at hd

/-- A list is a prefix of its own start before what its rest is a prefix of. -/
theorem prefix_take_append {X Y : List α} {e : Nat} (h : Y.drop e <+: X) : Y <+: Y.take e ++ X := by
  obtain ⟨r, rfl⟩ := h
  exact ⟨r, by rw [← List.append_assoc, List.take_append_drop]⟩

/-- A fresh letter at the start rules a nonempty prefix out. -/
theorem not_prefix_fresh {Y X : List α} {a : α} (hne : Y ≠ []) (ha : a ∉ Y) : ¬ Y <+: a :: X := by
  intro h
  cases Y with
  | nil => exact hne rfl
  | cons y Y =>
    obtain ⟨rfl, -⟩ := List.cons_prefix_cons.mp h
    exact ha List.mem_cons_self

section Insertions

variable {P : α → Prop} {X Y : List α}

/-- Whether a list is a prefix of another does not depend on up to `d` letters before the other, exactly if it is empty
or none of its rests is a prefix. -/
theorem prefix_append_all_iff (hfresh : HasFresh P) (hY : ∀ a ∈ Y, P a) {d : Nat} :
    (∀ Z : List α, (∀ a ∈ Z, P a) → Z.length ≤ d → (Y <+: Z ++ X ↔ Y <+: X)) ↔
      d = 0 ∨ Y = [] ∨ ∀ e ≤ d, ¬ Y.drop e <+: X := by
  constructor
  · intro h
    by_contra hno
    simp only [not_or, not_forall, not_not] at hno
    obtain ⟨hd, hne, e, he, hpre⟩ := hno
    obtain ⟨a, ha, hout⟩ := hfresh Y
    -- the start of the list makes it a prefix, a fresh letter does not
    have hyes : Y <+: Y.take e ++ X ↔ Y <+: X :=
      h (Y.take e) (fun b hb => hY b (List.mem_of_mem_take hb)) (by rw [List.length_take]; omega)
    have hno : Y <+: [a] ++ X ↔ Y <+: X :=
      h [a] (fun b hb => List.mem_singleton.mp hb ▸ ha) (by rw [List.length_singleton]; omega)
    exact not_prefix_fresh hne hout (hno.mpr (hyes.mp (prefix_take_append hpre)))
  · rintro (rfl | rfl | h) Z - hlen
    · rw [List.length_eq_zero_iff.mp (Nat.le_zero.mp hlen), List.nil_append]
    · simp
    · have h0 : ¬ Y <+: X := by simpa using h 0 (Nat.zero_le _)
      exact iff_of_false (fun hp => h Z.length hlen (prefix_append_drop hp)) h0

/-- The same for letters before the prefix. -/
theorem append_prefix_all_iff (hfresh : HasFresh P) (hX : ∀ a ∈ X, P a) {d : Nat} :
    (∀ Z : List α, (∀ a ∈ Z, P a) → Z.length ≤ d → (Z ++ Y <+: X ↔ Y <+: X)) ↔
      d = 0 ∨ ∀ e ≤ d, ¬ (e ≤ X.length ∧ Y <+: X.drop e) := by
  constructor
  · intro h
    by_contra hno
    simp only [not_or, not_forall, not_not] at hno
    obtain ⟨hd, e, he, hlen, hpre⟩ := hno
    obtain ⟨a, ha, hout⟩ := hfresh X
    have hyes : X.take e ++ Y <+: X ↔ Y <+: X :=
      h (X.take e) (fun b hb => hX b (List.mem_of_mem_take hb)) (by rw [List.length_take]; omega)
    have hno : [a] ++ Y <+: X ↔ Y <+: X :=
      h [a] (fun b hb => List.mem_singleton.mp hb ▸ ha) (by rw [List.length_singleton]; omega)
    have hstart : X.take e ++ Y <+: X := by
      obtain ⟨r, hr⟩ := hpre
      exact ⟨r, by rw [List.append_assoc, hr, List.take_append_drop]⟩
    have hmem : a ∈ X := (hno.mpr (hyes.mp hstart)).subset (by simp)
    exact hout hmem
  · rintro (rfl | h) Z - hlen
    · rw [List.length_eq_zero_iff.mp (Nat.le_zero.mp hlen), List.nil_append]
    · have h0 : ¬ Y <+: X := by simpa using h 0 (Nat.zero_le _)
      refine iff_of_false (fun hp => h Z.length hlen ⟨?_, ?_⟩) h0
      · have := hp.length_le
        rw [List.length_append] at this
        omega
      · have hd := hp.drop Z.length
        rwa [List.drop_left] at hd

/-- A truth value says whether a list is a prefix after any letters, exactly if it says yes and the list is empty. -/
theorem prefix_append_any_iff (hfresh : HasFresh P) (hY : ∀ a ∈ Y, P a) {b : Prop} :
    (∀ Z : List α, (∀ a ∈ Z, P a) → (b ↔ Y <+: Z ++ X)) ↔ b ∧ Y = [] := by
  constructor
  · intro h
    have hyes : b := (h Y hY).mpr (List.prefix_append Y X)
    refine ⟨hyes, ?_⟩
    by_contra hne
    obtain ⟨a, ha, hout⟩ := hfresh Y
    have hno : Y <+: [a] ++ X := (h [a] fun c hc => List.mem_singleton.mp hc ▸ ha).mp hyes
    exact not_prefix_fresh hne hout hno
  · rintro ⟨hb, rfl⟩ Z -
    exact iff_of_true hb List.nil_prefix

/-- A truth value says whether a list is a prefix with any letters before it, exactly if it says no and the list does
not occur. -/
theorem append_prefix_any_iff (hfresh : HasFresh P) (hX : ∀ a ∈ X, P a) {b : Prop} :
    (∀ Z : List α, (∀ a ∈ Z, P a) → (b ↔ Z ++ Y <+: X)) ↔ ¬ b ∧ ¬ Y <:+: X := by
  constructor
  · intro h
    obtain ⟨a, ha, hout⟩ := hfresh X
    have hb : ¬ b := fun hb => by
      have hp : [a] ++ Y <+: X := (h [a] fun c hc => List.mem_singleton.mp hc ▸ ha).mp hb
      exact hout (hp.subset (by simp))
    refine ⟨hb, fun ⟨Z, r, hZ⟩ => hb ?_⟩
    refine (h Z fun c hc => hX c ?_).mpr ⟨r, hZ⟩
    rw [← hZ, List.append_assoc]
    exact List.mem_append_left _ hc
  · rintro ⟨hb, hno⟩ Z -
    refine iff_of_false hb fun ⟨r, hr⟩ => hno ⟨Z, r, hr⟩

end Insertions

/-! ## Starts of a list -/

/-- A longer start of a list is a shorter one and what lies between. -/
theorem take_sub_cut {B : List α} {i j : Nat} (h : i ≤ j) :
    B.take (B.length - i) = B.take (B.length - j) ++ (B.take (B.length - i)).drop (B.length - j) := by
  have htake : B.take (B.length - j) = (B.take (B.length - i)).take (B.length - j) := by
    rw [List.take_take, Nat.min_eq_left (by omega)]
  rw [htake, List.take_append_drop]

/-- What lies between is as long as the two starts differ, or shorter. -/
theorem length_between (B : List α) (i j : Nat) :
    ((B.take (B.length - i)).drop (B.length - j)).length ≤ j - i := by
  rw [List.length_drop, List.length_take]
  omega

/-- A longer start on the right leaves what lies between there. -/
theorem take_append_prefix_iff {B X Y : List α} {i j : Nat} (h : i ≤ j) :
    B.take (B.length - j) ++ Y <+: B.take (B.length - i) ++ X ↔
      Y <+: (B.take (B.length - i)).drop (B.length - j) ++ X := by
  conv_lhs => rw [take_sub_cut h, List.append_assoc]
  exact List.prefix_append_right_inj _

/-- A longer start on the left leaves it on the left. -/
theorem take_append_prefix_iff' {B X Y : List α} {i j : Nat} (h : j ≤ i) :
    B.take (B.length - j) ++ Y <+: B.take (B.length - i) ++ X ↔
      (B.take (B.length - j)).drop (B.length - i) ++ Y <+: X := by
  conv_lhs => rw [take_sub_cut h, List.append_assoc]
  exact List.prefix_append_right_inj _

/-- Every list is the start of a longer one. -/
theorem exists_start {P : α → Prop} (hfresh : HasFresh P) {C : List α} (hC : ∀ a ∈ C, P a) (i : Nat) :
    ∃ B : List α, (∀ a ∈ B, P a) ∧ B.length = C.length + i ∧ B.take (B.length - i) = C := by
  obtain ⟨a, ha, -⟩ := hfresh []
  have hlen : (C ++ List.replicate i a).length = C.length + i := by simp
  refine ⟨C ++ List.replicate i a, fun b hb => ?_, hlen, ?_⟩
  · rcases List.mem_append.mp hb with hb | hb
    · exact hC b hb
    · rw [List.eq_of_mem_replicate hb]
      exact ha
  · rw [hlen, Nat.add_sub_cancel, List.take_left]

/-- Every list of admitted length lies between two starts of some list. -/
theorem exists_between {P : α → Prop} (hfresh : HasFresh P) {Z : List α} (hZ : ∀ a ∈ Z, P a) {i j : Nat}
    (h : Z.length ≤ j - i) : ∃ B : List α, (∀ a ∈ B, P a) ∧ (B.take (B.length - i)).drop (B.length - j) = Z := by
  obtain ⟨B, hB, hlen, hstart⟩ := exists_start hfresh hZ i
  refine ⟨B, hB, ?_⟩
  rw [hstart]
  by_cases hij : i ≤ j
  · rw [show B.length - j = 0 by omega, List.drop_zero]
  · rw [List.length_eq_zero_iff.mp (by omega : Z.length = 0), List.drop_nil]

end Lib
