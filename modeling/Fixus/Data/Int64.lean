import Mathlib.Data.List.Basic
import Mathlib.Algebra.Order.Ring.Int

/-!
# Fixed-width integers and their text

The `i64` values of the source are integers; where the source can overflow, the model wraps around
(`wrapI64`, `wrapI32`). `parseI64` reads an `i64` from text as `str::parse` does.

- `wrapI64_of_inI64`, `wrapI64_inI64`: the wrap-around is the identity on the range and lands in it;
- `parseI64_toString`: a printed `i64` reads back as itself.
-/

namespace Fixus

/-- The range of a signed 64-bit integer. -/
def InI64 (n : Int) : Prop := -(2 ^ 63 : Int) ≤ n ∧ n < 2 ^ 63

instance (n : Int) : Decidable (InI64 n) := inferInstanceAs (Decidable (_ ∧ _))

/-- Two's complement wrap-around to 64 bits, as `i64` arithmetic of a release build and `u64 as i64` do. -/
def wrapI64 (n : Int) : Int := (n + 2 ^ 63) % 2 ^ 64 - 2 ^ 63

/-- `saturating_sub` on `i64`. -/
def saturatingSub (m n : Int) : Int := max (-(2 ^ 63)) (min (m - n) (2 ^ 63 - 1))

/-- Two's complement wrap-around to 32 bits (`i64 as i32`). -/
def wrapI32 (n : Int) : Int := (n + 2 ^ 31) % 2 ^ 32 - 2 ^ 31

/-- The range of a signed 32-bit integer. -/
def InI32 (n : Int) : Prop := -(2 ^ 31 : Int) ≤ n ∧ n < 2 ^ 31

instance (n : Int) : Decidable (InI32 n) := inferInstanceAs (Decidable (_ ∧ _))

/-- `i32 as i64` keeps the number. -/
theorem InI32.inI64 {n : Int} (h : InI32 n) : InI64 n := by
  obtain ⟨hlo, hhi⟩ := h
  exact ⟨by omega, by omega⟩

theorem wrapI32_of_inI32 {n : Int} (h : InI32 n) : wrapI32 n = n := by
  obtain ⟨hlo, hhi⟩ := h
  unfold wrapI32
  rw [Int.emod_eq_of_lt (by omega) (by omega)]
  omega

/-- Numbers in the range are not changed by the wrap-around. -/
theorem wrapI64_of_inI64 {n : Int} (h : InI64 n) : wrapI64 n = n := by
  obtain ⟨hlo, hhi⟩ := h
  unfold wrapI64
  rw [Int.emod_eq_of_lt (by omega) (by omega)]
  omega

/-- The wrap-around always lands in the range. -/
theorem wrapI64_inI64 (n : Int) : InI64 (wrapI64 n) := by
  unfold wrapI64 InI64
  have hlo : 0 ≤ (n + 2 ^ 63) % 2 ^ 64 := Int.emod_nonneg _ (by decide)
  have hhi : (n + 2 ^ 63) % 2 ^ 64 < 2 ^ 64 := Int.emod_lt_of_pos _ (by decide)
  omega

/-- Wrapping around early makes no difference. -/
theorem wrapI64_add_left (m n : Int) : wrapI64 (wrapI64 m + n) = wrapI64 (m + n) := by
  unfold wrapI64
  omega

/-! ## Reading and printing -/

/-- A non-empty text of decimal digits. -/
def parseNat (cs : List Char) : Option Nat :=
  if cs ≠ [] ∧ cs.all Char.isDigit = true then some (Nat.ofDigitChars 10 cs 0) else none

/-- The number that a text with an optional sign stands for. -/
def parseInt (cs : List Char) : Option Int :=
  match cs with
  | '-' :: ds => (parseNat ds).map fun n : Nat => -(n : Int)
  | '+' :: ds => (parseNat ds).map Int.ofNat
  | ds => (parseNat ds).map Int.ofNat

/-- `str::parse::<i64>`. -/
def parseI64 (s : String) : Option Int := (parseInt s.toList).filter fun n => decide (InI64 n)

/-- Printed digits read back. -/
theorem parseNat_toList_repr (n : Nat) : parseNat n.repr.toList = some n := by
  have hne : n.repr.toList ≠ [] := fun h => Nat.repr_ne_empty (String.toList_eq_nil_iff.mp h)
  have hall : n.repr.toList.all Char.isDigit = true := by
    rw [Nat.toList_repr, List.all_eq_true]
    exact fun c hc => Nat.isDigit_of_mem_toDigits (by decide) (by decide) hc
  unfold parseNat
  rw [if_pos ⟨hne, hall⟩, Nat.toList_repr, Nat.ofDigitChars_ten_toDigits]

/-- A text of digits does not start with a sign. -/
theorem parseInt_of_digits {cs : List Char} {n : Nat} (h : parseNat cs = some n) : parseInt cs = some (n : Int) := by
  unfold parseNat at h
  split at h
  · rename_i hd
    cases cs with
    | nil => exact absurd rfl hd.1
    | cons c ds =>
      have hc : c.isDigit = true := by
        have := hd.2
        simp only [List.all_cons, Bool.and_eq_true] at this
        exact this.1
      have hm : c ≠ '-' := by rintro rfl; exact absurd hc (by decide)
      have hp : c ≠ '+' := by rintro rfl; exact absurd hc (by decide)
      have hnat : parseNat (c :: ds) = some n := by
        unfold parseNat
        rw [if_pos hd]
        exact h
      unfold parseInt
      split
      · rename_i he; exact absurd (List.cons.inj he).1 hm
      · rename_i he; exact absurd (List.cons.inj he).1 hp
      · rw [hnat]; rfl
  · cases h

/-- A printed integer reads back. -/
theorem parseInt_toString (n : Int) : parseInt (toString n).toList = some n := by
  rw [Int.toString_eq_repr, Int.repr_eq_if]
  by_cases hn : 0 ≤ n
  · rw [if_pos hn, parseInt_of_digits (parseNat_toList_repr n.toNat), Int.toNat_of_nonneg hn]
  · rw [if_neg hn, String.toList_append]
    have hd := parseNat_toList_repr (-n).toNat
    show (parseNat (-n).toNat.repr.toList).map (fun m : Nat => -(m : Int)) = some n
    rw [hd, Option.map_some, Int.toNat_of_nonneg (by omega), Int.neg_neg]

theorem toString_int_injective : Function.Injective fun n : Int => toString n := fun n m h => by
  have hparse := congrArg (fun text : String => parseInt text.toList) h
  simpa only [parseInt_toString, Option.some.injEq] using hparse

/-- A printed `i64` reads back as itself. -/
theorem parseI64_toString {n : Int} (h : InI64 n) : parseI64 (toString n) = some n := by
  unfold parseI64
  rw [parseInt_toString]
  simp [h]

end Fixus
