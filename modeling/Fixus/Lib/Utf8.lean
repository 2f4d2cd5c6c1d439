import Mathlib.Tactic.Common
import Mathlib.Algebra.Order.Ring.Int

/-!
# Slices of UTF-8 texts

Texts are cut at byte positions. A cut inside a character, or behind the end, fails.

- `splitBytes_append`: a cut behind some characters gives them and the rest;
- `slice_middle`: the bytes between two parts of a text.
-/

namespace Lib.Utf8

/-- The bytes of a text. -/
def byteLength (cs : List Char) : Nat := (cs.map Char.utf8Size).sum

@[simp] theorem byteLength_cons (c : Char) (cs : List Char) : byteLength (c :: cs) = c.utf8Size + byteLength cs := by
  simp [byteLength]

@[simp] theorem byteLength_append (cs ds : List Char) : byteLength (cs ++ ds) = byteLength cs + byteLength ds := by
  simp [byteLength]

/-- The characters of the first bytes, and the others. -/
def splitBytes : List Char → Nat → Option (List Char × List Char)
  | cs, 0 => some ([], cs)
  | [], _ + 1 => none
  | c :: cs, n + 1 =>
    if c.utf8Size ≤ n + 1 then (splitBytes cs (n + 1 - c.utf8Size)).map fun (l, r) => (c :: l, r) else none

/-- The characters from one byte position to another one. -/
def slice (cs : List Char) (i j : Nat) : Option (List Char) :=
  if i ≤ j then do
    let (_, rest) ← splitBytes cs i
    let (part, _) ← splitBytes rest (j - i)
    return part
  else none

theorem splitBytes_append (cs ds : List Char) : splitBytes (cs ++ ds) (byteLength cs) = some (cs, ds) := by
  induction cs with
  | nil =>
    have hzero : byteLength [] = 0 := rfl
    rw [hzero]
    cases ds <;> rfl
  | cons c cs ih =>
    have hpos := c.utf8Size_pos
    obtain ⟨n, hn⟩ : ∃ n, byteLength (c :: cs) = n + 1 := ⟨byteLength (c :: cs) - 1, by rw [byteLength_cons]; omega⟩
    have hle : c.utf8Size ≤ n + 1 := by rw [← hn, byteLength_cons]; omega
    have hsub : n + 1 - c.utf8Size = byteLength cs := by rw [← hn, byteLength_cons]; omega
    rw [hn, List.cons_append, splitBytes, if_pos hle, hsub, ih]
    rfl

/-- **The bytes between two parts of a text are the characters between them.** -/
theorem slice_middle (pre mid post : List Char) :
    slice (pre ++ mid ++ post) (byteLength pre) (byteLength pre + byteLength mid) = some mid := by
  unfold slice
  rw [if_pos (Nat.le_add_right _ _), List.append_assoc, splitBytes_append, Nat.add_sub_cancel_left]
  show (splitBytes (mid ++ post) (byteLength mid)).bind _ = _
  rw [splitBytes_append]
  rfl

end Lib.Utf8
