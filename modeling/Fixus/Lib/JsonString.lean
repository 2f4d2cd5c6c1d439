import Mathlib.Tactic.Common

/-!
# String literals of JSON

The characters of a text between quotes: the two delimiters and the control characters are escaped, all others stand
for themselves.

- `readChars_quote`: a written literal is read back;
- `visible_quote`: it is visible ASCII exactly if the text has no character from DEL on.
-/

namespace Lib.JsonString

/-! ## Writing -/

def hexDigit (n : Nat) : Char := if n < 10 then Char.ofNat (48 + n) else Char.ofNat (87 + n)

/-- The escape of a character; most stand for themselves. -/
def escape (c : Char) : List Char :=
  if c = '"' then ['\\', '"']
  else if c = '\\' then ['\\', '\\']
  else if c.toNat = 8 then ['\\', 'b']
  else if c.toNat = 9 then ['\\', 't']
  else if c.toNat = 10 then ['\\', 'n']
  else if c.toNat = 12 then ['\\', 'f']
  else if c.toNat = 13 then ['\\', 'r']
  else if c.toNat < 32 then ['\\', 'u', '0', '0', hexDigit (c.toNat / 16), hexDigit (c.toNat % 16)]
  else [c]

/-- The literal of a text. -/
def quote (s : List Char) : List Char := '"' :: (s.flatMap escape ++ ['"'])

/-! ## Reading -/

/-- The value of a hexadecimal digit. -/
def hexValue (c : Char) : Option Nat :=
  let n := c.toNat
  if 48 ≤ n ∧ n ≤ 57 then some (n - 48)
  else if 97 ≤ n ∧ n ≤ 102 then some (n - 87)
  else if 65 ≤ n ∧ n ≤ 70 then some (n - 55)
  else none

/-- The number of four digits. -/
def hex4 (a b c d : Char) : Option Nat := do
  return (((← hexValue a) * 16 + (← hexValue b)) * 16 + (← hexValue c)) * 16 + (← hexValue d)

/-- The character that a short escape stands for. -/
def shortEscape (c : Char) : Option Char :=
  match c with
  | '"' => some '"'
  | '\\' => some '\\'
  | '/' => some '/'
  | 'b' => some (Char.ofNat 8)
  | 't' => some (Char.ofNat 9)
  | 'n' => some (Char.ofNat 10)
  | 'f' => some (Char.ofNat 12)
  | 'r' => some (Char.ofNat 13)
  | _ => none

/-- Read up to the closing quote: the text, and what comes after it. -/
def readChars : List Char → Option (List Char × List Char)
  | [] => none
  | '"' :: cs => some ([], cs)
  | '\\' :: 'u' :: a :: b :: c :: d :: cs =>
    match hex4 a b c d with
    | none => none
    | some n =>
      if n < 0xD800 ∨ 0xE000 ≤ n then (readChars cs).map fun (s, cs) => (Char.ofNat n :: s, cs)
      else match cs with
        -- the second half of a surrogate pair
        | '\\' :: 'u' :: a' :: b' :: c' :: d' :: cs =>
          match hex4 a' b' c' d' with
          | none => none
          | some m =>
            if n < 0xDC00 ∧ 0xDC00 ≤ m ∧ m < 0xE000 then
              (readChars cs).map fun (s, cs) => (Char.ofNat (0x10000 + (n - 0xD800) * 0x400 + (m - 0xDC00)) :: s, cs)
            else none
        | _ => none
  | '\\' :: c :: cs =>
    match shortEscape c with
    | none => none
    | some c => (readChars cs).map fun (s, cs) => (c :: s, cs)
  | c :: cs => if c.toNat < 32 then none else (readChars cs).map fun (s, cs) => (c :: s, cs)

/-! ## Round trip -/

/-- A short escape. -/
theorem readChars_short {e c : Char} (h : shortEscape e = some c) (hu : e ≠ 'u') (cs : List Char) :
    readChars ('\\' :: e :: cs) = (readChars cs).map fun (s, cs) => (c :: s, cs) := by
  rw [readChars]
  · rw [h]
  · exact fun _ _ _ _ _ he _ => hu he

/-- An escape by number. -/
theorem readChars_hex {a b c d : Char} {n : Nat} (h : hex4 a b c d = some n) (hn : n < 0xD800) (cs : List Char) :
    readChars ('\\' :: 'u' :: a :: b :: c :: d :: cs) = (readChars cs).map fun (s, cs) => (Char.ofNat n :: s, cs) := by
  rw [readChars, h]
  simp only [if_pos (Or.inl hn)]

/-- Five control characters have a short escape, the others are escaped by their number. -/
theorem escape_control : ∀ n < 32, (n = 8 ∨ n = 9 ∨ n = 10 ∨ n = 12 ∨ n = 13) ∨
    escape (Char.ofNat n) = ['\\', 'u', '0', '0', hexDigit (n / 16), hexDigit (n % 16)] ∧
      hex4 '0' '0' (hexDigit (n / 16)) (hexDigit (n % 16)) = some n := by decide

/-- Control characters are read back from their escapes. -/
theorem readChars_control {n : Nat} (h : n < 32) (cs : List Char) :
    readChars (escape (Char.ofNat n) ++ cs) = (readChars cs).map fun (s, cs) => (Char.ofNat n :: s, cs) := by
  rcases escape_control n h with (rfl | rfl | rfl | rfl | rfl) | ⟨he, hx⟩
  · exact readChars_short (e := 'b') rfl (by decide) cs
  · exact readChars_short (e := 't') rfl (by decide) cs
  · exact readChars_short (e := 'n') rfl (by decide) cs
  · exact readChars_short (e := 'f') rfl (by decide) cs
  · exact readChars_short (e := 'r') rfl (by decide) cs
  · rw [he]
    exact readChars_hex hx (by omega) cs

/-- Every character is read back from its escape. -/
theorem readChars_escape (c : Char) (cs : List Char) :
    readChars (escape c ++ cs) = (readChars cs).map fun (s, cs) => (c :: s, cs) := by
  by_cases hlt : c.toNat < 32
  · rw [← Char.ofNat_toNat c]
    exact readChars_control hlt cs
  · by_cases hq : c = '"'
    · subst hq
      rfl
    · by_cases hb : c = '\\'
      · subst hb
        rfl
      · have hesc : escape c = [c] := by
          unfold escape
          simp only [if_neg hq, if_neg hb, if_neg hlt]
          repeat rw [if_neg (by omega)]
        rw [hesc, List.singleton_append, readChars]
        · rw [if_neg hlt]
        all_goals simp_all

/-- **A written literal is read back.** -/
theorem readChars_quote (s rest : List Char) : readChars (s.flatMap escape ++ '"' :: rest) = some (s, rest) := by
  induction s with
  | nil => rfl
  | cons c s ih =>
    rw [List.flatMap_cons, List.append_assoc, readChars_escape, ih]
    rfl

/-- Literals can be told apart in front of any text. -/
theorem quote_append_inj {s s' r r' : List Char} (h : quote s ++ r = quote s' ++ r') : s = s' ∧ r = r' := by
  have hcons : ∀ s r : List Char, quote s ++ r = '"' :: (s.flatMap escape ++ '"' :: r) := by simp [quote]
  rw [hcons, hcons] at h
  have hread := congrArg readChars (List.cons.inj h).2
  rw [readChars_quote, readChars_quote] at hread
  exact Prod.mk.inj (Option.some.inj hread)

/-! ## Visible characters -/

/-- Visible ASCII, and the tabulator. -/
def visible (c : Char) : Bool := (32 ≤ c.toNat && c.toNat < 127) || c.toNat = 9

/-- ASCII without DEL. -/
def belowDel (c : Char) : Bool := c.toNat < 127

/-- The escape of a control character is visible. -/
theorem visible_escape_control {n : Nat} (h : n < 32) : (escape (Char.ofNat n)).all visible = true := by
  revert n
  decide

theorem visible_escape (c : Char) : (escape c).all visible = belowDel c := by
  by_cases hlt : c.toNat < 32
  · have hb : belowDel c = true := by
      unfold belowDel
      exact decide_eq_true (by omega)
    rw [hb, ← Char.ofNat_toNat c]
    exact visible_escape_control hlt
  · by_cases hq : c = '"'
    · subst hq
      rfl
    · by_cases hb : c = '\\'
      · subst hb
        rfl
      · have hesc : escape c = [c] := by
          unfold escape
          simp only [if_neg hq, if_neg hb, if_neg hlt]
          repeat rw [if_neg (by omega)]
        rw [hesc, Bool.eq_iff_iff]
        simp only [List.all_cons, List.all_nil, visible, belowDel, Bool.and_true, Bool.or_eq_true, Bool.and_eq_true,
          decide_eq_true_eq]
        omega

/-- **A literal is visible exactly if its text is ASCII without DEL.** -/
theorem visible_quote (s : List Char) : (quote s).all visible = s.all belowDel := by
  have hbody : (s.flatMap escape).all visible = s.all belowDel := by
    induction s with
    | nil => rfl
    | cons c s ih => rw [List.flatMap_cons, List.all_append, visible_escape, ih, List.all_cons]
  unfold quote
  rw [List.all_cons, List.all_append, hbody]
  have hquote : visible '"' = true := rfl
  simp [hquote]

end Lib.JsonString
