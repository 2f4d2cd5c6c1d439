import Fixus.Data.Json
import Fixus.Lib.JsonString
import Mathlib.Data.String.Basic

/-!
# JSON values as text

A compact writer and a reader. The objects of a decoded value are ordered by their keys (`sorted`), so this is the order
in which they are written, and reading gives the value in this order. Numbers with a fraction or an exponent are left
out.

- `Normal`: the values in order, without floats and nested up to a depth;
- `parse_print`: a written value in order is read back;
- `visible_print`: its text is visible ASCII exactly if its keys and strings are ASCII without DEL.
-/

namespace Fixus.Json

open Lib JsonString

/-! ## The order of fields -/

/-- Put a field in its place; it replaces one of the same name. -/
def insertField (key : String) (v : Json) : List (String × Json) → List (String × Json)
  | [] => [(key, v)]
  | (k, w) :: rest =>
    if key < k then (key, v) :: (k, w) :: rest
    else if key = k then (key, v) :: rest
    else (k, w) :: insertField key v rest

mutual

/-- The value with the fields of all objects ordered by name; of two of the same name the first one counts. -/
def sorted : Json → Json
  | .arr vs => .arr (sortedList vs)
  | .obj fields => .obj (sortedFields fields)
  | .null => .null
  | .bool b => .bool b
  | .int n => .int n
  | .float bits => .float bits
  | .str s => .str s

def sortedList : List Json → List Json
  | [] => []
  | v :: vs => sorted v :: sortedList vs

def sortedFields : List (String × Json) → List (String × Json)
  | [] => []
  | (k, v) :: fields => insertField k (sorted v) (sortedFields fields)

end

/-! ## Writing -/

/-- The parts with commas between them. -/
def commaSep : List (List Char) → List Char
  | [] => []
  | [p] => p
  | p :: q :: ps => p ++ ',' :: commaSep (q :: ps)

mutual

/-- The text of a value, its fields in the order they have. -/
def print : Json → List Char
  | .null => ['n', 'u', 'l', 'l']
  | .bool true => ['t', 'r', 'u', 'e']
  | .bool false => ['f', 'a', 'l', 's', 'e']
  | .int n => (toString n).toList
  -- not a number that the reader knows
  | .float _ => ['n', 'a', 'n']
  | .str s => quote s.toList
  | .arr vs => '[' :: (commaSep (printList vs) ++ [']'])
  | .obj fields => '{' :: (commaSep (printFields fields) ++ ['}'])

def printList : List Json → List (List Char)
  | [] => []
  | v :: vs => print v :: printList vs

def printFields : List (String × Json) → List (List Char)
  | [] => []
  | (k, v) :: fields => (quote k.toList ++ ':' :: print v) :: printFields fields

end

/-! ## Reading -/

def isSpace (c : Char) : Bool := c = ' ' || c = '\n' || c = '\t' || c = '\r'

def skip (cs : List Char) : List Char := cs.dropWhile isSpace

/-- A character of a number. -/
def isNumeric (c : Char) : Bool := c.isDigit || c = '-' || c = '+' || c = '.' || c = 'e' || c = 'E'

/-- Read an integer, written as it has to be. -/
def number (cs : List Char) : Option (Json × List Char) :=
  match parseInt (cs.takeWhile isNumeric) with
  | some n => if (toString n).toList = cs.takeWhile isNumeric then some (.int n, cs.dropWhile isNumeric) else none
  | none => none

mutual

/-- Read a value, and what comes after it. -/
def value : Nat → List Char → Option (Json × List Char)
  | 0, _ => none
  | n + 1, cs =>
    match skip cs with
    | '"' :: cs => (readChars cs).map fun (s, cs) => (.str (String.ofList s), cs)
    | '[' :: cs =>
      match skip cs with
      | ']' :: cs => some (.arr [], cs)
      | cs => (elements n cs).map fun (vs, cs) => (.arr vs, cs)
    | '{' :: cs =>
      match skip cs with
      | '}' :: cs => some (.obj [], cs)
      -- of two fields of the same name the last one counts
      | cs => (members n cs).map fun (fields, cs) => (.obj (fields.foldl (fun o (k, v) => insertField k v o) []), cs)
    | 'n' :: 'u' :: 'l' :: 'l' :: cs => some (.null, cs)
    | 't' :: 'r' :: 'u' :: 'e' :: cs => some (.bool true, cs)
    | 'f' :: 'a' :: 'l' :: 's' :: 'e' :: cs => some (.bool false, cs)
    | cs => number cs

/-- Read the elements of an array up to its end. -/
def elements : Nat → List Char → Option (List Json × List Char)
  | 0, _ => none
  | n + 1, cs =>
    match value n cs with
    | none => none
    | some (v, cs) =>
      match skip cs with
      | ',' :: cs => (elements n cs).map fun (vs, cs) => (v :: vs, cs)
      | ']' :: cs => some ([v], cs)
      | _ => none

/-- Read the fields of an object up to its end. -/
def members : Nat → List Char → Option (List (String × Json) × List Char)
  | 0, _ => none
  | n + 1, cs =>
    match skip cs with
    | '"' :: cs =>
      match readChars cs with
      | none => none
      | some (k, cs) =>
        match skip cs with
        | ':' :: cs =>
          match value n cs with
          | none => none
          | some (v, cs) =>
            match skip cs with
            | ',' :: cs => (members n cs).map fun (fields, cs) => ((String.ofList k, v) :: fields, cs)
            | '}' :: cs => some ([(String.ofList k, v)], cs)
            | _ => none
        | _ => none
    | _ => none

end

/-- Read a text that is one value. -/
def parse (s : String) : Option Json :=
  match value (s.toList.length + 1) s.toList with
  | some (v, rest) => if skip rest = [] then some v else none
  | none => none

/-! ## The order -/

@[simp] theorem sortedList_eq (vs : List Json) : sortedList vs = vs.map sorted := by
  induction vs with
  | nil => rfl
  | cons v vs ih => rw [sortedList, ih, List.map_cons]

@[simp] theorem printList_eq (vs : List Json) : printList vs = vs.map print := by
  induction vs with
  | nil => rfl
  | cons v vs ih => rw [printList, ih, List.map_cons]

@[simp] theorem printFields_eq (fields : List (String × Json)) :
    printFields fields = fields.map fun f => quote f.1.toList ++ ':' :: print f.2 := by
  induction fields with
  | nil => rfl
  | cons f fields ih => rw [printFields, ih, List.map_cons]

theorem mem_insertField {key : String} {v : Json} {fields : List (String × Json)} {f : String × Json}
    (h : f ∈ insertField key v fields) : f = (key, v) ∨ f ∈ fields := by
  induction fields with
  | nil => exact Or.inl (List.mem_singleton.mp h)
  | cons g fields ih =>
    unfold insertField at h
    split at h
    · exact List.mem_cons.mp h
    · split at h
      · exact (List.mem_cons.mp h).imp id (List.mem_cons_of_mem _)
      · rcases List.mem_cons.mp h with rfl | h
        · exact Or.inr List.mem_cons_self
        · exact (ih h).imp id (List.mem_cons_of_mem _)

/-- The fields are in order. -/
def Ascending (fields : List (String × Json)) : Prop := fields.Pairwise fun f g => f.1 < g.1

theorem Ascending.insertField {fields : List (String × Json)} (h : Ascending fields) (key : String) (v : Json) :
    Ascending (insertField key v fields) := by
  induction fields with
  | nil => exact List.pairwise_singleton _ _
  | cons g fields ih =>
    obtain ⟨hg, hrest⟩ := List.pairwise_cons.mp h
    unfold Json.insertField
    split
    · rename_i hlt
      refine List.pairwise_cons.mpr ⟨fun f hf => ?_, h⟩
      rcases List.mem_cons.mp hf with rfl | hf
      · exact hlt
      · exact lt_trans hlt (hg f hf)
    · split
      · rename_i heq
        exact List.pairwise_cons.mpr ⟨fun f hf => heq ▸ hg f hf, hrest⟩
      · rename_i hlt hne
        refine List.pairwise_cons.mpr ⟨fun f hf => ?_, ih hrest⟩
        rcases mem_insertField hf with rfl | hf
        · exact lt_of_le_of_ne (not_lt.mp hlt) (Ne.symm hne)
        · exact hg f hf

theorem ascending_sortedFields (fields : List (String × Json)) : Ascending (sortedFields fields) := by
  induction fields with
  | nil => exact List.Pairwise.nil
  | cons f fields ih =>
    rw [sortedFields]
    exact ih.insertField _ _

theorem mem_sortedFields {fields : List (String × Json)} {f : String × Json} (h : f ∈ sortedFields fields) :
    ∃ g ∈ fields, f = (g.1, sorted g.2) := by
  induction fields with
  | nil => cases h
  | cons g fields ih =>
    rw [sortedFields] at h
    rcases mem_insertField h with rfl | h
    · exact ⟨g, List.mem_cons_self, rfl⟩
    · obtain ⟨g', hg', rfl⟩ := ih h
      exact ⟨g', List.mem_cons_of_mem _ hg', rfl⟩

/-- A field with the last name goes to the end. -/
theorem insertField_last {key : String} {v : Json} {fields : List (String × Json)} (h : ∀ f ∈ fields, f.1 < key) :
    insertField key v fields = fields ++ [(key, v)] := by
  induction fields with
  | nil => rfl
  | cons g fields ih =>
    have hg := h g List.mem_cons_self
    unfold insertField
    rw [if_neg (lt_asymm hg), if_neg (ne_of_gt hg), ih fun f hf => h f (List.mem_cons_of_mem _ hf)]
    rfl

/-- Fields that come in order are put one after the other. -/
theorem foldl_insertField {fields before : List (String × Json)} (h : Ascending (before ++ fields)) :
    fields.foldl (fun o (k, v) => insertField k v o) before = before ++ fields := by
  induction fields generalizing before with
  | nil => simp
  | cons f fields ih =>
    obtain ⟨k, v⟩ := f
    have hlast : ∀ g ∈ before, g.1 < k := fun g hg =>
      (List.pairwise_append.mp h).2.2 g hg (k, v) List.mem_cons_self
    have hassoc : before ++ [(k, v)] ++ fields = before ++ (k, v) :: fields := by simp
    rw [List.foldl_cons]
    simp only
    rw [insertField_last hlast, ih (by rw [hassoc]; exact h), hassoc]

theorem getField_insertField (key : String) (v : Json) (fields : List (String × Json)) (key' : String) :
    getField (insertField key v fields) key' = if key = key' then some v else getField fields key' := by
  induction fields with
  | nil => rfl
  | cons g fields ih =>
    obtain ⟨k, w⟩ := g
    by_cases hlt : key < k
    · rw [insertField, if_pos hlt, getField]
    · by_cases heq : key = k
      · rw [insertField, if_neg hlt, if_pos heq, getField, getField, ← heq]
        split <;> rfl
      · rw [insertField, if_neg hlt, if_neg heq, getField, getField, ih]
        by_cases hk : k = key'
        · rw [if_pos hk, if_pos hk, if_neg fun h => heq (h.trans hk.symm)]
        · rw [if_neg hk, if_neg hk]

theorem getField_sortedFields (fields : List (String × Json)) (key : String) :
    getField (sortedFields fields) key = (getField fields key).map sorted := by
  induction fields with
  | nil => rfl
  | cons f fields ih =>
    obtain ⟨k, v⟩ := f
    rw [sortedFields, getField_insertField, ih, getField]
    by_cases hk : k = key <;> simp [hk]

/-- **Reading a field does not depend on the order of the fields.** -/
@[simp] theorem get_sorted (v : Json) (key : String) : v.sorted.get key = (v.get key).map sorted := by
  cases v with
  | obj fields =>
    rw [sorted]
    exact getField_sortedFields fields key
  | _ => rfl

@[simp] theorem asStr_sorted (v : Json) : v.sorted.asStr = v.asStr := by cases v <;> rfl

/-! ## Exact values -/

/-- The values that a text gives back: no floats, integers of 64 bits, names that differ, nested up to a depth. -/
def Exact : Nat → Json → Prop
  | _, .float _ => False
  | _, .int n => -2 ^ 63 ≤ n ∧ n < 2 ^ 64
  | 0, .arr _ | 0, .obj _ => False
  | d + 1, .arr vs => ∀ v ∈ vs, Exact d v
  | d + 1, .obj fields => (fields.map Prod.fst).Nodup ∧ ∀ f ∈ fields, Exact d f.2
  | _, .null | _, .bool _ | _, .str _ => True

/-- Such values in order. -/
def Normal : Nat → Json → Prop
  | _, .float _ => False
  | _, .int n => -2 ^ 63 ≤ n ∧ n < 2 ^ 64
  | 0, .arr _ | 0, .obj _ => False
  | d + 1, .arr vs => ∀ v ∈ vs, Normal d v
  | d + 1, .obj fields => Ascending fields ∧ ∀ f ∈ fields, Normal d f.2
  | _, .null | _, .bool _ | _, .str _ => True

@[simp] theorem exact_str (d : Nat) (s : String) : Exact d (.str s) := by cases d <;> trivial

@[simp] theorem exact_int {d : Nat} {n : Int} : Exact d (.int n) ↔ -2 ^ 63 ≤ n ∧ n < 2 ^ 64 := by cases d <;> rfl

@[simp] theorem exact_arr {d : Nat} {vs : List Json} : Exact (d + 1) (.arr vs) ↔ ∀ v ∈ vs, Exact d v := Iff.rfl

@[simp] theorem exact_obj {d : Nat} {fields : List (String × Json)} :
    Exact (d + 1) (.obj fields) ↔ (fields.map Prod.fst).Nodup ∧ ∀ f ∈ fields, Exact d f.2 := Iff.rfl

theorem Exact.sorted {d : Nat} {v : Json} (h : Exact d v) : Normal d v.sorted := by
  induction d generalizing v with
  | zero =>
    cases v with
    | arr vs => exact h
    | obj fields => exact h
    | float bits => exact h
    | int n => exact h
    | _ => trivial
  | succ d ih =>
    cases v with
    | arr vs =>
      rw [Json.sorted, sortedList_eq]
      intro w hw
      obtain ⟨v, hv, rfl⟩ := List.mem_map.mp hw
      exact ih (h v hv)
    | obj fields =>
      rw [Json.sorted]
      refine ⟨ascending_sortedFields fields, fun f hf => ?_⟩
      obtain ⟨g, hg, rfl⟩ := mem_sortedFields hf
      exact ih (h.2 g hg)
    | float bits => exact h
    | int n => exact h
    | _ => trivial

/-- A value in order is exact: names in order differ. -/
theorem Normal.exact {d : Nat} {v : Json} (h : Normal d v) : Exact d v := by
  induction d generalizing v with
  | zero =>
    cases v with
    | arr vs => exact h
    | obj fields => exact h
    | float bits => exact h
    | int n => exact h
    | _ => trivial
  | succ d ih =>
    cases v with
    | arr vs => exact fun v hv => ih (h v hv)
    | obj fields =>
      obtain ⟨hasc, hall⟩ := h
      have hkeys : (fields.map Prod.fst).Pairwise (· < ·) := List.pairwise_map.mpr hasc
      exact ⟨hkeys.imp ne_of_lt, fun f hf => ih (hall f hf)⟩
    | float bits => exact h
    | int n => exact h
    | _ => trivial

/-! ## Visible texts -/

mutual

/-- All characters of the names and the strings have the property. -/
def allText (p : Char → Bool) : Json → Bool
  | .str s => s.toList.all p
  | .arr vs => allTextList p vs
  | .obj fields => allTextFields p fields
  | .null | .bool _ | .int _ | .float _ => true

def allTextList (p : Char → Bool) : List Json → Bool
  | [] => true
  | v :: vs => allText p v && allTextList p vs

def allTextFields (p : Char → Bool) : List (String × Json) → Bool
  | [] => true
  | (k, v) :: fields => k.toList.all p && allText p v && allTextFields p fields

end

@[simp] theorem allTextList_eq (p : Char → Bool) (vs : List Json) : allTextList p vs = vs.all (allText p) := by
  induction vs with
  | nil => rfl
  | cons v vs ih => rw [allTextList, ih, List.all_cons]

@[simp] theorem allTextFields_eq (p : Char → Bool) (fields : List (String × Json)) :
    allTextFields p fields = fields.all fun f => f.1.toList.all p && allText p f.2 := by
  induction fields with
  | nil => rfl
  | cons f fields ih => rw [allTextFields, ih, List.all_cons]

/-- A comma is visible. -/
theorem visible_commaSep (ps : List (List Char)) : (commaSep ps).all visible = ps.all fun p => p.all visible := by
  induction ps with
  | nil => rfl
  | cons p ps ih =>
    cases ps with
    | nil => simp [commaSep]
    | cons q ps =>
      have hcomma : visible ',' = true := rfl
      rw [commaSep, List.all_append, List.all_cons, ih, hcomma, Bool.true_and]
      rfl

/-- An integer is written in digits, with a sign. -/
theorem mem_toString_int {n : Int} {c : Char} (h : c ∈ (toString n).toList) : c.isDigit = true ∨ c = '-' := by
  have hdigits : ∀ {m : Nat}, c ∈ m.repr.toList → c.isDigit = true := fun hc => by
    rw [Nat.toList_repr] at hc
    exact Nat.isDigit_of_mem_toDigits (by decide) (by decide) hc
  rw [Int.toString_eq_repr, Int.repr_eq_if] at h
  split at h
  · exact Or.inl (hdigits h)
  · rw [String.toList_append] at h
    rcases List.mem_append.mp h with h | h
    · exact Or.inr (List.mem_singleton.mp h)
    · exact Or.inl (hdigits h)

theorem toString_int_ne_nil (n : Int) : (toString n).toList ≠ [] := by
  intro h
  have hread := parseInt_toString n
  rw [h] at hread
  cases hread

/-- The digits of an integer are visible. -/
theorem visible_toString (n : Int) : (toString n).toList.all visible = true := by
  rw [List.all_eq_true]
  intro c hc
  rcases mem_toString_int hc with hd | rfl
  · obtain ⟨h₁, h₂⟩ := Char.isDigit_iff_toNat.mp hd
    change 48 ≤ c.toNat at h₁
    change c.toNat ≤ 57 at h₂
    unfold visible
    simp only [Bool.or_eq_true, Bool.and_eq_true, decide_eq_true_eq]
    omega
  · rfl

mutual

/-- **A text is visible exactly if the names and the strings in it are ASCII without DEL.** -/
theorem visible_print : ∀ v : Json, (print v).all visible = allText belowDel v
  | .null => rfl
  | .bool true => rfl
  | .bool false => rfl
  | .int n => visible_toString n
  | .float _ => rfl
  | .str s => visible_quote s.toList
  | .arr vs => by
    rw [print, allText, List.all_cons, List.all_append, visible_commaSep, visible_printList vs]
    have h₁ : visible '[' = true := rfl
    have h₂ : visible ']' = true := rfl
    simp [h₁, h₂]
  | .obj fields => by
    rw [print, allText, List.all_cons, List.all_append, visible_commaSep, visible_printFields fields]
    have h₁ : visible '{' = true := rfl
    have h₂ : visible '}' = true := rfl
    simp [h₁, h₂]

theorem visible_printList : ∀ vs : List Json, (printList vs).all (fun p => p.all visible) = allTextList belowDel vs
  | [] => rfl
  | v :: vs => by rw [printList, allTextList, List.all_cons, visible_print v, visible_printList vs]

theorem visible_printFields : ∀ fields : List (String × Json),
    (printFields fields).all (fun p => p.all visible) = allTextFields belowDel fields
  | [] => rfl
  | (k, v) :: fields => by
    have hcolon : visible ':' = true := rfl
    rw [printFields, allTextFields, List.all_cons, List.all_append, List.all_cons, visible_quote, visible_print v,
      visible_printFields fields, hcolon, Bool.true_and]

end

theorem all_insertField {q : String × Json → Bool} {key : String} {v : Json} {fields : List (String × Json)}
    (h : key ∉ fields.map Prod.fst) : (insertField key v fields).all q = (q (key, v) && fields.all q) := by
  induction fields with
  | nil => rfl
  | cons g fields ih =>
    obtain ⟨k, w⟩ := g
    rw [List.map_cons, List.mem_cons, not_or] at h
    by_cases hlt : key < k
    · rw [insertField, if_pos hlt, List.all_cons]
    · rw [insertField, if_neg hlt, if_neg h.1, List.all_cons, ih h.2, List.all_cons, Bool.and_left_comm]

/-- The order of the fields does not matter to the texts in a value. -/
theorem Exact.allText_sorted {p : Char → Bool} {d : Nat} {v : Json} (h : Exact d v) :
    allText p v.sorted = allText p v := by
  induction d generalizing v with
  | zero =>
    cases v with
    | arr vs => exact h.elim
    | obj fields => exact h.elim
    | _ => rfl
  | succ d ih =>
    cases v with
    | arr vs =>
      rw [Json.sorted, allText, allText, allTextList_eq, allTextList_eq, sortedList_eq, List.all_map]
      rw [Bool.eq_iff_iff, List.all_eq_true, List.all_eq_true]
      exact forall₂_congr fun v hv => by rw [Function.comp_apply, ih (h v hv)]
    | obj fields =>
      rw [Json.sorted, allText, allText, allTextFields_eq, allTextFields_eq]
      obtain ⟨hn, hall⟩ := h
      induction fields with
      | nil => rfl
      | cons f fields ihf =>
        obtain ⟨k, v⟩ := f
        obtain ⟨hk, hn⟩ := List.nodup_cons.mp hn
        have hnew : k ∉ (sortedFields fields).map Prod.fst := by
          intro hmem
          obtain ⟨f, hf, rfl⟩ := List.mem_map.mp hmem
          obtain ⟨g, hg, rfl⟩ := mem_sortedFields hf
          exact hk (List.mem_map.mpr ⟨g, hg, rfl⟩)
        rw [sortedFields, all_insertField hnew, ihf hn fun f hf => hall f (List.mem_cons_of_mem _ hf), List.all_cons,
          ih (hall (k, v) List.mem_cons_self)]
    | _ => rfl

/-! ## Round trip -/

theorem skip_cons {c : Char} (h : isSpace c = false) (cs : List Char) : skip (c :: cs) = c :: cs :=
  List.dropWhile_cons_of_neg (by rw [h]; exact Bool.false_ne_true)

/-- No number goes on in the text. -/
def Stops (cs : List Char) : Prop := ∀ c ∈ cs.head?, isNumeric c = false

/-- The value is read from its text, whatever comes after it. -/
def Reads (v : Json) : Prop :=
  ∀ n rest, (print v).length < n → Stops rest → value n (print v ++ rest) = some (v, rest)

/-- A digit or a sign is numeric, and nothing that starts another value or ends a list. -/
theorem numeric_of_digit {c : Char} (h : c.isDigit = true ∨ c = '-') : isNumeric c = true ∧ isSpace c = false ∧
    c ≠ ']' ∧ c ≠ '"' ∧ c ≠ '[' ∧ c ≠ '{' ∧ c ≠ 'n' ∧ c ≠ 't' ∧ c ≠ 'f' := by
  have hnum : isNumeric c = true := by
    unfold isNumeric
    rcases h with h | h <;> simp [h]
  have hspace : isSpace c = false := by
    by_contra hs
    simp only [isSpace, Bool.not_eq_false, Bool.or_eq_true, decide_eq_true_eq] at hs
    rcases hs with ((rfl | rfl) | rfl) | rfl <;> revert h <;> decide
  refine ⟨hnum, hspace, ?_⟩
  refine ⟨?_, ?_, ?_, ?_, ?_, ?_, ?_⟩ <;> rintro rfl <;> revert h <;> decide

/-- A text of a value starts with a character that no reader of lists takes for something else. -/
theorem print_head (v : Json) : ∃ c cs, print v = c :: cs ∧ isSpace c = false ∧ c ≠ ']' := by
  cases v with
  | null => exact ⟨_, _, rfl, rfl, by decide⟩
  | bool b => cases b <;> exact ⟨_, _, rfl, rfl, by decide⟩
  | float bits => exact ⟨_, _, rfl, rfl, by decide⟩
  | str s => exact ⟨_, _, rfl, rfl, by decide⟩
  | arr vs => exact ⟨_, _, rfl, rfl, by decide⟩
  | obj fields => exact ⟨_, _, rfl, rfl, by decide⟩
  | int n =>
    obtain ⟨c, cs, hcs⟩ := List.exists_cons_of_ne_nil (toString_int_ne_nil n)
    have hc := mem_toString_int (c := c) (by rw [hcs]; exact List.mem_cons_self)
    exact ⟨c, cs, hcs, (numeric_of_digit hc).2.1, (numeric_of_digit hc).2.2.1⟩

/-- The characters between a number and its end. -/
theorem span_numeric {ds rest : List Char} (hd : ∀ c ∈ ds, isNumeric c = true) (hs : Stops rest) :
    (ds ++ rest).takeWhile isNumeric = ds ∧ (ds ++ rest).dropWhile isNumeric = rest := by
  induction ds with
  | nil =>
    cases rest with
    | nil => exact ⟨rfl, rfl⟩
    | cons c rest =>
      have hc : isNumeric c = false := hs c rfl
      simp [hc]
  | cons c ds ih =>
    obtain ⟨h₁, h₂⟩ := ih fun c' hc' => hd c' (List.mem_cons_of_mem _ hc')
    have hc := hd c List.mem_cons_self
    simp [hc, h₁, h₂]

theorem reads_int (k : Int) : Reads (.int k) := by
  intro n rest hn hs
  obtain ⟨n, rfl⟩ := Nat.exists_eq_succ_of_ne_zero (Nat.ne_zero_of_lt hn)
  obtain ⟨c, cs, hcs⟩ := List.exists_cons_of_ne_nil (toString_int_ne_nil k)
  have hc := numeric_of_digit (mem_toString_int (c := c) (by rw [hcs]; exact List.mem_cons_self))
  have hnum : number (print (.int k) ++ rest) = some (.int k, rest) := by
    obtain ⟨htake, hdrop⟩ := span_numeric (fun c hc => (numeric_of_digit (mem_toString_int hc)).1) hs
    unfold number print
    rw [htake, hdrop, parseInt_toString]
    simp
  have hp : print (.int k) = c :: cs := hcs
  rw [value, hp, List.cons_append, skip_cons hc.2.1, ← List.cons_append, ← hp]
  -- no other value starts like that
  split
  all_goals rename_i heq
  all_goals first | exact hnum | rw [hp, List.cons_append] at heq
  all_goals obtain ⟨rfl, -⟩ := List.cons.inj heq
  all_goals simp at hc

theorem reads_null : Reads .null := by
  intro n rest hn _
  obtain ⟨n, rfl⟩ := Nat.exists_eq_succ_of_ne_zero (Nat.ne_zero_of_lt hn)
  rfl

theorem reads_bool (b : Bool) : Reads (.bool b) := by
  intro n rest hn _
  obtain ⟨n, rfl⟩ := Nat.exists_eq_succ_of_ne_zero (Nat.ne_zero_of_lt hn)
  cases b <;> rfl

theorem reads_str (s : String) : Reads (.str s) := by
  intro n rest hn _
  obtain ⟨n, rfl⟩ := Nat.exists_eq_succ_of_ne_zero (Nat.ne_zero_of_lt hn)
  have hval : value (n + 1) (print (.str s) ++ rest) =
      (readChars (s.toList.flatMap escape ++ ['"'] ++ rest)).map fun (s, cs) => (.str (String.ofList s), cs) := rfl
  rw [hval, List.append_assoc, List.singleton_append, readChars_quote, Option.map_some]
  simp

/-- The elements of an array. -/
theorem elements_print {vs : List Json} (hne : vs ≠ []) (h : ∀ v ∈ vs, Reads v) {n : Nat} (rest : List Char)
    (hn : (commaSep (vs.map print)).length + 1 < n) :
    elements n (commaSep (vs.map print) ++ ']' :: rest) = some (vs, rest) := by
  induction vs generalizing n with
  | nil => exact absurd rfl hne
  | cons v vs ih =>
    obtain ⟨n, rfl⟩ := Nat.exists_eq_succ_of_ne_zero (Nat.ne_zero_of_lt hn)
    have hv := h v List.mem_cons_self
    cases vs with
    | nil =>
      simp only [List.map_cons, List.map_nil, commaSep] at hn ⊢
      rw [elements, hv n (']' :: rest) (by omega) (by rintro c ⟨⟩; rfl)]
      rfl
    | cons w vs =>
      simp only [List.map_cons, commaSep, List.length_append, List.length_cons] at hn ⊢
      rw [List.append_assoc, elements, hv n _ (by omega) (by rintro c ⟨⟩; rfl)]
      have hrest := ih (List.cons_ne_nil _ _) (fun u hu => h u (List.mem_cons_of_mem _ hu)) (n := n)
        (by simp only [List.map_cons]; omega)
      simp only [List.map_cons] at hrest
      show (elements n (commaSep (print w :: vs.map print) ++ ']' :: rest)).map _ = _
      rw [hrest]
      rfl

/-- The fields of an object. -/
theorem members_print {fields : List (String × Json)} (hne : fields ≠ []) (h : ∀ f ∈ fields, Reads f.2) {n : Nat}
    (rest : List Char)
    (hn : (commaSep (fields.map fun f => quote f.1.toList ++ ':' :: print f.2)).length + 1 < n) :
    members n (commaSep (fields.map fun f => quote f.1.toList ++ ':' :: print f.2) ++ '}' :: rest) =
      some (fields, rest) := by
  induction fields generalizing n with
  | nil => exact absurd rfl hne
  | cons f fields ih =>
    obtain ⟨k, v⟩ := f
    obtain ⟨n, rfl⟩ := Nat.exists_eq_succ_of_ne_zero (Nat.ne_zero_of_lt hn)
    have hv := h (k, v) List.mem_cons_self
    -- the name, the colon and the value
    have hfield : ∀ cs, Stops cs → (print v).length < n →
        members (n + 1) (quote k.toList ++ ':' :: print v ++ cs) = match skip cs with
          | ',' :: cs => (members n cs).map fun (fields, cs) => ((k, v) :: fields, cs)
          | '}' :: cs => some ([(k, v)], cs)
          | _ => none := by
      intro cs hcs hlen
      have hopen : members (n + 1) (quote k.toList ++ ':' :: print v ++ cs) =
          match readChars (k.toList.flatMap escape ++ '"' :: (':' :: print v ++ cs)) with
          | none => none
          | some (k, cs) =>
            match skip cs with
            | ':' :: cs =>
              match value n cs with
              | none => none
              | some (v, cs) =>
                match skip cs with
                | ',' :: cs => (members n cs).map fun (fields, cs) => ((String.ofList k, v) :: fields, cs)
                | '}' :: cs => some ([(String.ofList k, v)], cs)
                | _ => none
            | _ => none := by
        unfold quote
        rw [List.cons_append, List.cons_append, List.append_assoc, List.append_assoc, List.singleton_append]
        rfl
      rw [hopen, readChars_quote]
      show (match value n (print v ++ cs) with
        | none => none
        | some (v, cs) => _) = _
      rw [hv n cs hlen hcs]
      simp only [String.ofList_toList]
    cases fields with
    | nil =>
      simp only [List.map_cons, List.map_nil, commaSep, List.length_append, List.length_cons] at hn ⊢
      rw [hfield _ (by rintro c ⟨⟩; rfl) (by omega)]
      rfl
    | cons g fields =>
      simp only [List.map_cons, commaSep, List.length_append, List.length_cons] at hn ⊢
      rw [List.append_assoc, List.cons_append, hfield _ (by rintro c ⟨⟩; rfl) (by omega)]
      have hrest := ih (List.cons_ne_nil _ _) (fun u hu => h u (List.mem_cons_of_mem _ hu)) (n := n)
        (by simp only [List.map_cons]; omega)
      simp only [List.map_cons] at hrest
      show (members n _).map _ = _
      rw [hrest]
      rfl

theorem reads_arr {vs : List Json} (h : ∀ v ∈ vs, Reads v) : Reads (.arr vs) := by
  intro n rest hn _
  obtain ⟨n, rfl⟩ := Nat.exists_eq_succ_of_ne_zero (Nat.ne_zero_of_lt hn)
  simp only [print, printList_eq, List.length_cons, List.length_append, List.length_nil] at hn ⊢
  cases vs with
  | nil => rfl
  | cons v vs =>
    obtain ⟨c, cs, hcs, hspace, hclose⟩ := print_head v
    have hels := elements_print (List.cons_ne_nil v vs) h rest (n := n) (by omega)
    obtain ⟨cs', hcs'⟩ : ∃ cs', commaSep ((v :: vs).map print) ++ ']' :: rest = c :: cs' := by
      cases vs with
      | nil => exact ⟨_, by rw [List.map_cons, List.map_nil, commaSep, hcs]; rfl⟩
      | cons w vs => exact ⟨_, by rw [List.map_cons, List.map_cons, commaSep, hcs]; rfl⟩
    rw [List.cons_append, List.append_assoc, List.singleton_append, value, skip_cons rfl, hcs']
    rw [hcs'] at hels
    simp only [skip_cons hspace]
    split
    · rename_i heq
      exact absurd (List.cons.inj heq).1 hclose
    · rw [hels]
      rfl

theorem reads_obj {fields : List (String × Json)} (hasc : Ascending fields) (h : ∀ f ∈ fields, Reads f.2) :
    Reads (.obj fields) := by
  intro n rest hn _
  obtain ⟨n, rfl⟩ := Nat.exists_eq_succ_of_ne_zero (Nat.ne_zero_of_lt hn)
  simp only [print, printFields_eq, List.length_cons, List.length_append, List.length_nil] at hn ⊢
  cases fields with
  | nil => rfl
  | cons f fields =>
    have hmem := members_print (List.cons_ne_nil f fields) h rest (n := n) (by omega)
    obtain ⟨cs', hcs'⟩ : ∃ cs', commaSep ((f :: fields).map fun f => quote f.1.toList ++ ':' :: print f.2) ++
        '}' :: rest = '"' :: cs' := by
      cases fields with
      | nil => exact ⟨_, rfl⟩
      | cons g fields => exact ⟨_, rfl⟩
    rw [List.cons_append, List.append_assoc, List.singleton_append, value, skip_cons rfl, hcs']
    rw [hcs'] at hmem
    simp only [skip_cons (c := '"') rfl]
    show (members n ('"' :: cs')).map _ = _
    rw [hmem, Option.map_some, @foldl_insertField _ [] hasc, List.nil_append]

/-- **A value in order is read from its text.** -/
theorem reads_normal {d : Nat} {v : Json} (h : Normal d v) : Reads v := by
  induction d generalizing v with
  | zero =>
    cases v with
    | arr vs => exact h.elim
    | obj fields => exact h.elim
    | float bits => exact h.elim
    | int k => exact reads_int k
    | str s => exact reads_str s
    | null => exact reads_null
    | bool b => exact reads_bool b
  | succ d ih =>
    cases v with
    | arr vs => exact reads_arr fun v hv => ih (h v hv)
    | obj fields => exact reads_obj h.1 fun f hf => ih (h.2 f hf)
    | float bits => exact h.elim
    | int k => exact reads_int k
    | str s => exact reads_str s
    | null => exact reads_null
    | bool b => exact reads_bool b

/-- **The text of a value in order is the text of that value.** -/
theorem parse_print {d : Nat} {v : Json} (h : Normal d v) : parse (String.ofList (print v)) = some v := by
  have hread := reads_normal h ((print v).length + 1) [] (Nat.lt_succ_self _) (by rintro c ⟨⟩)
  rw [List.append_nil] at hread
  unfold parse
  rw [String.toList_ofList, hread]
  rfl

end Fixus.Json
