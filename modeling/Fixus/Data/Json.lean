import Fixus.Data.Int64

/-!
# JSON payloads

Payloads are decoded `serde_json` values. An object keeps its fields as an association list; reading goes by the
first field of the name (`Json.get`), writing replaces it or appends (`Json.set`). Integers stand for the `i64` and
`u64` numbers, floats are kept as their bits.

- `get_set_self`, `get_set_of_ne`: a written field reads back, the others keep their value;
- `asI64_ofInt`: an integer of the `i64` range reads back as itself.
-/

namespace Fixus

/-- A decoded JSON value. -/
inductive Json where
  | null
  | bool (b : Bool)
  | int (n : Int)
  | float (bits : UInt64)
  | str (s : String)
  | arr (xs : List Json)
  | obj (fields : List (String × Json))
  deriving Inhabited, Repr

namespace Json

/-- The value of the first field of a name. -/
def getField : List (String × Json) → String → Option Json
  | [], _ => none
  | (k, v) :: rest, key => if k = key then some v else getField rest key

/-- `value.get(key)`: a field of an object, nothing for the other values. -/
def get : Json → String → Option Json
  | .obj fields, key => getField fields key
  | _, _ => none

/-- `value[key]`: a missing field reads as null. -/
def index (v : Json) (key : String) : Json := (v.get key).getD .null

/-- Replace the first field of a name, or append it. -/
def setField : List (String × Json) → String → Json → List (String × Json)
  | [], key, v => [(key, v)]
  | (k, w) :: rest, key, v => if k = key then (k, v) :: rest else (k, w) :: setField rest key v

/-- `value[key] = v` on an object; null becomes an object, as indexing by name makes it one. -/
def set : Json → String → Json → Json
  | .obj fields, key, v => .obj (setField fields key v)
  | .null, key, v => .obj [(key, v)]
  | w, _, _ => w

/-- Set the field when there is a value for it. -/
def setOpt (v : Json) (key : String) : Option Json → Json
  | some w => v.set key w
  | none => v

/-- `as_str`. -/
def asStr : Json → Option String
  | .str s => some s
  | _ => none

/-- `as_i64`: an integer of the signed 64-bit range. -/
def asI64 : Json → Option Int
  | .int n => if InI64 n then some n else none
  | _ => none

/-- `is_null`. -/
def isNull : Json → Bool
  | .null => true
  | _ => false

/-- An optional string, null when absent. -/
def ofOptStr : Option String → Json
  | some s => .str s
  | none => .null

theorem getField_setField_self (fields : List (String × Json)) (key : String) (v : Json) :
    getField (setField fields key v) key = some v := by
  induction fields with
  | nil => simp [setField, getField]
  | cons f rest ih =>
    obtain ⟨k, w⟩ := f
    by_cases hk : k = key
    · simp [setField, getField, hk]
    · simp [setField, getField, hk, ih]

theorem getField_setField_of_ne {key key' : String} (hne : key' ≠ key) (fields : List (String × Json)) (v : Json) :
    getField (setField fields key v) key' = getField fields key' := by
  induction fields with
  | nil => simp [setField, getField, hne.symm]
  | cons f rest ih =>
    obtain ⟨k, w⟩ := f
    by_cases hk : k = key
    · simp [setField, getField, hk, hne.symm]
    · simp [setField, getField, hk, ih]

/-- A written field reads back. -/
@[simp] theorem get_set_self (fields : List (String × Json)) (key : String) (v : Json) :
    ((obj fields).set key v).get key = some v := getField_setField_self fields key v

/-- Writing a field keeps the others. -/
theorem get_set_of_ne {key key' : String} (hne : key' ≠ key) (fields : List (String × Json)) (v : Json) :
    ((obj fields).set key v).get key' = (obj fields).get key' := getField_setField_of_ne hne fields v

/-- An integer of the range reads back as itself. -/
@[simp] theorem asI64_ofInt {n : Int} (h : InI64 n) : (Json.int n).asI64 = some n := if_pos h

end Json

/-! ## Texts in messages -/

/-- A character of a text in the debug format. Beyond ASCII only the controls are escaped. -/
def debugChar (c : Char) : String :=
  match c with
  | '\t' => "\\t"
  | '\n' => "\\n"
  | '\r' => "\\r"
  | '"' => "\\\""
  | '\\' => "\\\\"
  | _ =>
    if c.toNat = 0 then "\\0"
    else if c.toNat < 32 ∨ 127 ≤ c.toNat ∧ c.toNat < 160 then
      "\\u\x7b" ++ String.ofList (Nat.toDigits 16 c.toNat) ++ "\x7d"
    else String.singleton c

/-- A text as the debug format prints it. -/
def debugStr (s : String) : String := "\"" ++ String.join (s.toList.map debugChar) ++ "\""

/-- An optional value as the debug format prints it. -/
def debugOpt (text : Option String) : String :=
  match text with
  | some s => "Some(" ++ s ++ ")"
  | none => "None"

end Fixus
