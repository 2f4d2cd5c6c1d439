import Fixus.Data.JsonText

/-!
# The JSON library

What the program relies on: a value is written compactly, its objects in the order of their keys and its strings with
no more escapes than they need, and what was written reads back. Both hold of values without floats and within the
depth that the reader allows.
-/

namespace Fixus

structure SerdeJson where
  toString : Json → String
  fromStr : String → Option Json
  toString_eq {v : Json} : v.Exact 127 → toString v = String.ofList v.sorted.print
  fromStr_toString {v : Json} : v.Exact 127 → fromStr (toString v) = some v.sorted

namespace SerdeJson

/-- The writer and the reader of this development. -/
def compact : SerdeJson where
  toString v := String.ofList v.sorted.print
  fromStr := Json.parse
  toString_eq _ := rfl
  fromStr_toString h := Json.parse_print h.sorted

end SerdeJson

namespace Json

/-- The value nests at most so deep. -/
def nestsWithin : Nat → Json → Bool
  | 0, .arr _ | 0, .obj _ => false
  | d + 1, .arr vs => vs.all (nestsWithin d)
  | d + 1, .obj fields => fields.all fun f => nestsWithin d f.2
  | _, .null | _, .bool _ | _, .int _ | _, .float _ | _, .str _ => true

theorem Normal.nestsWithin {d : Nat} {v : Json} (h : Normal d v) : v.nestsWithin d = true := by
  induction d generalizing v with
  | zero => cases v <;> first | rfl | exact absurd h id
  | succ d ih =>
    cases v with
    | arr vs => exact List.all_eq_true.mpr fun w hw => ih (h w hw)
    | obj fields => exact List.all_eq_true.mpr fun f hf => ih (h.2 f hf)
    | _ => rfl

end Json

namespace SerdeJson

/-- The same with the depth that the reader of the library allows and no more. -/
def limited : SerdeJson where
  toString v := String.ofList v.sorted.print
  fromStr s := (Json.parse s).filter (Json.nestsWithin 127)
  toString_eq _ := rfl
  fromStr_toString h := by rw [Json.parse_print h.sorted, Option.filter_some, if_pos h.sorted.nestsWithin]

/-- A text is visible exactly if the names and strings of its value are ASCII without DEL. -/
theorem visible_toString (serde : SerdeJson) {v : Json} (h : v.Exact 127) :
    (serde.toString v).toList.all Lib.JsonString.visible = v.allText Lib.JsonString.belowDel := by
  rw [serde.toString_eq h, String.toList_ofList, Json.visible_print, h.allText_sorted]

end SerdeJson

end Fixus
