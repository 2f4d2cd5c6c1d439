import Fixus.Data.SerdeJson
import Fixus.Lib.Separated
import Mathlib.Data.List.Sort

/-!
# Canonical JSON

The text of a value from which the key of a tool call is made: the fields of each object are written in the order of
their names.

- `canonicalJson`: the text;
- `EqUpToOrder`: equal up to the order of the fields of all objects;
- `canonicalJson_congr`: such values have the same text;
- `readable_of_proper`: a text has only one value up to that order, whatever comes after it;
- `canonicalJson_eq_iff`: both together.
-/

namespace Fixus

open Lib Lib.JsonString Lib.Separated Json

/-! ## The text -/

section Text

variable (serde : SerdeJson)

mutual

def canonicalJson : Json → String
  | .obj fields =>
    let texts := canonicalFields fields
    let keys := (texts.map Prod.fst).mergeSort
    let items := keys.map fun k => serde.toString (.str k) ++ ":" ++ (texts.lookup k).getD ""
    "\x7b" ++ ",".intercalate items ++ "\x7d"
  | .arr vs => "[" ++ ",".intercalate (canonicalList vs) ++ "]"
  | .null => serde.toString .null
  | .bool b => serde.toString (.bool b)
  | .int n => serde.toString (.int n)
  | .float bits => serde.toString (.float bits)
  | .str s => serde.toString (.str s)

def canonicalList : List Json → List String
  | [] => []
  | v :: vs => canonicalJson v :: canonicalList vs

/-- The texts of the fields, by name. -/
def canonicalFields : List (String × Json) → List (String × String)
  | [] => []
  | (k, v) :: fields => (k, canonicalJson v) :: canonicalFields fields

end

end Text

/-! ## Values -/

namespace Json

/-- A float that is neither infinite nor no number. -/
def finiteFloat (bits : UInt64) : Prop := bits.toNat / 2 ^ 52 % 2 ^ 11 ≠ 2 ^ 11 - 1

instance (bits : UInt64) : Decidable (finiteFloat bits) := inferInstanceAs (Decidable (_ ≠ _))

/-- The values that a `serde_json::Value` can have: integers of 64 bits, finite floats, names that differ. -/
inductive Proper : Json → Prop
  | null : Proper .null
  | bool (b : Bool) : Proper (.bool b)
  | int {n : Int} (hn : -2 ^ 63 ≤ n ∧ n < 2 ^ 64) : Proper (.int n)
  | float {bits : UInt64} (hbits : finiteFloat bits) : Proper (.float bits)
  | str (s : String) : Proper (.str s)
  | arr {vs : List Json} (hvs : ∀ v ∈ vs, Proper v) : Proper (.arr vs)
  | obj {fields : List (String × Json)} (hnodup : (fields.map Prod.fst).Nodup) (hfields : ∀ f ∈ fields, Proper f.2) :
    Proper (.obj fields)

/-- Not made of other values. -/
def isScalar : Json → Bool
  | .arr _ | .obj _ => false
  | _ => true

/-- Equal up to the order of the fields of all objects: arrays element by element, objects name by name. -/
inductive EqUpToOrder : Json → Json → Prop
  | scalar {v : Json} (hv : v.isScalar = true) : EqUpToOrder v v
  | arr {vs ws : List Json} (hlen : vs.length = ws.length)
    (h : ∀ (i : Nat) v w, vs[i]? = some v → ws[i]? = some w → EqUpToOrder v w) : EqUpToOrder (.arr vs) (.arr ws)
  | obj {fs gs : List (String × Json)} (hkeys : ∀ k, (getField fs k).isSome = (getField gs k).isSome)
    (h : ∀ k v w, getField fs k = some v → getField gs k = some w → EqUpToOrder v w) : EqUpToOrder (.obj fs) (.obj gs)

theorem getField_isSome {fields : List (String × Json)} {key : String} :
    (getField fields key).isSome ↔ key ∈ fields.map Prod.fst := by
  induction fields with
  | nil => simp [getField]
  | cons f fields ih =>
    obtain ⟨k, v⟩ := f
    rw [getField, List.map_cons, List.mem_cons, ← ih]
    by_cases hk : k = key
    · simp [hk]
    · simp [hk, Ne.symm hk]

theorem mem_of_getField {fields : List (String × Json)} {key : String} {v : Json} (h : getField fields key = some v) :
    (key, v) ∈ fields := by
  induction fields with
  | nil => cases h
  | cons f fields ih =>
    obtain ⟨k, w⟩ := f
    rw [getField] at h
    split at h
    · rename_i hk
      obtain rfl := Option.some.inj h
      exact hk ▸ List.mem_cons_self
    · exact List.mem_cons_of_mem _ (ih h)

theorem getField_eq_some_iff {fields : List (String × Json)} (hnodup : (fields.map Prod.fst).Nodup) {key : String}
    {v : Json} : getField fields key = some v ↔ (key, v) ∈ fields := by
  refine ⟨mem_of_getField, fun hmem => ?_⟩
  have hkey : (getField fields key).isSome := getField_isSome.mpr (List.mem_map_of_mem hmem)
  obtain ⟨w, hw⟩ := Option.isSome_iff_exists.mp hkey
  have heq := List.inj_on_of_nodup_map hnodup (mem_of_getField hw) hmem rfl
  rw [hw, (Prod.mk.inj heq).2]

theorem Proper.getField {fields : List (String × Json)} (h : Proper (.obj fields)) {key : String} {v : Json}
    (hv : getField fields key = some v) : Proper v := by
  cases h with
  | obj hnodup hfields => exact hfields _ (mem_of_getField hv)

theorem Proper.eqUpToOrder {v : Json} (h : Proper v) : EqUpToOrder v v := by
  induction h with
  | null | bool | int | float | str => exact .scalar rfl
  | arr hvs ih =>
    refine .arr rfl fun i v w hv hw => ?_
    obtain rfl := Option.some.inj (hv.symm.trans hw)
    exact ih v (List.mem_of_getElem? hv)
  | obj hnodup hfields ih =>
    refine .obj (fun k => rfl) fun k v w hv hw => ?_
    obtain rfl := Option.some.inj (hv.symm.trans hw)
    exact ih _ (mem_of_getField hv)

/-- The fields of an object in another order. -/
theorem Proper.of_perm {fs gs : List (String × Json)} (h : Proper (.obj fs)) (hperm : fs.Perm gs) :
    EqUpToOrder (.obj fs) (.obj gs) := by
  cases h with
  | obj hnodup hfields =>
    have hnodup' : (gs.map Prod.fst).Nodup := (hperm.map _).nodup hnodup
    refine .obj (fun k => ?_) fun k v w hv hw => ?_
    · rw [Bool.eq_iff_iff, getField_isSome, getField_isSome, (hperm.map _).mem_iff]
    · have hv' := (getField_eq_some_iff hnodup').mpr (hperm.mem_iff.mp (mem_of_getField hv))
      obtain rfl := Option.some.inj (hv'.symm.trans hw)
      exact (hfields _ (mem_of_getField hv)).eqUpToOrder

end Json

/-! ## The text of an object -/

section Texts

variable {serde : SerdeJson}

theorem canonicalList_eq (vs : List Json) : canonicalList serde vs = vs.map (canonicalJson serde) := by
  induction vs with
  | nil => rfl
  | cons v vs ih => rw [canonicalList, ih, List.map_cons]

theorem canonicalFields_eq (fields : List (String × Json)) :
    canonicalFields serde fields = fields.map fun f => (f.1, canonicalJson serde f.2) := by
  induction fields with
  | nil => rfl
  | cons f fields ih => rw [canonicalFields, ih, List.map_cons]

theorem lookup_canonicalFields (fields : List (String × Json)) (key : String) :
    (canonicalFields serde fields).lookup key = (getField fields key).map (canonicalJson serde) := by
  induction fields with
  | nil => rfl
  | cons f fields ih =>
    obtain ⟨k, v⟩ := f
    rw [canonicalFields, List.lookup_cons, ih, getField]
    by_cases hk : k = key
    · subst hk
      simp
    · have hne : (key == k) = false := beq_false_of_ne (Ne.symm hk)
      rw [hne, if_neg hk]

/-- The names of an object in order. -/
def sortedKeys (fields : List (String × Json)) : List String := (fields.map Prod.fst).mergeSort

/-- The text of a field of an object. -/
def fieldText (serde : SerdeJson) (fields : List (String × Json)) (key : String) : String :=
  serde.toString (.str key) ++ ":" ++ ((getField fields key).map (canonicalJson serde)).getD ""

theorem canonicalJson_obj (fields : List (String × Json)) :
    canonicalJson serde (.obj fields) =
      "\x7b" ++ ",".intercalate ((sortedKeys fields).map (fieldText serde fields)) ++ "\x7d" := by
  have hkeys : (canonicalFields serde fields).map Prod.fst = fields.map Prod.fst := by
    rw [canonicalFields_eq, List.map_map]
    rfl
  rw [canonicalJson]
  simp only [hkeys, lookup_canonicalFields]
  rfl

theorem canonicalJson_arr (vs : List Json) :
    canonicalJson serde (.arr vs) = "[" ++ ",".intercalate (vs.map (canonicalJson serde)) ++ "]" := by
  rw [canonicalJson, canonicalList_eq]

theorem mem_sortedKeys {fields : List (String × Json)} {key : String} :
    key ∈ sortedKeys fields ↔ (getField fields key).isSome := by
  unfold sortedKeys
  rw [List.mem_mergeSort, getField_isSome]

/-- Objects with the same names have them in the same order. -/
theorem sortedKeys_congr {fs gs : List (String × Json)} (hf : (fs.map Prod.fst).Nodup) (hg : (gs.map Prod.fst).Nodup)
    (hkeys : ∀ k, (getField fs k).isSome = (getField gs k).isSome) : sortedKeys fs = sortedKeys gs := by
  have hperm : (fs.map Prod.fst).Perm (gs.map Prod.fst) := by
    refine (List.perm_ext_iff_of_nodup hf hg).mpr fun k => ?_
    rw [← getField_isSome, ← getField_isSome, hkeys k]
  have hsorted : (sortedKeys fs).Perm (sortedKeys gs) :=
    (List.mergeSort_perm _ _).trans (hperm.trans (List.mergeSort_perm _ _).symm)
  exact hsorted.eq_of_pairwise (fun k k' _ _ hle hge => le_antisymm hle hge) (List.pairwise_mergeSort' _ _)
    (List.pairwise_mergeSort' _ _)

/-- **Values that are equal up to the order of fields have the same text.** -/
theorem canonicalJson_congr {a b : Json} (h : EqUpToOrder a b) (ha : Proper a) (hb : Proper b) :
    canonicalJson serde a = canonicalJson serde b := by
  induction h with
  | scalar hv => rfl
  | @arr vs ws hlen h ih =>
    cases ha with
    | arr hvs =>
      cases hb with
      | arr hws =>
        have hmap : vs.map (canonicalJson serde) = ws.map (canonicalJson serde) := by
          refine List.ext_getElem (by simpa using hlen) fun i hi hi' => ?_
          have hv := List.getElem?_eq_getElem (by simpa using hi : i < vs.length)
          have hw := List.getElem?_eq_getElem (by simpa using hi' : i < ws.length)
          rw [List.getElem_map, List.getElem_map]
          exact ih i _ _ hv hw (hvs _ (List.getElem_mem _)) (hws _ (List.getElem_mem _))
        rw [canonicalJson_arr, canonicalJson_arr, hmap]
  | @obj fs gs hkeys h ih =>
    have hnames : sortedKeys fs = sortedKeys gs := by
      cases ha with
      | obj hf _ =>
        cases hb with
        | obj hg _ => exact sortedKeys_congr hf hg hkeys
    have hmap : (sortedKeys fs).map (fieldText serde fs) = (sortedKeys gs).map (fieldText serde gs) := by
      rw [← hnames]
      refine List.map_congr_left fun k hk => ?_
      obtain ⟨v, hv⟩ := Option.isSome_iff_exists.mp (mem_sortedKeys.mp hk)
      obtain ⟨w, hw⟩ := Option.isSome_iff_exists.mp (hkeys k ▸ mem_sortedKeys.mp hk)
      unfold fieldText
      rw [hv, hw, Option.map_some, Option.map_some, ih k v w hv hw (ha.getField hv) (hb.getField hw)]
    rw [canonicalJson_obj, canonicalJson_obj, hmap]

end Texts

/-! ## Reading a text -/

/-- What is known of the texts of finite floats: they are numbers, with a mark that no integer has, and they differ. -/
structure SerdeJson.WritesFloats (serde : SerdeJson) : Prop where
  numeric : ∀ {bits}, finiteFloat bits → ∀ c ∈ (serde.toString (.float bits)).toList, isNumeric c = true
  marked : ∀ {bits}, finiteFloat bits → ∃ c ∈ (serde.toString (.float bits)).toList, ¬ (c.isDigit = true ∨ c = '-')
  injective : ∀ {bits bits'}, finiteFloat bits → finiteFloat bits' →
    serde.toString (.float bits) = serde.toString (.float bits') → bits = bits'

/-- The kinds of values that a text tells apart by its first character. -/
inductive Kind where
  | null | bool | number | str | arr | obj
  deriving DecidableEq

def Json.kind : Json → Kind
  | .null => .null
  | .bool _ => .bool
  | .int _ | .float _ => .number
  | .str _ => .str
  | .arr _ => .arr
  | .obj _ => .obj

def kindOfChar (c : Char) : Option Kind :=
  if c = 'n' then some .null
  else if c = 't' ∨ c = 'f' then some .bool
  else if c = '"' then some .str
  else if c = '[' then some .arr
  else if c = '{' then some .obj
  else if isNumeric c then some .number
  else none

section Reading

variable {serde : SerdeJson} {a b v : Json}

theorem kindOfChar_numeric {c : Char} (hc : isNumeric c = true) : kindOfChar c = some .number := by
  have hne : ∀ d, isNumeric d = false → c ≠ d := by
    rintro d hd rfl
    rw [hc] at hd
    cases hd
  unfold kindOfChar
  rw [if_neg (hne 'n' rfl), if_neg (not_or.mpr ⟨hne 't' rfl, hne 'f' rfl⟩), if_neg (hne '"' rfl),
    if_neg (hne '[' rfl), if_neg (hne '{' rfl), if_pos hc]

theorem toList_toString_str (s : String) : (serde.toString (.str s)).toList = quote s.toList := by
  rw [serde.toString_eq (exact_str 127 s), String.toList_ofList]
  rfl

theorem toList_toString_int {n : Int} (hn : -2 ^ 63 ≤ n ∧ n < 2 ^ 64) :
    (serde.toString (.int n)).toList = (toString n).toList := by
  rw [serde.toString_eq (exact_int.mpr hn), String.toList_ofList]
  rfl

theorem toList_toString_bool (b : Bool) : (serde.toString (.bool b)).toList = print (.bool b) := by
  rw [serde.toString_eq (v := .bool b) trivial, String.toList_ofList]
  rfl

theorem toList_toString_null : (serde.toString .null).toList = ['n', 'u', 'l', 'l'] := by
  rw [serde.toString_eq (v := .null) trivial, String.toList_ofList]
  rfl

theorem toList_canonicalJson_arr (vs : List Json) : (canonicalJson serde (.arr vs)).toList =
    '[' :: ([','].intercalate (vs.map fun v => (canonicalJson serde v).toList) ++ [']']) := by
  rw [canonicalJson_arr, String.toList_append, String.toList_append, String.toList_intercalate, List.map_map]
  rfl

theorem toList_canonicalJson_obj (fields : List (String × Json)) : (canonicalJson serde (.obj fields)).toList =
    '{' :: ([','].intercalate ((sortedKeys fields).map fun k => (fieldText serde fields k).toList) ++ ['}']) := by
  rw [canonicalJson_obj, String.toList_append, String.toList_append, String.toList_intercalate, List.map_map]
  rfl

theorem toList_fieldText {fields : List (String × Json)} {key : String} (hv : getField fields key = some v) :
    (fieldText serde fields key).toList = quote key.toList ++ ':' :: (canonicalJson serde v).toList := by
  unfold fieldText
  rw [hv, String.toList_append, String.toList_append, toList_toString_str, List.append_assoc]
  rfl

theorem number_cases (h : v.kind = .number) : (∃ n, v = .int n) ∨ ∃ bits, v = .float bits := by
  cases v with
  | int n => exact Or.inl ⟨n, rfl⟩
  | float bits => exact Or.inr ⟨bits, rfl⟩
  | _ => cases h

/-- Numbers are written in the characters of numbers. -/
theorem numeric_canonicalJson (hf : serde.WritesFloats) (hv : Proper v) (hk : v.kind = .number) :
    (canonicalJson serde v).toList ≠ [] ∧ ∀ c ∈ (canonicalJson serde v).toList, isNumeric c = true := by
  rcases number_cases hk with ⟨n, rfl⟩ | ⟨bits, rfl⟩
  · cases hv with
    | int hn =>
      rw [canonicalJson, toList_toString_int hn]
      exact ⟨toString_int_ne_nil n, fun c hc => (numeric_of_digit (mem_toString_int hc)).1⟩
  · cases hv with
    | float hbits =>
      obtain ⟨c, hc, -⟩ := hf.marked hbits
      rw [canonicalJson]
      exact ⟨List.ne_nil_of_mem hc, hf.numeric hbits⟩

/-- Numbers with the same text are the same. -/
theorem number_inj (hf : serde.WritesFloats) (ha : Proper a) (hb : Proper b) (hka : a.kind = .number)
    (hkb : b.kind = .number) (h : (canonicalJson serde a).toList = (canonicalJson serde b).toList) : a = b := by
  -- the text of a float is not the text of an integer
  have hmix : ∀ {n : Int} {bits : UInt64}, Proper (.int n) → Proper (.float bits) →
      (canonicalJson serde (.int n)).toList ≠ (canonicalJson serde (.float bits)).toList := by
    intro n bits hn hbits heq
    cases hn with
    | int hn =>
      cases hbits with
      | float hbits =>
        obtain ⟨c, hc, hmark⟩ := hf.marked hbits
        rw [canonicalJson, canonicalJson, toList_toString_int hn] at heq
        exact hmark (mem_toString_int (heq ▸ hc))
  rcases number_cases hka with ⟨n, rfl⟩ | ⟨bits, rfl⟩ <;> rcases number_cases hkb with ⟨m, rfl⟩ | ⟨bits', rfl⟩
  · cases ha with
    | int hn =>
      cases hb with
      | int hm =>
        rw [canonicalJson, canonicalJson, toList_toString_int hn, toList_toString_int hm] at h
        have hread := congrArg parseInt h
        rw [parseInt_toString, parseInt_toString] at hread
        rw [Option.some.inj hread]
  · exact absurd h (hmix ha hb)
  · exact absurd h.symm (hmix hb ha)
  · cases ha with
    | float hbits =>
      cases hb with
      | float hbits' => rw [hf.injective hbits hbits' (String.toList_inj.mp h)]

/-- The first character of a text tells the kind of its value. -/
theorem canonicalJson_head (hf : serde.WritesFloats) (hv : Proper v) :
    ∃ c cs, (canonicalJson serde v).toList = c :: cs ∧ kindOfChar c = some v.kind := by
  cases hv with
  | null => exact ⟨_, _, toList_toString_null, rfl⟩
  | bool b =>
    rw [canonicalJson, toList_toString_bool]
    cases b <;> exact ⟨_, _, rfl, rfl⟩
  | @int n hn =>
    obtain ⟨hne, hnum⟩ := numeric_canonicalJson hf (.int hn) rfl
    obtain ⟨c, cs, hcs⟩ := List.exists_cons_of_ne_nil hne
    exact ⟨c, cs, hcs, kindOfChar_numeric (hnum c (by rw [hcs]; exact List.mem_cons_self))⟩
  | @float bits hbits =>
    obtain ⟨hne, hnum⟩ := numeric_canonicalJson hf (.float hbits) rfl
    obtain ⟨c, cs, hcs⟩ := List.exists_cons_of_ne_nil hne
    exact ⟨c, cs, hcs, kindOfChar_numeric (hnum c (by rw [hcs]; exact List.mem_cons_self))⟩
  | str s => exact ⟨_, _, toList_toString_str s, rfl⟩
  | arr _ => exact ⟨_, _, toList_canonicalJson_arr _, rfl⟩
  | obj _ _ => exact ⟨_, _, toList_canonicalJson_obj _, rfl⟩

/-- Texts that go on alike are texts of values of the same kind. -/
theorem kind_eq (hf : serde.WritesFloats) (ha : Proper a) (hb : Proper b) {r r' : List Char}
    (h : (canonicalJson serde a).toList ++ r = (canonicalJson serde b).toList ++ r') : a.kind = b.kind := by
  obtain ⟨c, cs, hc, hkind⟩ := canonicalJson_head hf ha
  obtain ⟨d, ds, hd, hkind'⟩ := canonicalJson_head hf hb
  rw [hc, hd] at h
  obtain ⟨rfl, -⟩ := List.cons.inj h
  exact Option.some.inj (hkind.symm.trans hkind')

/-- A comma or a bracket ends a number. -/
theorem stops_of_ends {close : Char} {r : List Char} (h : Ends ',' close r)
    (hclose : isNumeric close = false) : Stops r := by
  obtain ⟨c, cs, rfl, hc⟩ := h
  rintro c ⟨⟩
  rcases hc with rfl | rfl
  · rfl
  · exact hclose

/-- The text of a value tells it up to the order of fields, in front of any text that does not continue a number. -/
def Readable (serde : SerdeJson) (a : Json) : Prop :=
  ∀ b r r', Proper b → Stops r → Stops r' →
    (canonicalJson serde a).toList ++ r = (canonicalJson serde b).toList ++ r' → EqUpToOrder a b ∧ r = r'

/-- Fields with readable values. -/
theorem apart_fieldText {fs gs : List (String × Json)} (hread : ∀ k v, getField fs k = some v → Readable serde v)
    (hgs : ∀ k w, getField gs k = some w → Proper w) : ∀ k ∈ sortedKeys fs, ∀ k' ∈ sortedKeys gs,
      Apart ',' '}' (fun k => (fieldText serde fs k).toList) (fun k => (fieldText serde gs k).toList)
        (fun k k' => k = k' ∧ ∀ v w, getField fs k = some v → getField gs k = some w → EqUpToOrder v w) k k' := by
  intro k hk k' hk' r r' hr hr' h
  obtain ⟨v, hv⟩ := Option.isSome_iff_exists.mp (mem_sortedKeys.mp hk)
  obtain ⟨w, hw⟩ := Option.isSome_iff_exists.mp (mem_sortedKeys.mp hk')
  simp only [toList_fieldText hv, toList_fieldText hw, List.append_assoc] at h
  obtain ⟨hkeys, hrest⟩ := quote_append_inj h
  obtain rfl := String.toList_inj.mp hkeys
  obtain ⟨heq, hr⟩ := hread k v hv w r r' (hgs k w hw) (stops_of_ends hr rfl) (stops_of_ends hr' rfl)
    (List.cons.inj hrest).2
  refine ⟨⟨rfl, fun v' w' hv' hw' => ?_⟩, hr⟩
  rw [hv] at hv'
  rw [hw] at hw'
  obtain rfl := Option.some.inj hv'
  obtain rfl := Option.some.inj hw'
  exact heq

theorem readable_null (hf : serde.WritesFloats) : Readable serde .null := by
  intro b r r' hb _ _ h
  have hkind := kind_eq hf .null hb h
  cases b with
  | null => exact ⟨.scalar rfl, List.append_cancel_left h⟩
  | _ => cases hkind

theorem readable_bool (hf : serde.WritesFloats) (p : Bool) : Readable serde (.bool p) := by
  intro b r r' hb _ _ h
  have hkind := kind_eq hf (.bool p) hb h
  cases b with
  | bool q =>
    rw [canonicalJson, canonicalJson, toList_toString_bool, toList_toString_bool] at h
    have hpq : p = q := by cases p <;> cases q <;> first | rfl | exact absurd (List.cons.inj h).1 (by decide)
    subst hpq
    exact ⟨.scalar rfl, List.append_cancel_left h⟩
  | _ => cases hkind

theorem readable_str (hf : serde.WritesFloats) (s : String) : Readable serde (.str s) := by
  intro b r r' hb _ _ h
  have hkind := kind_eq hf (.str s) hb h
  cases b with
  | str s' =>
    rw [canonicalJson, canonicalJson, toList_toString_str, toList_toString_str] at h
    obtain ⟨hs, hr⟩ := quote_append_inj h
    obtain rfl := String.toList_inj.mp hs
    exact ⟨.scalar rfl, hr⟩
  | _ => cases hkind

/-- A number goes up to the first character that is not one of a number. -/
theorem readable_number (hf : serde.WritesFloats) (ha : Proper a) (hk : a.kind = .number) : Readable serde a := by
  intro b r r' hb hr hr' h
  have hkind := kind_eq hf ha hb h
  have hkb : b.kind = .number := hkind ▸ hk
  obtain ⟨htake, hdrop⟩ := span_numeric (numeric_canonicalJson hf ha hk).2 hr
  obtain ⟨htake', hdrop'⟩ := span_numeric (numeric_canonicalJson hf hb hkb).2 hr'
  rw [h] at htake hdrop
  obtain rfl := number_inj hf ha hb hk hkb (htake.symm.trans htake')
  have hscalar : a.isScalar = true := by rcases number_cases hk with ⟨n, rfl⟩ | ⟨bits, rfl⟩ <;> rfl
  exact ⟨.scalar hscalar, hdrop.symm.trans hdrop'⟩

theorem readable_arr (hf : serde.WritesFloats) {vs : List Json} (hvs : ∀ v ∈ vs, Proper v)
    (hread : ∀ v ∈ vs, Readable serde v) : Readable serde (.arr vs) := by
  intro b r r' hb _ _ h
  have hkind := kind_eq hf (.arr hvs) hb h
  cases b with
  | arr ws =>
    have hws : ∀ w ∈ ws, Proper w := by
      cases hb with
      | arr hws => exact hws
    -- no value starts with a closing bracket
    have hopen : ∀ w, Proper w → ∃ c cs, (canonicalJson serde w).toList = c :: cs ∧ c ≠ ']' := by
      intro w hw
      obtain ⟨c, cs, htext, hc⟩ := canonicalJson_head hf hw
      refine ⟨c, cs, htext, ?_⟩
      rintro rfl
      cases hc
    have hitem : ∀ v ∈ vs, ∀ w ∈ ws, Apart ',' ']' (fun v => (canonicalJson serde v).toList)
        (fun w => (canonicalJson serde w).toList) EqUpToOrder v w :=
      fun v hv w hw r r' hr hr' => hread v hv w r r' (hws w hw) (stops_of_ends hr rfl) (stops_of_ends hr' rfl)
    rw [toList_canonicalJson_arr, toList_canonicalJson_arr, List.cons_append, List.cons_append, List.append_assoc,
      List.append_assoc] at h
    obtain ⟨hall, hr⟩ := forall₂_of_intercalate (by decide) (fun v hv => hopen v (hvs v hv))
      (fun w hw => hopen w (hws w hw)) hitem (List.cons.inj h).2
    refine ⟨.arr hall.length_eq fun i v w hv hw => ?_, hr⟩
    obtain ⟨hi, rfl⟩ := List.getElem?_eq_some_iff.mp hv
    obtain ⟨hi', rfl⟩ := List.getElem?_eq_some_iff.mp hw
    exact hall.get hi hi'
  | _ => cases hkind

theorem readable_obj (hf : serde.WritesFloats) {fs : List (String × Json)} (ha : Proper (.obj fs))
    (hread : ∀ k v, getField fs k = some v → Readable serde v) : Readable serde (.obj fs) := by
  intro b r r' hb _ _ h
  have hkind := kind_eq hf ha hb h
  cases b with
  | obj gs =>
    -- a field starts with its quoted name
    have hopen : ∀ fields : List (String × Json), ∀ k ∈ sortedKeys fields,
        ∃ c cs, (fieldText serde fields k).toList = c :: cs ∧ c ≠ '}' := by
      intro fields k hk
      obtain ⟨v, hv⟩ := Option.isSome_iff_exists.mp (mem_sortedKeys.mp hk)
      exact ⟨_, _, toList_fieldText hv, by decide⟩
    have hitem := apart_fieldText hread fun k w hw => hb.getField hw
    rw [toList_canonicalJson_obj, toList_canonicalJson_obj, List.cons_append, List.cons_append, List.append_assoc,
      List.append_assoc] at h
    obtain ⟨hall, hr⟩ := forall₂_of_intercalate (by decide) (hopen fs) (hopen gs) hitem (List.cons.inj h).2
    have hkeys : sortedKeys fs = sortedKeys gs := by
      rw [← List.forall₂_eq_eq_eq]
      exact hall.imp fun k k' hkk' => hkk'.1
    have hvalues := List.forall₂_same.mp (hkeys ▸ hall)
    refine ⟨.obj (fun k => ?_) (fun k v w hv hw => ?_), hr⟩
    · rw [Bool.eq_iff_iff, ← mem_sortedKeys, ← mem_sortedKeys, hkeys]
    · have hk : k ∈ sortedKeys gs := mem_sortedKeys.mpr (by rw [hw]; rfl)
      exact (hvalues k hk).2 v w hv hw
  | _ => cases hkind

/-- **A text has only one value up to the order of fields.** -/
theorem readable_of_proper (hf : serde.WritesFloats) (ha : Proper a) : Readable serde a := by
  induction ha with
  | null => exact readable_null hf
  | bool p => exact readable_bool hf p
  | int hn => exact readable_number hf (.int hn) rfl
  | float hbits => exact readable_number hf (.float hbits) rfl
  | str s => exact readable_str hf s
  | arr hvs ih => exact readable_arr hf hvs ih
  | obj hnodup hfields ih => exact readable_obj hf (.obj hnodup hfields) fun k v hv => ih _ (mem_of_getField hv)

/-- Values with the same text are equal up to the order of their fields. -/
theorem eqUpToOrder_of_canonicalJson (hf : serde.WritesFloats) (ha : Proper a) (hb : Proper b)
    (h : canonicalJson serde a = canonicalJson serde b) : EqUpToOrder a b := by
  have hend : Stops [] := by rintro c ⟨⟩
  exact (readable_of_proper hf ha b [] [] hb hend hend (by rw [h])).1

/-- **Two values have the same text exactly if they are equal up to the order of their fields.** -/
theorem canonicalJson_eq_iff (hf : serde.WritesFloats) (ha : Proper a) (hb : Proper b) :
    canonicalJson serde a = canonicalJson serde b ↔ EqUpToOrder a b := by
  constructor
  · exact eqUpToOrder_of_canonicalJson hf ha hb
  · exact fun h => canonicalJson_congr h ha hb

end Reading

/-! ## A writer with floats -/

/-- The compact writer; a float is written as the number of its bits with a fraction. -/
def SerdeJson.withFloats : SerdeJson where
  toString
    | .float bits => bits.toNat.repr ++ ".0"
    | v => SerdeJson.compact.toString v
  fromStr := SerdeJson.compact.fromStr
  toString_eq := by
    intro v hv
    cases v with
    | float bits => exact hv.elim
    | _ => rfl
  fromStr_toString := by
    intro v hv
    cases v with
    | float bits => exact hv.elim
    | _ => exact SerdeJson.compact.fromStr_toString hv

theorem withFloats_writesFloats : SerdeJson.withFloats.WritesFloats := by
  have htext : ∀ bits, (SerdeJson.withFloats.toString (.float bits)).toList = bits.toNat.repr.toList ++ ['.', '0'] :=
    fun bits => String.toList_append
  refine ⟨fun {bits} _ c hc => ?_, fun {bits} _ => ?_, fun {bits bits'} _ _ h => ?_⟩
  · rw [htext] at hc
    rcases List.mem_append.mp hc with hc | hc
    · rw [Nat.toList_repr] at hc
      exact (numeric_of_digit (Or.inl (Nat.isDigit_of_mem_toDigits (by decide) (by decide) hc))).1
    · rcases List.mem_pair.mp hc with rfl | rfl <;> rfl
  · refine ⟨'.', ?_, by decide⟩
    rw [htext]
    simp
  · have hl := congrArg String.toList h
    rw [htext, htext] at hl
    have hrepr := congrArg parseNat (List.append_cancel_right hl)
    rw [parseNat_toList_repr, parseNat_toList_repr] at hrepr
    exact UInt64.toNat_inj.mp (Option.some.inj hrepr)

/-- Two fields in either order. -/
theorem canonicalJson_eq_iff_two_fields :
    canonicalJson .withFloats (.obj [("b", .int 1), ("a", .float 0)]) =
      canonicalJson .withFloats (.obj [("a", .float 0), ("b", .int 1)]) := by
  have hone : Proper (.int 1) := .int (by decide)
  have hzero : Proper (.float 0) := .float (by decide)
  have ha : Proper (.obj [("b", .int 1), ("a", .float 0)]) := .obj (by decide) (by simp [hone, hzero])
  have hb : Proper (.obj [("a", .float 0), ("b", .int 1)]) := .obj (by decide) (by simp [hone, hzero])
  exact (canonicalJson_eq_iff withFloats_writesFloats ha hb).mpr (ha.of_perm (List.Perm.swap _ _ _))

end Fixus
