import Fixus.Data.SerdeJson
import Fixus.Lib.Utf8

/-!
# Templates of command lines

A template element is a literal, an argument in braces, or in braces with a question mark a flag with a fixed text.

- `parseArgvElement`: the parser, with its byte slice;
- `ArgvPart.element`, `ArgvPart.WellFormed`: how a part is written, and which parts can be;
- `parse_element`, `of_parseArgvElement`: the two directions of the round trip;
- `parseArgvElement_grammar`: what is accepted and what is refused.
-/

namespace Fixus.ToolCatalog

open Lib.Utf8

inductive ArgvPart where
  | literal (s : String)
  | arg (name : String)
  | flag (name value : String)
  deriving DecidableEq, Repr

inductive CatalogError where
  | malformed (msg : String)
  | duplicateName (name : String)
  | unknownPlaceholder (element : String)
  deriving DecidableEq, Repr

/-! ## Elements -/

/-- `[A-Za-z_][A-Za-z0-9_]*`. -/
def isIdent : List Char → Bool
  | [] => false
  | c :: cs => (c.isAlpha || c = '_') && cs.all fun c => c.isAlphanum || c = '_'

/-- The parts before and after the first such character. -/
def splitOnce (sep : Char) : List Char → Option (List Char × List Char)
  | [] => none
  | c :: cs => if c = sep then some ([], cs) else (splitOnce sep cs).map fun (l, r) => (c :: l, r)

/-- `s.starts_with('{') && s.ends_with('}')`. -/
def braceWrapped (s : String) : Bool := s.toList.head? = some '{' && s.toList.getLast? = some '}'

/-- `&s[1..s.len() - 1]`. -/
def innerSlice (s : String) : Option (List Char) := slice s.toList 1 (byteLength s.toList - 1)

def parseArgvElement (s : String) : Except CatalogError ArgvPart :=
  if braceWrapped s then
    -- the slice does not panic, see `innerSlice_braced`
    match (innerSlice s).getD [] with
    | '?' :: rest =>
      match splitOnce ':' rest with
      | some (name, value) =>
        if isIdent name && !value.isEmpty then .ok (.flag (String.ofList name) (String.ofList value))
        else .error (.unknownPlaceholder s)
      | none => .error (.unknownPlaceholder s)
    | inner => if isIdent inner then .ok (.arg (String.ofList inner)) else .error (.unknownPlaceholder s)
  else .ok (.literal s)

/-! ## The grammar -/

/-- A letter or an underscore, then letters, digits and underscores. -/
def Identifier (name : String) : Prop :=
  ∃ c cs, name.toList = c :: cs ∧ (c.isAlpha = true ∨ c = '_') ∧ ∀ d ∈ cs, d.isAlphanum = true ∨ d = '_'

/-- Something between two braces. -/
def Braced (s : String) : Prop := ∃ inner, s = "\x7b" ++ inner ++ "\x7d"

/-- The element that a part is written as. -/
def ArgvPart.element : ArgvPart → String
  | .literal s => s
  | .arg name => "\x7b" ++ name ++ "\x7d"
  | .flag name value => "\x7b?" ++ name ++ ":" ++ value ++ "\x7d"

/-- The parts that can be written. -/
def ArgvPart.WellFormed : ArgvPart → Prop
  | .literal s => ¬ Braced s
  | .arg name => Identifier name
  | .flag name value => Identifier name ∧ value ≠ ""

/-! ## Parsing -/

theorem isIdent_iff (name : List Char) : isIdent name = true ↔ Identifier (String.ofList name) := by
  unfold Identifier
  rw [String.toList_ofList]
  cases name with
  | nil => simp [isIdent]
  | cons c cs =>
    simp only [isIdent, Bool.and_eq_true, Bool.or_eq_true, decide_eq_true_eq, List.all_eq_true, List.cons.injEq]
    constructor
    · rintro ⟨hc, hcs⟩
      exact ⟨c, cs, ⟨rfl, rfl⟩, hc, hcs⟩
    · rintro ⟨d, ds, ⟨rfl, rfl⟩, hc, hcs⟩
      exact ⟨hc, hcs⟩

/-- Identifiers have no colon and no question mark. -/
theorem Identifier.ne {name : String} (h : Identifier name) : ∀ c ∈ name.toList, c ≠ ':' ∧ c ≠ '?' := by
  obtain ⟨c, cs, hname, hc, hcs⟩ := h
  have hletter : ∀ d : Char, d.isAlphanum = true ∨ d = '_' → d ≠ ':' ∧ d ≠ '?' := by
    rintro d hd
    constructor <;> rintro rfl <;> revert hd <;> decide
  rw [hname]
  intro d hd
  rcases List.mem_cons.mp hd with rfl | hd
  · refine hletter d (hc.imp_left fun hd => ?_)
    unfold Char.isAlphanum
    rw [hd, Bool.true_or]
  · exact hletter d (hcs d hd)

theorem splitOnce_eq_some_iff {sep : Char} {cs l r : List Char} :
    splitOnce sep cs = some (l, r) ↔ cs = l ++ sep :: r ∧ sep ∉ l := by
  induction cs generalizing l with
  | nil => simp [splitOnce]
  | cons c cs ih =>
    unfold splitOnce
    by_cases hc : c = sep
    · subst hc
      rw [if_pos rfl]
      constructor
      · intro h
        obtain ⟨rfl, rfl⟩ := Prod.mk.inj (Option.some.inj h)
        exact ⟨rfl, List.not_mem_nil⟩
      · rintro ⟨heq, hnot⟩
        cases l with
        | nil => rw [(List.cons.inj heq).2]
        | cons d l => exact absurd List.mem_cons_self ((List.cons.inj heq).1 ▸ hnot)
    · rw [if_neg hc]
      cases l with
      | nil =>
        refine iff_of_false (by simp) ?_
        rintro ⟨heq, -⟩
        exact hc (List.cons.inj heq).1
      | cons d l =>
        simp only [Option.map_eq_some_iff, Prod.exists, Prod.mk.injEq, List.cons_append, List.cons.injEq, List.mem_cons]
        constructor
        · rintro ⟨l', r', h, ⟨rfl, rfl⟩, rfl⟩
          obtain ⟨heq, hnot⟩ := ih.mp h
          exact ⟨⟨rfl, heq⟩, fun hmem => hmem.elim (fun h => hc h.symm) hnot⟩
        · rintro ⟨⟨rfl, heq⟩, hnot⟩
          exact ⟨l, r, ih.mpr ⟨heq, fun hmem => hnot (Or.inr hmem)⟩, ⟨rfl, rfl⟩, rfl⟩

theorem toList_braced (inner : String) : ("\x7b" ++ inner ++ "\x7d").toList = ['{'] ++ inner.toList ++ ['}'] := by
  rw [String.toList_append, String.toList_append]
  rfl

theorem braceWrapped_iff (s : String) : braceWrapped s = true ↔ Braced s := by
  unfold braceWrapped
  rw [Bool.and_eq_true, decide_eq_true_eq, decide_eq_true_eq]
  constructor
  · rintro ⟨hhead, hlast⟩
    obtain ⟨cs, hcs⟩ := List.head?_eq_some_iff.mp hhead
    rw [hcs] at hlast
    -- one brace is not both
    have hne : cs ≠ [] := by
      rintro rfl
      cases hlast
    obtain ⟨inner, hinner⟩ : ∃ inner, cs = inner ++ ['}'] := by
      refine ⟨cs.dropLast, ?_⟩
      rw [List.getLast?_cons_of_ne_nil hne] at hlast
      exact (List.dropLast_append_getLast? _ hlast).symm
    refine ⟨String.ofList inner, String.toList_inj.mp ?_⟩
    rw [toList_braced, hcs, hinner, String.toList_ofList]
    rfl
  · rintro ⟨inner, rfl⟩
    rw [toList_braced]
    exact ⟨rfl, List.getLast?_concat⟩

/-- The slice between the braces is never out of bounds, nor inside a character. -/
theorem innerSlice_braced (inner : String) : innerSlice ("\x7b" ++ inner ++ "\x7d") = some inner.toList := by
  have hone : byteLength ['{'] = 1 := by decide
  have hend : byteLength (['{'] ++ inner.toList ++ ['}']) - 1 = byteLength ['{'] + byteLength inner.toList := by
    have hlast : byteLength ['}'] = 1 := by decide
    rw [byteLength_append, byteLength_append]
    omega
  unfold innerSlice
  rw [toList_braced, hend, ← hone]
  exact slice_middle _ _ _

/-- What stands between braces decides. -/
theorem parseArgvElement_braced (inner : String) : parseArgvElement ("\x7b" ++ inner ++ "\x7d") =
    match inner.toList with
    | '?' :: rest =>
      match splitOnce ':' rest with
      | some (name, value) =>
        if isIdent name && !value.isEmpty then .ok (.flag (String.ofList name) (String.ofList value))
        else .error (.unknownPlaceholder ("\x7b" ++ inner ++ "\x7d"))
      | none => .error (.unknownPlaceholder ("\x7b" ++ inner ++ "\x7d"))
    | inner' =>
      if isIdent inner' then .ok (.arg (String.ofList inner'))
      else .error (.unknownPlaceholder ("\x7b" ++ inner ++ "\x7d")) := by
  unfold parseArgvElement
  rw [if_pos ((braceWrapped_iff _).mpr ⟨inner, rfl⟩), innerSlice_braced]
  rfl

theorem parseArgvElement_literal {s : String} (h : ¬ Braced s) : parseArgvElement s = .ok (.literal s) := by
  unfold parseArgvElement
  rw [if_neg fun hb => h ((braceWrapped_iff s).mp hb)]

/-- A part that can be written is read back. -/
theorem parse_element {p : ArgvPart} (h : p.WellFormed) : parseArgvElement p.element = .ok p := by
  cases p with
  | literal s => exact parseArgvElement_literal h
  | arg name =>
    show parseArgvElement ("\x7b" ++ name ++ "\x7d") = _
    rw [parseArgvElement_braced]
    have hident : isIdent name.toList = true := (isIdent_iff _).mpr (by rw [String.ofList_toList]; exact h)
    split
    · rename_i rest hname
      exact absurd rfl (h.ne '?' (by rw [hname]; exact List.mem_cons_self)).2
    · rw [if_pos hident, String.ofList_toList]
  | flag name value =>
    obtain ⟨hname, hvalue⟩ := h
    have hassoc : ArgvPart.element (.flag name value) = "\x7b" ++ ("?" ++ name ++ ":" ++ value) ++ "\x7d" := by
      apply String.toList_inj.mp
      simp [ArgvPart.element]
    have hinner : ("?" ++ name ++ ":" ++ value).toList = '?' :: (name.toList ++ ':' :: value.toList) := by simp
    have hsplit : splitOnce ':' (name.toList ++ ':' :: value.toList) = some (name.toList, value.toList) :=
      splitOnce_eq_some_iff.mpr ⟨rfl, fun hmem => (hname.ne ':' hmem).1 rfl⟩
    have hident : isIdent name.toList = true := (isIdent_iff _).mpr (by rw [String.ofList_toList]; exact hname)
    have hne : value.toList.isEmpty = false := by
      rw [List.isEmpty_eq_false_iff]
      exact fun hnil => hvalue (String.toList_eq_nil_iff.mp hnil)
    rw [hassoc, parseArgvElement_braced, hinner]
    simp only [hsplit, hident, hne, Bool.not_false, Bool.and_true, if_true, String.ofList_toList]

/-- What is read can be written, and is written like that. -/
theorem of_parseArgvElement {s : String} {p : ArgvPart} (h : parseArgvElement s = .ok p) :
    p.WellFormed ∧ p.element = s := by
  by_cases hb : Braced s
  · obtain ⟨inner, rfl⟩ := hb
    rw [parseArgvElement_braced] at h
    split at h
    · rename_i rest hinner
      split at h
      · rename_i name value hsplit
        split at h
        · rename_i hif
          obtain rfl := Except.ok.inj h
          rw [Bool.and_eq_true, isIdent_iff] at hif
          obtain ⟨hrest, -⟩ := splitOnce_eq_some_iff.mp hsplit
          refine ⟨⟨hif.1, fun hempty => ?_⟩, ?_⟩
          · have hnil := String.ofList_eq_empty_iff.mp hempty
            rw [hnil] at hif
            simp at hif
          · apply String.toList_inj.mp
            rw [toList_braced, hinner, hrest]
            simp [ArgvPart.element]
        · cases h
      · cases h
    · split at h
      · rename_i hident
        obtain rfl := Except.ok.inj h
        exact ⟨(isIdent_iff _).mp hident, by rw [ArgvPart.element, String.ofList_toList]⟩
      · cases h
  · rw [parseArgvElement_literal hb] at h
    obtain rfl := Except.ok.inj h
    exact ⟨hb, rfl⟩

/-- The only error names the element, which has braces. -/
theorem error_parseArgvElement {s : String} {err : CatalogError} (h : parseArgvElement s = .error err) :
    err = .unknownPlaceholder s ∧ Braced s := by
  by_cases hb : Braced s
  · refine ⟨?_, hb⟩
    obtain ⟨inner, rfl⟩ := hb
    rw [parseArgvElement_braced] at h
    split at h
    · split at h
      · split at h
        · cases h
        · exact (Except.error.inj h).symm
      · exact (Except.error.inj h).symm
    · split at h
      · cases h
      · exact (Except.error.inj h).symm
  · rw [parseArgvElement_literal hb] at h
    cases h

/-- **The elements that are accepted are those of the grammar**, each as the part that is written like it; the others
are braced and are refused. The slice between the braces never fails. -/
theorem parseArgvElement_grammar (s : String) :
    (∀ p, parseArgvElement s = .ok p ↔ p.WellFormed ∧ p.element = s) ∧
      (∀ err, parseArgvElement s = .error err ↔
        err = .unknownPlaceholder s ∧ Braced s ∧ ∀ p : ArgvPart, p.WellFormed → p.element ≠ s) ∧
      (∀ p : ArgvPart, p.WellFormed → parseArgvElement p.element = .ok p) ∧
      (braceWrapped s = true → (innerSlice s).isSome) := by
  refine ⟨fun p => ⟨of_parseArgvElement, ?_⟩, fun err => ⟨fun h => ?_, ?_⟩, fun p => parse_element, fun hb => ?_⟩
  · rintro ⟨hp, rfl⟩
    exact parse_element hp
  · obtain ⟨herr, hb⟩ := error_parseArgvElement h
    refine ⟨herr, hb, fun p hp heq => ?_⟩
    rw [← heq, parse_element hp] at h
    cases h
  · rintro ⟨rfl, -, hnone⟩
    cases h : parseArgvElement s with
    | ok p =>
      obtain ⟨hp, heq⟩ := of_parseArgvElement h
      exact absurd heq (hnone p hp)
    | error err => rw [(error_parseArgvElement h).1]
  · obtain ⟨inner, rfl⟩ := (braceWrapped_iff s).mp hb
    rw [innerSlice_braced]
    rfl

end Fixus.ToolCatalog
