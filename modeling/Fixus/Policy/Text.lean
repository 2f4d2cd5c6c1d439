import Fixus.Data.SerdeJson
import Fixus.Policy.Wire

/-!
# Policies as text

An effective policy that is written by the JSON library and read back. The decoders find their fields by name, so the
order in which the library gives them back does not matter.

- `EffectivePolicy.Plain`: the policies whose text is ASCII without DEL;
- `EffectivePolicy.fromStr_toString`: a written policy reads back as itself.
-/

namespace Fixus

open Lib.JsonString

/-! ## The order of the fields -/

theorem decodeAll_sorted {α : Type} {f : Json → Option α} (h : ∀ v : Json, f v.sorted = f v) (vs : List Json) :
    decodeAll f (vs.map Json.sorted) = decodeAll f vs := by
  induction vs with
  | nil => rfl
  | cons v vs ih => rw [List.map_cons, decodeAll, decodeAll, h, ih]

theorem listField_sorted {α : Type} {f : Json → Option α} (h : ∀ v : Json, f v.sorted = f v) (v : Json)
    (key : String) : listField f v.sorted key = listField f v key := by
  unfold listField
  rw [Json.get_sorted]
  cases v.get key with
  | none => rfl
  | some w =>
    cases w with
    | arr vs => simp [Json.sorted, decodeAll_sorted h]
    | _ => rfl

theorem TrustLevel.ofJson_sorted (v : Json) : ofJson v.sorted = ofJson v := by cases v <;> rfl

theorem NetCategory.ofJson_sorted (v : Json) : ofJson v.sorted = ofJson v := by cases v <;> rfl

theorem AgentRole.ofJson_sorted (v : Json) : ofJson v.sorted = ofJson v := by cases v <;> rfl

theorem portOfJson_sorted (v : Json) : portOfJson v.sorted = portOfJson v := by cases v <;> rfl

theorem PathScope.ofJson_sorted (v : Json) : ofJson v.sorted = ofJson v := by
  simp [ofJson, TrustLevel.ofJson_sorted, Option.bind_map]

theorem EgressRule.categoryOfJson_sorted (v : Json) : categoryOfJson v.sorted = categoryOfJson v := by
  unfold categoryOfJson
  rw [Json.get_sorted]
  cases v.get "category" with
  | none => rfl
  | some w => cases w <;> rfl

theorem EgressRule.ofJson_sorted (v : Json) : ofJson v.sorted = ofJson v := by
  simp [ofJson, listField_sorted portOfJson_sorted, categoryOfJson_sorted, Option.bind_map]

theorem FsPolicy.ofJson_sorted (v : Json) : ofJson v.sorted = ofJson v := by
  cases v with
  | obj fields =>
    have hread := listField_sorted PathScope.ofJson_sorted (.obj fields)
    rw [Json.sorted] at hread ⊢
    simp [ofJson, hread]
  | _ => rfl

theorem NetPolicy.ofJson_sorted (v : Json) : ofJson v.sorted = ofJson v := by
  cases v with
  | obj fields =>
    have hread := listField_sorted EgressRule.ofJson_sorted (.obj fields)
    rw [Json.sorted] at hread ⊢
    simp [ofJson, hread]
  | _ => rfl

namespace EffectivePolicy

theorem ofJson_sorted (v : Json) : ofJson v.sorted = ofJson v := by
  simp [ofJson, FsPolicy.ofJson_sorted, NetPolicy.ofJson_sorted, AgentRole.ofJson_sorted, Option.bind_map]

/-! ## Written policies -/

/-- Every path and every host is ASCII without DEL. -/
def Plain (p : EffectivePolicy) : Prop :=
  (∀ s ∈ p.fs.readPaths ++ p.fs.writePaths, s.path.toList.all belowDel = true) ∧
    ∀ r ∈ p.net.egress, r.host.toList.all belowDel = true

instance (p : EffectivePolicy) : Decidable p.Plain := inferInstanceAs (Decidable (_ ∧ _))

end EffectivePolicy

/-! ## The texts in a policy -/

/-- An enumeration is written in a word of lower case letters. -/
theorem TrustLevel.exact_toJson (t : TrustLevel) (d : Nat) : t.toJson.Exact d := by cases t <;> exact Json.exact_str d _

theorem NetCategory.exact_toJson (c : NetCategory) (d : Nat) : c.toJson.Exact d := by
  cases c <;> exact Json.exact_str d _

theorem AgentRole.exact_toJson (r : AgentRole) (d : Nat) : r.toJson.Exact d := by cases r <;> exact Json.exact_str d _

theorem TrustLevel.allText_toJson (t : TrustLevel) : t.toJson.allText belowDel = true := by cases t <;> rfl

theorem NetCategory.allText_toJson (c : NetCategory) : c.toJson.allText belowDel = true := by cases c <;> rfl

theorem AgentRole.allText_toJson (r : AgentRole) : r.toJson.allText belowDel = true := by cases r <;> rfl

theorem PathScope.exact_toJson (s : PathScope) (d : Nat) : s.toJson.Exact (d + 1) := by
  simp [toJson, s.trust.exact_toJson]

theorem EgressRule.exact_toJson (r : EgressRule) (d : Nat) : r.toJson.Exact (d + 2) := by
  have hports : (Json.arr (r.ports.map portToJson)).Exact (d + 1) := by
    intro v hv
    obtain ⟨p, -, rfl⟩ := List.mem_map.mp hv
    have := p.toNat_lt
    exact Json.exact_int.mpr (by omega)
  obtain ⟨host, ports, category⟩ := r
  cases category with
  | none => simp [toJson, hports]
  | some c => simp [toJson, hports, c.exact_toJson]

theorem FsPolicy.exact_toJson (p : FsPolicy) (d : Nat) : p.toJson.Exact (d + 3) := by
  have hscopes : ∀ scopes : List PathScope, (Json.arr (scopes.map PathScope.toJson)).Exact (d + 2) := by
    intro scopes v hv
    obtain ⟨s, -, rfl⟩ := List.mem_map.mp hv
    exact s.exact_toJson d
  simp [toJson, hscopes]

theorem NetPolicy.exact_toJson (p : NetPolicy) (d : Nat) : p.toJson.Exact (d + 4) := by
  have hrules : (Json.arr (p.egress.map EgressRule.toJson)).Exact (d + 3) := by
    intro v hv
    obtain ⟨r, -, rfl⟩ := List.mem_map.mp hv
    exact r.exact_toJson d
  simp [toJson, hrules]

namespace EffectivePolicy

theorem exact_toJson (p : EffectivePolicy) (d : Nat) : p.toJson.Exact (d + 5) := by
  simp [toJson, p.fs.exact_toJson (d + 1), p.net.exact_toJson d, p.agentRole.exact_toJson]

end EffectivePolicy

theorem PathScope.allText_toJson (s : PathScope) : s.toJson.allText belowDel = s.path.toList.all belowDel := by
  have h₁ : "path".toList.all belowDel = true := by decide
  have h₂ : "trust".toList.all belowDel = true := by decide
  simp only [toJson, Json.allText, Json.allTextFields, s.trust.allText_toJson, h₁, h₂, Bool.true_and, Bool.and_true]

theorem EgressRule.allText_toJson (r : EgressRule) : r.toJson.allText belowDel = r.host.toList.all belowDel := by
  have h₁ : "host".toList.all belowDel = true := by decide
  have h₂ : "ports".toList.all belowDel = true := by decide
  have h₃ : "category".toList.all belowDel = true := by decide
  have hports : (r.ports.map portToJson).all (Json.allText belowDel) = true := by
    rw [List.all_eq_true]
    intro v hv
    obtain ⟨p, -, rfl⟩ := List.mem_map.mp hv
    rfl
  obtain ⟨host, ports, category⟩ := r
  cases category with
  | none =>
    simp only [toJson, Json.allText, Json.allTextFields, Json.allTextList_eq, hports, h₁, h₂, Bool.true_and,
      Bool.and_true]
  | some c =>
    simp only [toJson, List.cons_append, List.nil_append, Json.allText, Json.allTextFields, Json.allTextList_eq, hports,
      c.allText_toJson, h₁, h₂, h₃, Bool.true_and, Bool.and_true]

theorem FsPolicy.allText_toJson (p : FsPolicy) :
    p.toJson.allText belowDel = (p.readPaths ++ p.writePaths).all fun s => s.path.toList.all belowDel := by
  have h₁ : "read_paths".toList.all belowDel = true := by decide
  have h₂ : "write_paths".toList.all belowDel = true := by decide
  simp only [toJson, Json.allText, Json.allTextFields, Json.allTextList_eq, List.all_map, Function.comp_def,
    PathScope.allText_toJson, h₁, h₂, List.all_append, Bool.true_and, Bool.and_true]

theorem NetPolicy.allText_toJson (p : NetPolicy) :
    p.toJson.allText belowDel = p.egress.all fun r => r.host.toList.all belowDel := by
  have h₁ : "egress".toList.all belowDel = true := by decide
  simp only [toJson, Json.allText, Json.allTextFields, Json.allTextList_eq, List.all_map, Function.comp_def,
    EgressRule.allText_toJson, h₁, Bool.true_and, Bool.and_true]

namespace EffectivePolicy

variable (serde : SerdeJson) (p : EffectivePolicy)

theorem allText_toJson : p.toJson.allText belowDel = true ↔ p.Plain := by
  have h₁ : "fs".toList.all belowDel = true := by decide
  have h₂ : "net".toList.all belowDel = true := by decide
  have h₃ : "agent_role".toList.all belowDel = true := by decide
  simp only [toJson, Json.allText, Json.allTextFields, p.fs.allText_toJson, p.net.allText_toJson,
    p.agentRole.allText_toJson, h₁, h₂, h₃, Bool.true_and, Bool.and_true, Bool.and_eq_true, List.all_eq_true, Plain]

/-- The text of a policy is visible exactly if the policy is plain. -/
theorem visible_toString : (serde.toString p.toJson).toList.all visible = true ↔ p.Plain := by
  rw [serde.visible_toString (p.exact_toJson 122), allText_toJson]

/-- **A written policy reads back as itself**, its fields in the order of the text. -/
theorem fromStr_toString : serde.fromStr (serde.toString p.toJson) = some p.toJson.sorted ∧
    ofJson p.toJson.sorted = some p :=
  ⟨serde.fromStr_toString (p.exact_toJson 122), by rw [ofJson_sorted, ofJson_toJson]⟩

/-- This holds as well when it is written again after it was read. -/
theorem fromStr_toString_sorted :
    (serde.fromStr (serde.toString p.toJson.sorted)).bind ofJson = some p := by
  rw [serde.fromStr_toString (p.exact_toJson 122).sorted.exact, Option.bind_some, ofJson_sorted, ofJson_sorted,
    ofJson_toJson]

end EffectivePolicy

end Fixus
