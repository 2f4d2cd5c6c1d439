import Fixus.Data.Json
import Fixus.Policy.Resolver

/-!
# Policies on the wire

The derived JSON form of an effective policy, as it is written into `task_created` and read back by the projection.
Objects are read by field name; unknown fields are ignored, missing lists are empty.

- `EffectivePolicy.ofJson_toJson`: a written policy reads back as itself.
-/

namespace Fixus

/-- Read every element of a list. -/
def decodeAll {α : Type} (f : Json → Option α) : List Json → Option (List α)
  | [] => some []
  | v :: vs => (f v).bind fun a => (decodeAll f vs).map (a :: ·)

/-- Read a list field that is empty by default. -/
def listField {α : Type} (f : Json → Option α) (v : Json) (key : String) : Option (List α) :=
  match v.get key with
  | none => some []
  | some (.arr xs) => decodeAll f xs
  | some _ => none

/-- Encoded elements read back, when each of them does. -/
theorem decodeAll_map {α : Type} {f : Json → Option α} {g : α → Json} (h : ∀ a, f (g a) = some a) (xs : List α) :
    decodeAll f (xs.map g) = some xs := by
  induction xs with
  | nil => rfl
  | cons x xs ih => simp [decodeAll, h, ih]

namespace TrustLevel

def toJson : TrustLevel → Json
  | workDir => .str "work_dir"
  | host => .str "host"
  | remote => .str "remote"

def ofJson : Json → Option TrustLevel
  | .str "work_dir" => some workDir
  | .str "host" => some host
  | .str "remote" => some remote
  | _ => none

theorem ofJson_toJson (t : TrustLevel) : ofJson t.toJson = some t := by cases t <;> rfl

end TrustLevel

namespace NetCategory

def toJson : NetCategory → Json
  | packageManager => .str "package_manager"
  | httpsApi => .str "https_api"
  | dns => .str "dns"
  | privateLan => .str "private_lan"

def ofJson : Json → Option NetCategory
  | .str "package_manager" => some packageManager
  | .str "https_api" => some httpsApi
  | .str "dns" => some dns
  | .str "private_lan" => some privateLan
  | _ => none

theorem ofJson_toJson (c : NetCategory) : ofJson c.toJson = some c := by cases c <;> rfl

end NetCategory

namespace AgentRole

def toJson : AgentRole → Json
  | reader => .str "reader"
  | operator => .str "operator"

def ofJson : Json → Option AgentRole
  | .str "reader" => some reader
  | .str "operator" => some operator
  | _ => none

theorem ofJson_toJson (r : AgentRole) : ofJson r.toJson = some r := by cases r <;> rfl

end AgentRole

namespace PathScope

def toJson (s : PathScope) : Json := .obj [("path", .str s.path), ("trust", s.trust.toJson)]

def ofJson (v : Json) : Option PathScope := do
  let path ← (← v.get "path").asStr
  let trust ← TrustLevel.ofJson (← v.get "trust")
  return { path, trust }

theorem ofJson_toJson (s : PathScope) : ofJson s.toJson = some s := by
  simp [ofJson, toJson, Json.get, Json.getField, Json.asStr, TrustLevel.ofJson_toJson]

end PathScope

/-- A port: an integer of 16 bits. -/
def portOfJson : Json → Option UInt16
  | .int n => if 0 ≤ n ∧ n < 2 ^ 16 then some (UInt16.ofNat n.toNat) else none
  | _ => none

def portToJson (p : UInt16) : Json := .int p.toNat

theorem portOfJson_portToJson (p : UInt16) : portOfJson (portToJson p) = some p := by
  have h := p.toNat_lt
  simp only [portOfJson, portToJson, Int.toNat_natCast, UInt16.ofNat_toNat]
  rw [if_pos (by omega)]

namespace EgressRule

def toJson (r : EgressRule) : Json :=
  let fields : List (String × Json) := [("host", .str r.host), ("ports", .arr (r.ports.map portToJson))]
  .obj (match r.category with
    | some c => fields ++ [("category", c.toJson)]
    | none => fields)

/-- An absent or null category is none. -/
def categoryOfJson (v : Json) : Option (Option NetCategory) :=
  match v.get "category" with
  | none | some .null => some none
  | some w => (NetCategory.ofJson w).map some

def ofJson (v : Json) : Option EgressRule := do
  let host ← (← v.get "host").asStr
  let ports ← listField portOfJson v "ports"
  let category ← categoryOfJson v
  return { host, ports, category }

theorem ofJson_toJson (r : EgressRule) : ofJson r.toJson = some r := by
  obtain ⟨host, ports, category⟩ := r
  have hports := decodeAll_map portOfJson_portToJson ports
  cases category with
  | none => simp [ofJson, toJson, Json.get, Json.getField, Json.asStr, listField, hports, categoryOfJson]
  | some c =>
    have hc : NetCategory.ofJson c.toJson = some c := NetCategory.ofJson_toJson c
    cases c <;>
      simp [ofJson, toJson, Json.get, Json.getField, Json.asStr, listField, hports, categoryOfJson,
        NetCategory.toJson, NetCategory.ofJson]

end EgressRule

namespace FsPolicy

def toJson (p : FsPolicy) : Json :=
  .obj [("read_paths", .arr (p.readPaths.map PathScope.toJson)),
    ("write_paths", .arr (p.writePaths.map PathScope.toJson))]

def ofJson : Json → Option FsPolicy
  | .obj fields => do
    let readPaths ← listField PathScope.ofJson (.obj fields) "read_paths"
    let writePaths ← listField PathScope.ofJson (.obj fields) "write_paths"
    return { readPaths, writePaths }
  | _ => none

theorem ofJson_toJson (p : FsPolicy) : ofJson p.toJson = some p := by
  simp [ofJson, toJson, Json.get, Json.getField, listField, decodeAll_map PathScope.ofJson_toJson]

end FsPolicy

namespace NetPolicy

def toJson (p : NetPolicy) : Json := .obj [("egress", .arr (p.egress.map EgressRule.toJson))]

def ofJson : Json → Option NetPolicy
  | .obj fields => do
    let egress ← listField EgressRule.ofJson (.obj fields) "egress"
    return { egress }
  | _ => none

theorem ofJson_toJson (p : NetPolicy) : ofJson p.toJson = some p := by
  simp [ofJson, toJson, Json.get, Json.getField, listField, decodeAll_map EgressRule.ofJson_toJson]

end NetPolicy

namespace EffectivePolicy

def toJson (p : EffectivePolicy) : Json :=
  .obj [("fs", p.fs.toJson), ("net", p.net.toJson), ("agent_role", p.agentRole.toJson)]

def ofJson (v : Json) : Option EffectivePolicy := do
  let fs ← FsPolicy.ofJson (← v.get "fs")
  let net ← NetPolicy.ofJson (← v.get "net")
  let agentRole ← AgentRole.ofJson (← v.get "agent_role")
  return { fs, net, agentRole }

/-- A written effective policy reads back as itself. -/
theorem ofJson_toJson (p : EffectivePolicy) : ofJson p.toJson = some p := by
  simp [ofJson, toJson, Json.get, Json.getField, FsPolicy.ofJson_toJson, NetPolicy.ofJson_toJson,
    AgentRole.ofJson_toJson]

end EffectivePolicy

end Fixus
