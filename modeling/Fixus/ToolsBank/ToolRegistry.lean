import Fixus.Lib.Table
import Fixus.ToolsBank.PendingCalls

/-!
# The tool registry

Each adapter has its own tools. The registry keeps the adapters in the order in which they came and an index from the
names of their tools to their positions; an adapter with a name that is taken is turned away as a whole.

- `ToolRegistry.register`, `list`, `find`: the operations;
- `Owned`: the index has a name at a position exactly if the adapter there has such a tool;
- `Indexed`: and no name comes twice;
- `Indexed.register_error_iff`, `Indexed.invoke_notFound_iff`: which adapters and which calls are turned away;
- `register_routes`: after each call the names in the list differ, and a name is found exactly if it is in the list, at
  the only adapter that has it.
-/

namespace Fixus

open Lib

/-- A tool as clients see it. -/
structure ToolDef where
  name : String
  description : String
  inputSchema : Json

/-- A source of tools; to invoke one acts on a world. -/
structure ActionAdapter (ω : Type) where
  name : String
  tools : List ToolDef
  invoke : (tool : String) → (args : Json) → (ctx : CallCtx) → Eff String ω ToolResult

/-- A tool whose name is taken, and the adapter that has it. -/
structure DupTool where
  tool : String
  existingAdapter : String
  deriving DecidableEq, Repr

inductive InvokeError where
  | notFound
  | adapter (msg : String)
  deriving DecidableEq, Repr

variable {ω : Type}

/-- The names of an adapter's tools. -/
def ActionAdapter.names (a : ActionAdapter ω) : List String := a.tools.map ToolDef.name

/-- Adapters and an index of their tools, which points at adapters that are there. -/
structure ToolRegistry (ω : Type) where
  adapters : List (ActionAdapter ω) := []
  index : Finmap fun _ : String => Nat := ∅
  inBounds : ∀ name i, index.lookup name = some i → i < adapters.length := by simp

namespace ToolRegistry

def new : ToolRegistry ω := {}

/-- All tools, adapter by adapter. -/
def list (r : ToolRegistry ω) : List ToolDef := r.adapters.flatMap ActionAdapter.tools

/-- The adapter of a tool, by the index. -/
def find (r : ToolRegistry ω) (tool : String) : Option (ActionAdapter ω) :=
  match h : r.index.lookup tool with
  | none => none
  | some i => some (r.adapters.get ⟨i, r.inBounds tool i h⟩)

/-- The first of some tools whose name is taken. -/
def collision (r : ToolRegistry ω) (newTools : List ToolDef) : Option DupTool :=
  newTools.findSome? fun t => (r.find t.name).map fun existing => ⟨t.name, existing.name⟩

/-- Index the tools of an adapter and add it at the end. -/
def push (r : ToolRegistry ω) (adapter : ActionAdapter ω) : ToolRegistry ω where
  adapters := r.adapters ++ [adapter]
  index := adapter.tools.foldl (fun index t => index.insert t.name r.adapters.length) r.index
  inBounds := by
    intro name i hi
    rw [lookup_foldl_insert] at hi
    rw [List.length_append, List.length_singleton]
    split at hi
    · obtain rfl := Option.some.inj hi
      omega
    · have hlt := r.inBounds name i hi
      omega

/-- All names are tested before the first one is entered. -/
def register (adapter : ActionAdapter ω) : Eff DupTool (ToolRegistry ω) Unit := fun r =>
  match r.collision adapter.tools with
  | some dup => (.error dup, r)
  | none => (.ok (), r.push adapter)

/-- Run a tool at its adapter. -/
def invoke (r : ToolRegistry ω) (tool : String) (args : Json) (ctx : CallCtx) : Eff InvokeError ω ToolResult := fun w =>
  match r.find tool with
  | none => (.error .notFound, w)
  | some a =>
    match a.invoke tool args ctx w with
    | (.ok result, w') => (.ok result, w')
    | (.error msg, w') => (.error (.adapter msg), w')

/-! ## The index -/

/-- The names in the list. -/
def names (r : ToolRegistry ω) : List String := r.list.map ToolDef.name

theorem names_eq (r : ToolRegistry ω) : r.names = r.adapters.flatMap ActionAdapter.names := List.map_flatMap

theorem mem_names {r : ToolRegistry ω} {name : String} : name ∈ r.names ↔ ∃ a ∈ r.adapters, name ∈ a.names := by
  rw [names_eq, List.mem_flatMap]

theorem find_eq (r : ToolRegistry ω) (tool : String) : r.find tool = (r.index.lookup tool).bind (r.adapters[·]?) := by
  unfold find
  split
  · rename_i h
    exact (congrArg (Option.bind · (r.adapters[·]?)) h).symm
  · rename_i i h
    have hget : r.adapters[i]? = some (r.adapters.get ⟨i, r.inBounds tool i h⟩) := List.getElem?_eq_getElem _
    exact hget.symm.trans (congrArg (Option.bind · (r.adapters[·]?)) h).symm

/-- The index has a name at a position exactly if the adapter there has such a tool. -/
def Owned (r : ToolRegistry ω) : Prop :=
  ∀ name (i : Nat), r.index.lookup name = some i ↔ ∃ a, r.adapters[i]? = some a ∧ name ∈ a.names

theorem owned_new : Owned (new : ToolRegistry ω) := fun name i => by simp [new]

/-- A name is found exactly if it is listed. -/
theorem Owned.find_isSome {r : ToolRegistry ω} (h : Owned r) (name : String) :
    (r.find name).isSome ↔ name ∈ r.names := by
  rw [find_eq, mem_names]
  constructor
  · intro hsome
    obtain ⟨a, ha⟩ := Option.isSome_iff_exists.mp hsome
    obtain ⟨i, hi, hget⟩ := Option.bind_eq_some_iff.mp ha
    obtain ⟨a', ha', hname⟩ := (h name i).mp hi
    exact ⟨a', List.mem_of_getElem? ha', hname⟩
  · rintro ⟨a, ha, hname⟩
    obtain ⟨i, hi⟩ := List.getElem?_of_mem ha
    rw [(h name i).mpr ⟨a, hi, hname⟩, Option.bind_some, hi]
    rfl

/-- The only adapter that has the name. -/
theorem Owned.owner {r : ToolRegistry ω} (h : Owned r) {name : String} {a : ActionAdapter ω}
    (hf : r.find name = some a) : ∃ i : Nat, r.adapters[i]? = some a ∧ name ∈ a.names ∧
      ∀ (j : Nat) (b : ActionAdapter ω), r.adapters[j]? = some b → name ∈ b.names → j = i := by
  rw [find_eq] at hf
  obtain ⟨i, hi, hget⟩ := Option.bind_eq_some_iff.mp hf
  obtain ⟨b, hb, hname⟩ := (h name i).mp hi
  obtain rfl := Option.some.inj (hget.symm.trans hb)
  refine ⟨i, hget, hname, fun j b hb hbname => ?_⟩
  have hj := (h name j).mpr ⟨b, hb, hbname⟩
  exact Option.some.inj (hj.symm.trans hi)

/-- The index has a name at a position exactly if the adapter there has such a tool, and no name comes twice. -/
structure Indexed (r : ToolRegistry ω) : Prop where
  lookup_iff : ∀ name i, r.index.lookup name = some i ↔ ∃ a, r.adapters[i]? = some a ∧ name ∈ a.names
  nodup : r.names.Nodup

theorem Indexed.owned {r : ToolRegistry ω} (h : Indexed r) : Owned r := h.lookup_iff

/-- Names that are not found are not in the list. -/
theorem Indexed.find_eq_none {r : ToolRegistry ω} (h : Indexed r) {name : String} :
    r.find name = none ↔ name ∉ r.names := by
  rw [← h.owned.find_isSome name, Option.not_isSome_iff_eq_none]

/-- A call goes to no adapter exactly if the tool is not in the list. -/
theorem Indexed.invoke_notFound_iff {r : ToolRegistry ω} (h : Indexed r) (tool : String) (args : Json) (ctx : CallCtx)
    (w : ω) : (r.invoke tool args ctx w).1 = .error .notFound ↔ tool ∉ r.names := by
  rw [← h.find_eq_none]
  unfold invoke
  cases r.find tool with
  | none => exact iff_of_true rfl rfl
  | some a =>
    refine iff_of_false (fun hnot => ?_) nofun
    simp only at hnot
    -- an answer of the adapter, or its error
    split at hnot <;> cases hnot

theorem indexed_new : Indexed (new : ToolRegistry ω) where
  lookup_iff := owned_new
  nodup := List.nodup_nil

/-! ## One call -/

theorem collision_eq_none {r : ToolRegistry ω} {newTools : List ToolDef} :
    r.collision newTools = none ↔ ∀ t ∈ newTools, r.find t.name = none := by
  unfold collision
  rw [List.findSome?_eq_none_iff]
  exact forall₂_congr fun t _ => Option.map_eq_none_iff

theorem lookup_push (r : ToolRegistry ω) (a : ActionAdapter ω) (name : String) :
    (r.push a).index.lookup name = if name ∈ a.names then some r.adapters.length else r.index.lookup name :=
  lookup_foldl_insert ToolDef.name _ _ _ name

theorem names_push (r : ToolRegistry ω) (a : ActionAdapter ω) : (r.push a).names = r.names ++ a.names := by
  rw [names_eq, names_eq]
  show (r.adapters ++ [a]).flatMap _ = _
  rw [List.flatMap_append, List.flatMap_singleton]

/-- A new adapter without a taken name. -/
theorem Owned.push {r : ToolRegistry ω} (h : Owned r) {a : ActionAdapter ω} (hfree : ∀ name ∈ a.names, name ∉ r.names) :
    Owned (r.push a) := by
  intro name i
  rw [lookup_push]
  show _ ↔ ∃ b, (r.adapters ++ [a])[i]? = some b ∧ name ∈ b.names
  rcases Nat.lt_trichotomy i r.adapters.length with hlt | rfl | hgt
  · rw [List.getElem?_append_left hlt, ← h name i]
    by_cases hname : name ∈ a.names
    · -- the name is new, the position is not
      have hnone : r.index.lookup name ≠ some i := by
        intro hi
        obtain ⟨b, hb, hbname⟩ := (h name i).mp hi
        exact hfree name hname (mem_names.mpr ⟨b, List.mem_of_getElem? hb, hbname⟩)
      rw [if_pos hname]
      exact iff_of_false (fun hi => absurd (Option.some.inj hi) (by omega)) hnone
    · rw [if_neg hname]
  · rw [List.getElem?_concat_length]
    by_cases hname : name ∈ a.names
    · rw [if_pos hname]
      exact iff_of_true rfl ⟨a, rfl, hname⟩
    · rw [if_neg hname]
      refine iff_of_false (fun hi => absurd (r.inBounds name _ hi) (by omega)) ?_
      rintro ⟨b, hb, hbname⟩
      obtain rfl := Option.some.inj hb
      exact hname hbname
  · have hnone : (r.adapters ++ [a])[i]? = none :=
      List.getElem?_eq_none (by rw [List.length_append, List.length_singleton]; omega)
    rw [hnone]
    refine iff_of_false (fun hi => ?_) (by simp)
    split at hi
    · exact absurd (Option.some.inj hi) (by omega)
    · exact absurd (r.inBounds name i hi) (by omega)

/-- Whether an adapter is registered, and what is there afterwards. -/
theorem Owned.register_cases {r : ToolRegistry ω} (h : Owned r) (a : ActionAdapter ω) :
    ((∃ name ∈ a.names, name ∈ r.names) ∧ (register a r).2 = r) ∨
      ((∀ name ∈ a.names, name ∉ r.names) ∧ (register a r).2 = r.push a) := by
  unfold register
  cases hc : r.collision a.tools with
  | some dup =>
    obtain ⟨t, ht, hdup⟩ := List.exists_of_findSome?_eq_some hc
    obtain ⟨b, hb, -⟩ := Option.map_eq_some_iff.mp hdup
    exact Or.inl ⟨⟨t.name, List.mem_map_of_mem ht, (h.find_isSome t.name).mp (by rw [hb]; rfl)⟩, rfl⟩
  | none =>
    refine Or.inr ⟨List.forall_mem_map.mpr fun t ht hmem => ?_, rfl⟩
    have hnone := collision_eq_none.mp hc t ht
    have hsome := (h.find_isSome t.name).mpr hmem
    rw [hnone] at hsome
    cases hsome

/-- **One call keeps the index.** -/
theorem Indexed.register {r : ToolRegistry ω} (h : Indexed r) {a : ActionAdapter ω} (hnodup : a.names.Nodup) :
    Indexed (register a r).2 := by
  rcases h.owned.register_cases a with ⟨-, heq⟩ | ⟨hfree, heq⟩
  · rwa [heq]
  · rw [heq]
    refine ⟨h.owned.push hfree, ?_⟩
    rw [names_push]
    exact h.nodup.append hnodup fun name hr ha => hfree name ha hr

/-- An adapter is turned away exactly if one of its names is in the list. -/
theorem Indexed.register_error_iff {r : ToolRegistry ω} (h : Indexed r) (a : ActionAdapter ω) :
    (∃ dup, (ToolRegistry.register a r).1 = .error dup) ↔ ∃ name ∈ a.names, name ∈ r.names := by
  unfold ToolRegistry.register
  cases hc : r.collision a.tools with
  | some dup =>
    refine iff_of_true ⟨dup, rfl⟩ ?_
    obtain ⟨t, ht, hdup⟩ := List.exists_of_findSome?_eq_some hc
    obtain ⟨b, hb, -⟩ := Option.map_eq_some_iff.mp hdup
    exact ⟨t.name, List.mem_map_of_mem ht, (h.owned.find_isSome t.name).mp (hb ▸ rfl)⟩
  | none =>
    refine iff_of_false (fun ⟨dup, hdup⟩ => by cases hdup) ?_
    rintro ⟨name, hname, hmem⟩
    obtain ⟨t, ht, rfl⟩ := List.mem_map.mp hname
    exact h.find_eq_none.mp (collision_eq_none.mp hc t ht) hmem

/-- The error names a tool of the adapter and the adapter that has it already. -/
theorem register_error {r : ToolRegistry ω} {a : ActionAdapter ω} {dup : DupTool}
    (herr : (register a r).1 = .error dup) :
    dup.tool ∈ a.names ∧ (r.find dup.tool).map ActionAdapter.name = some dup.existingAdapter := by
  unfold register at herr
  cases hc : r.collision a.tools with
  | none => rw [hc] at herr; cases herr
  | some dup' =>
    rw [hc] at herr
    obtain rfl := Except.error.inj herr
    obtain ⟨t, ht, hdup⟩ := List.exists_of_findSome?_eq_some hc
    obtain ⟨b, hb, rfl⟩ := Option.map_eq_some_iff.mp hdup
    exact ⟨List.mem_map_of_mem ht, by rw [hb]; rfl⟩

/-! ## Any number of calls -/

/-- The names in the list differ; a name is found exactly if it is in the list, and at the one adapter that has it. -/
structure Routes (r : ToolRegistry ω) : Prop where
  nodup : (r.list.map ToolDef.name).Nodup
  find_isSome : ∀ name, (r.find name).isSome ↔ name ∈ r.list.map ToolDef.name
  owner : ∀ name a, r.find name = some a → ∃ i : Nat, r.adapters[i]? = some a ∧
    name ∈ a.tools.map ToolDef.name ∧
      ∀ (j : Nat) (b : ActionAdapter ω), r.adapters[j]? = some b → name ∈ b.tools.map ToolDef.name → j = i

theorem Indexed.routes {r : ToolRegistry ω} (h : Indexed r) : Routes r where
  nodup := h.nodup
  find_isSome := h.owned.find_isSome
  owner _ _ ha := h.owned.owner ha

/-- **The registry after each call**, accepted or rejected. A rejected call changes nothing. -/
theorem register_routes {calls : List (ActionAdapter ω)} (h : ∀ a ∈ calls, (a.tools.map ToolDef.name).Nodup) :
    Along (fun r a => (register a r).2)
      (fun r a r' => Routes r' ∧ ∀ dup, (register a r).1 = .error dup → r' = r) new calls := by
  have hm : Meets (fun r a => (register a r).2) (fun _ a => a.names.Nodup) new calls :=
    meets_iff.mpr fun pre a post heq => h a (by rw [heq]; simp)
  refine along_of_invariant Indexed (fun r a hr ha => hr.register ha) (fun r a hr ha => ?_) indexed_new hm
  refine ⟨(hr.register ha).routes, fun dup herr => ?_⟩
  unfold register at herr ⊢
  cases hc : r.collision a.tools with
  | some dup' => rfl
  | none => rw [hc] at herr; cases herr

/-- An adapter that only answers. -/
def stub (name : String) (tools : List String) : ActionAdapter Unit where
  name := name
  tools := tools.map fun t => ⟨t, "stub " ++ t, .obj []⟩
  invoke _ _ _ := Eff.ret ⟨true, .null, none, 0⟩

/-- The second adapter is turned away, the third one is not. -/
theorem register_routes_three_stubs :
    Along (fun r a => (register a r).2)
      (fun r a r' => Routes r' ∧ ∀ dup, (register a r).1 = .error dup → r' = r) new
      [stub "a" ["dup", "x"], stub "b" ["y", "dup"], stub "c" ["y"]] :=
  register_routes (by decide)

end ToolRegistry

end Fixus
