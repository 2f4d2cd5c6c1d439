import Fixus.ToolCatalog.Catalog
import Fixus.ToolsBank.HttpAdapters

/-!
# The registry of a tools bank

At its start a tools bank registers the sandbox, with the tools of the program and those of the operator's file, and
then the HTTP adapters of the operator's line, one after the other; what cannot be registered is skipped.

- `httpActionAdapter`, `buildRegistry`: the adapters and the loop;
- `Enrolled`: which of the configured adapters come in;
- `Owned.addAll`: the loop keeps the index, also with an adapter that has a name twice;
- `bank_registry_routes`: every tool that is listed is found, at the only adapter that has it; the tools of the sandbox
  are never taken over; a call of another tool is one request to its address; and the names in the list differ exactly
  if no adapter repeats one.
-/

namespace Fixus

open Lib ToolRegistry

variable {ω : Type}

/-! ## Adapters -/

/-- A request to an external tool. -/
structure HttpRequest where
  url : String
  body : Json
  authorization : Option String

/-- What comes back. -/
inductive HttpReply where
  | response (status : Nat) (text : Option String) (durationMs : Nat)
  | failed (timeout connect : Bool) (msg : String)

/-- What the client makes of a reply. -/
def HttpReply.toResult (serde : SerdeJson) : HttpReply → Except String ToolResult
  | .response status text durationMs =>
    let success := 200 ≤ status ∧ status < 300
    let text := text.getD ""
    .ok { success, output := (serde.fromStr text).getD (.str text)
          error := if success then none else some ("http " ++ toString status), durationMs }
  | .failed timeout connect msg =>
    let kind := if timeout then "timeout" else if connect then "connect" else "request"
    .error ("http " ++ kind ++ " failed: " ++ msg)

/-- The request of a call. -/
def HttpAdapterConfig.request (c : HttpAdapterConfig) (tool : String) (args : Json) (ctx : CallCtx) : HttpRequest where
  url := String.ofList (c.baseUrl.toList.rdropWhile fun ch => ch = '/') ++ "/" ++ tool
  body := .obj [("tool", .str tool), ("arguments", args), ("task_id", .str ctx.taskId),
    ("idempotency_key", .str ctx.idempotencyKey)]
  authorization := c.authHeader

/-- A client sends requests to a world. -/
abbrev HttpClient (ω : Type) := HttpRequest → ω → HttpReply × ω

def httpActionAdapter (serde : SerdeJson) (send : HttpClient ω) (c : HttpAdapterConfig) : ActionAdapter ω where
  name := c.name
  tools := c.tools.map fun t => ⟨t.name, t.description, .obj [("type", .str "object")]⟩
  invoke tool args ctx w :=
    let (reply, w') := send (c.request tool args ctx) w
    (reply.toResult serde, w')

/-- A tool of the catalog as clients see it. -/
def ToolCatalog.ToolSpec.toDef (s : ToolCatalog.ToolSpec) : ToolDef := ⟨s.name, s.description, s.inputSchema⟩

/-- The adapter of the sandbox. -/
def sandboxActionAdapter (extras : List ToolCatalog.ToolSpec)
    (invoke : (tool : String) → (args : Json) → (ctx : CallCtx) → Eff String ω ToolResult) : ActionAdapter ω where
  name := "sandbox"
  tools := (ToolCatalog.builtins ++ extras).map ToolCatalog.ToolSpec.toDef
  invoke := invoke

/-- The tools of the operator's file; a file that is missing or cannot be read gives none. -/
def loadExtras (fromStr : String → Except String (List ToolCatalog.ExtraToolRaw)) (file : Option String) :
    List ToolCatalog.ToolSpec :=
  let extras := match file with
    | none => []
    | some text =>
      match ToolCatalog.parseExtraCatalog isWhitespace fromStr text with
      | .ok extras => extras
      | .error _ => []
  ToolCatalog.filterCollisions extras ToolCatalog.builtins

/-- One round of the loop over the configurations: without a client there is no adapter. -/
def addHttp (serde : SerdeJson) (client : HttpAdapterConfig → Option (HttpClient ω)) (r : ToolRegistry ω)
    (c : HttpAdapterConfig) : ToolRegistry ω :=
  match client c with
  | none => r
  | some send => (register (httpActionAdapter serde send c) r).2

def buildRegistry (serde : SerdeJson) (sandbox : ActionAdapter ω) (client : HttpAdapterConfig → Option (HttpClient ω))
    (httpEnv : String) : ToolRegistry ω :=
  (parseHttpAdapters httpEnv).foldl (addHttp serde client) (register sandbox new).2

/-! ## What is built -/

variable {serde : SerdeJson} {client : HttpAdapterConfig → Option (HttpClient ω)}

/-- The adapters that a registry has come to have: those that were there, and of the configured ones those whose client
was built and that have no name that was taken. -/
inductive Enrolled (serde : SerdeJson) (client : HttpAdapterConfig → Option (HttpClient ω)) :
    List (ActionAdapter ω) → List HttpAdapterConfig → List (ActionAdapter ω) → Prop
  | done {adapters : List (ActionAdapter ω)} : Enrolled serde client adapters [] adapters
  | unbuilt {adapters all : List (ActionAdapter ω)} {c : HttpAdapterConfig} {cfgs : List HttpAdapterConfig}
      (hclient : client c = none) (hrest : Enrolled serde client adapters cfgs all) :
      Enrolled serde client adapters (c :: cfgs) all
  | taken {adapters all : List (ActionAdapter ω)} {c : HttpAdapterConfig} {cfgs : List HttpAdapterConfig}
      {send : HttpClient ω} (hclient : client c = some send)
      (htaken : ∃ name ∈ (httpActionAdapter serde send c).names, ∃ b ∈ adapters, name ∈ b.names)
      (hrest : Enrolled serde client adapters cfgs all) : Enrolled serde client adapters (c :: cfgs) all
  | enrolled {adapters all : List (ActionAdapter ω)} {c : HttpAdapterConfig} {cfgs : List HttpAdapterConfig}
      {send : HttpClient ω} (hclient : client c = some send)
      (hfree : ∀ name ∈ (httpActionAdapter serde send c).names, ∀ b ∈ adapters, name ∉ b.names)
      (hrest : Enrolled serde client (adapters ++ [httpActionAdapter serde send c]) cfgs all) :
      Enrolled serde client adapters (c :: cfgs) all

namespace Enrolled

variable {adapters all : List (ActionAdapter ω)} {cfgs : List HttpAdapterConfig}

/-- The adapters that were there stay in front. -/
theorem keeps (h : Enrolled serde client adapters cfgs all) : adapters <+: all := by
  induction h with
  | done => exact List.prefix_rfl
  | unbuilt _ _ ih => exact ih
  | taken _ _ _ ih => exact ih
  | enrolled _ _ _ ih => exact (List.prefix_append _ _).trans ih

/-- Every other one has a configuration and a client. -/
theorem mem (h : Enrolled serde client adapters cfgs all) {a : ActionAdapter ω} (ha : a ∈ all) :
    a ∈ adapters ∨ ∃ c ∈ cfgs, ∃ send, client c = some send ∧ a = httpActionAdapter serde send c := by
  induction h with
  | done => exact Or.inl ha
  | unbuilt _ _ ih | taken _ _ _ ih =>
    refine (ih ha).imp_right ?_
    rintro ⟨c, hc, hadapter⟩
    exact ⟨c, List.mem_cons_of_mem _ hc, hadapter⟩
  | @enrolled adapters all c cfgs send hclient _ _ ih =>
    rcases ih ha with hmem | ⟨c', hc', hadapter⟩
    · rcases List.mem_append.mp hmem with hmem | hmem
      · exact Or.inl hmem
      · exact Or.inr ⟨c, List.mem_cons_self, send, hclient, List.mem_singleton.mp hmem⟩
    · exact Or.inr ⟨c', List.mem_cons_of_mem _ hc', hadapter⟩

end Enrolled

/-- What holds of a registry that was built. -/
structure BankRoutes (serde : SerdeJson) (client : HttpAdapterConfig → Option (HttpClient ω))
    (sandbox : ActionAdapter ω) (cfgs : List HttpAdapterConfig) (r : ToolRegistry ω) : Prop where
  enrolled : Enrolled serde client [sandbox] cfgs r.adapters
  find_isSome : ∀ name, (r.find name).isSome ↔ name ∈ r.list.map ToolDef.name
  owner : ∀ name a, r.find name = some a → ∃ i : Nat, r.adapters[i]? = some a ∧ name ∈ a.tools.map ToolDef.name ∧
    ∀ (j : Nat) (b : ActionAdapter ω), r.adapters[j]? = some b → name ∈ b.tools.map ToolDef.name → j = i
  builtin : ∀ t ∈ sandbox.tools, r.find t.name = some sandbox
  calls : ∀ name ∈ r.list.map ToolDef.name, name ∉ sandbox.tools.map ToolDef.name →
    ∃ c ∈ cfgs, ∃ send, client c = some send ∧ name ∈ c.tools.map ToolAdapterTool.name ∧ ∀ args ctx w,
      r.invoke name args ctx w =
        (((send (c.request name args ctx) w).1.toResult serde).mapError .adapter, (send (c.request name args ctx) w).2)
  nodup : (r.list.map ToolDef.name).Nodup ↔ ∀ a ∈ r.adapters, (a.tools.map ToolDef.name).Nodup

namespace ToolRegistry

/-- The loop keeps the index, and enrols the adapters that it can. -/
theorem Owned.addAll {r : ToolRegistry ω} (h : Owned r) (serde : SerdeJson)
    (client : HttpAdapterConfig → Option (HttpClient ω)) (cfgs : List HttpAdapterConfig) :
    Owned (cfgs.foldl (addHttp serde client) r) ∧
      Enrolled serde client r.adapters cfgs (cfgs.foldl (addHttp serde client) r).adapters := by
  induction cfgs generalizing r with
  | nil => exact ⟨h, .done⟩
  | cons c cfgs ih =>
    rw [List.foldl_cons]
    cases hclient : client c with
    | none =>
      have hsame : addHttp serde client r c = r := by unfold addHttp; rw [hclient]
      rw [hsame]
      exact ⟨(ih h).1, .unbuilt hclient (ih h).2⟩
    | some send =>
      have hstep : addHttp serde client r c = (register (httpActionAdapter serde send c) r).2 := by
        unfold addHttp
        rw [hclient]
      rw [hstep]
      rcases h.register_cases (httpActionAdapter serde send c) with ⟨⟨name, hname, hmem⟩, heq⟩ | ⟨hfree, heq⟩
      · rw [heq]
        exact ⟨(ih h).1, .taken hclient ⟨name, hname, mem_names.mp hmem⟩ (ih h).2⟩
      · have hnext := ih (h.push hfree)
        rw [heq]
        refine ⟨hnext.1, .enrolled hclient (fun name hname b hb hbname => ?_) hnext.2⟩
        exact hfree name hname (mem_names.mpr ⟨b, hb, hbname⟩)

/-- A call of a tool goes to the adapter that is found. -/
theorem invoke_of_find {r : ToolRegistry ω} {name : String} {serde : SerdeJson} {send : HttpClient ω}
    {c : HttpAdapterConfig} (h : r.find name = some (httpActionAdapter serde send c)) (args : Json) (ctx : CallCtx)
    (w : ω) :
    r.invoke name args ctx w = (((send (c.request name args ctx) w).1.toResult serde).mapError .adapter,
      (send (c.request name args ctx) w).2) := by
  have hcall : (httpActionAdapter serde send c).invoke name args ctx w =
      ((send (c.request name args ctx) w).1.toResult serde, (send (c.request name args ctx) w).2) := rfl
  unfold invoke
  rw [h]
  dsimp only
  rw [hcall]
  cases (send (c.request name args ctx) w).1.toResult serde <;> rfl

/-- Names differ in the list exactly if they do in each adapter. -/
theorem Owned.nodup_iff {r : ToolRegistry ω} (h : Owned r) : r.names.Nodup ↔ ∀ a ∈ r.adapters, a.names.Nodup := by
  rw [names_eq, List.nodup_flatMap]
  refine and_iff_left ?_
  rw [List.pairwise_iff_getElem]
  intro i j hi hj hlt name hni hnj
  have hli := (h name i).mpr ⟨_, List.getElem?_eq_getElem hi, hni⟩
  have hlj := (h name j).mpr ⟨_, List.getElem?_eq_getElem hj, hnj⟩
  exact absurd (Option.some.inj (hli.symm.trans hlj)) (Nat.ne_of_lt hlt)

end ToolRegistry

theorem nodup_loadExtras (fromStr : String → Except String (List ToolCatalog.ExtraToolRaw)) (file : Option String) :
    ((ToolCatalog.builtins ++ loadExtras fromStr file).map ToolCatalog.ToolSpec.name).Nodup := by
  have hnone : ((ToolCatalog.builtins ++ ToolCatalog.filterCollisions [] ToolCatalog.builtins).map
      ToolCatalog.ToolSpec.name).Nodup := by
    rw [ToolCatalog.filterCollisions, List.filter_nil, List.append_nil]
    exact ToolCatalog.nodup_builtins
  unfold loadExtras
  dsimp only
  split
  · exact hnone
  · split
    · rename_i h
      exact ToolCatalog.nodup_catalog h
    · exact hnone

/-- **The registry of a tools bank**, whatever the operator's file and line say and whichever clients can be built. -/
theorem bank_registry_routes (serde : SerdeJson) (fromStr : String → Except String (List ToolCatalog.ExtraToolRaw))
    (file : Option String) (invoke : (tool : String) → (args : Json) → (ctx : CallCtx) → Eff String ω ToolResult)
    (client : HttpAdapterConfig → Option (HttpClient ω)) (httpEnv : String) :
    let sandbox := sandboxActionAdapter (loadExtras fromStr file) invoke
    (sandbox.tools.map ToolDef.name).Nodup ∧
      BankRoutes serde client sandbox (parseHttpAdapters httpEnv) (buildRegistry serde sandbox client httpEnv) := by
  intro sandbox
  have hnames : sandbox.tools.map ToolDef.name =
      (ToolCatalog.builtins ++ loadExtras fromStr file).map ToolCatalog.ToolSpec.name := List.map_map
  have hempty : (new : ToolRegistry ω).names = [] := rfl
  have hstart : (register sandbox new).2 = new.push sandbox := by
    rcases owned_new.register_cases sandbox with ⟨⟨name, -, hmem⟩, -⟩ | ⟨-, heq⟩
    · rw [hempty] at hmem
      cases hmem
    · exact heq
  have hpushed : Owned (new.push sandbox) := owned_new.push fun name _ => by rw [hempty]; exact List.not_mem_nil
  obtain ⟨howned, henrolled⟩ := hpushed.addAll serde client (parseHttpAdapters httpEnv)
  unfold buildRegistry
  rw [hstart]
  generalize (parseHttpAdapters httpEnv).foldl (addHttp serde client) (new.push sandbox) = r at howned henrolled
  refine ⟨hnames ▸ nodup_loadExtras fromStr file, henrolled, howned.find_isSome, fun name a hf => howned.owner hf,
    fun t ht => ?_, fun name hname hnot => ?_, howned.nodup_iff⟩
  · -- the sandbox is the first one, and the only one with the name
    obtain ⟨rest, hrest⟩ := henrolled.keeps
    have hfirst : r.adapters[0]? = some sandbox := by
      rw [← hrest]
      rfl
    have hname : t.name ∈ sandbox.names := List.mem_map_of_mem ht
    have hsome := (howned.find_isSome t.name).mpr (mem_names.mpr ⟨sandbox, List.mem_of_getElem? hfirst, hname⟩)
    obtain ⟨a, ha⟩ := Option.isSome_iff_exists.mp hsome
    obtain ⟨i, hi, -, hunique⟩ := howned.owner ha
    obtain rfl := hunique 0 sandbox hfirst hname
    rw [ha, ← hi, hfirst]
  · obtain ⟨a, ha⟩ := Option.isSome_iff_exists.mp ((howned.find_isSome name).mpr hname)
    obtain ⟨i, hi, haname, -⟩ := howned.owner ha
    rcases henrolled.mem (List.mem_of_getElem? hi) with hmem | ⟨c, hc, send, hclient, rfl⟩
    · obtain rfl := List.mem_singleton.mp hmem
      exact absurd haname hnot
    · have hmap : (httpActionAdapter serde send c).names = c.tools.map ToolAdapterTool.name := List.map_map
      exact ⟨c, hc, send, hclient, hmap ▸ haname, invoke_of_find ha⟩

end Fixus
