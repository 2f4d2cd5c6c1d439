import Fixus.Fixlet.Router
import Fixus.Policy.Text

/-!
# The policy on its way to the sandbox

The fixlet writes the policy of a turn into a header of the session, the agent sends the header with each tool call, and
the tools bank reads it and writes it into the metadata of the call. A header that is not visible ASCII has no text.

- `forwardedHeaders`, `callContext`, `buildInvokeMeta`: the way of the header;
- `attachedPolicy_request`: a policy arrives exactly if it is plain, and nothing arrives in its place otherwise.
-/

namespace Fixus

open Lib.JsonString

/-! ## Headers -/

/-- `HeaderValue::to_str`: only visible ASCII is a text. -/
def headerToStr (value : String) : Option String := if value.toList.all visible then some value else none

/-- The text of a header that is there and has one. -/
def headerStr (headers : List (String × String)) (name : String) : Option String :=
  (headers.lookup name).bind headerToStr

def headerOfJson (h : Json) : Option (String × String) := do
  let name ← (← h.get "name").asStr
  let value ← (← h.get "value").asStr
  return (name, value)

/-- The headers that the agent is told to send to the tools in a session: those in the request for the session. That its
client sends them as they are is assumed. -/
def forwardedHeaders (request : Json) : List (String × String) :=
  match (request.get "params").bind fun params => params.get "mcpServers" with
  | some (.arr (server :: _)) =>
    match server.get "headers" with
    | some (.arr headers) => headers.filterMap headerOfJson
    | _ => []
  | _ => []

/-! ## Tool calls -/

/-- What an adapter knows of a call. -/
structure CallCtx where
  taskId : String
  idempotencyKey : String
  effectivePolicy : Option Json
  stepId : String
  turnId : Option Int

/-- The context of a `tools/call`. The key is computed from the arguments, the step is new. -/
def callContext (serde : SerdeJson) (headers : List (String × String)) (idempotencyKey stepId : String) : CallCtx where
  taskId := (headerStr headers "X-Fixus-Session-Id").getD "unknown"
  idempotencyKey := idempotencyKey
  -- a header without a text, or with one that is not JSON, is like no header
  effectivePolicy := (headerStr headers "X-Fixus-Policy").bind serde.fromStr
  stepId := stepId
  turnId := (headerStr headers "X-Fixus-Turn-Id").bind parseI64

def buildInvokeMeta (serde : SerdeJson) (taskId stepId : String) (effectivePolicy : Option Json) :
    List (String × String) :=
  [("task_id", taskId), ("step_id", stepId), ("event_type", "tool_invoked")] ++
    (effectivePolicy.map fun p => ("effective_policy", serde.toString p)).toList

/-- The metadata of a tool call in the session of a request. -/
def invokeMeta (serde : SerdeJson) (request : Json) (idempotencyKey stepId : String) : List (String × String) :=
  let ctx := callContext serde (forwardedHeaders request) idempotencyKey stepId
  buildInvokeMeta serde ctx.taskId ctx.stepId ctx.effectivePolicy

/-- The policy in the metadata, as the sandbox reads it. -/
def attachedPolicy (serde : SerdeJson) (metadata : List (String × String)) : Option EffectivePolicy :=
  ((metadata.lookup "effective_policy").bind serde.fromStr).bind EffectivePolicy.ofJson

/-! ## From the fixlet to the metadata -/

/-- The headers are those that the fixlet made, whatever the backend adds to the request. -/
theorem forwardedHeaders_request (name modelPath taskId cwd toolsBankUrl : String) (id turnId : Int)
    (policy : Option String) :
    forwardedHeaders (buildSessionNewRequest id
        (buildSessionNewParams (selectBackend name modelPath) taskId cwd toolsBankUrl turnId policy)) =
      [("X-Fixus-Session-Id", taskId), ("X-Fixus-Turn-Id", toString turnId)] ++
        (policy.map fun p => ("X-Fixus-Policy", p)).toList := by
  unfold selectBackend
  split <;> cases policy <;> rfl

/-- The policy in the metadata is the one in the text of the header. -/
theorem lookup_buildInvokeMeta (serde : SerdeJson) (taskId stepId : String) (effectivePolicy : Option Json) :
    (buildInvokeMeta serde taskId stepId effectivePolicy).lookup "effective_policy" =
      effectivePolicy.map serde.toString := by
  cases effectivePolicy <;> rfl

section Session

variable (serde : SerdeJson) (name modelPath cwd toolsBankUrl taskId : String) (id turnId : Int)

/-- The request for a session of a turn with the policy. -/
abbrev sessionRequest (p : EffectivePolicy) : Json :=
  buildSessionNewRequest id (buildSessionNewParams (selectBackend name modelPath) taskId cwd toolsBankUrl turnId
    (some (serde.toString p.toJson)))

theorem effectivePolicy_callContext (p : EffectivePolicy) (idempotencyKey stepId : String) :
    (callContext serde (forwardedHeaders (sessionRequest serde name modelPath cwd toolsBankUrl taskId id turnId p))
      idempotencyKey stepId).effectivePolicy = if p.Plain then some p.toJson.sorted else none := by
  have hlookup : List.lookup "X-Fixus-Policy" [("X-Fixus-Session-Id", taskId), ("X-Fixus-Turn-Id", toString turnId),
      ("X-Fixus-Policy", serde.toString p.toJson)] = some (serde.toString p.toJson) := rfl
  unfold callContext headerStr headerToStr
  rw [forwardedHeaders_request]
  simp only [Option.map_some, Option.toList_some, List.cons_append, List.nil_append, hlookup, Option.bind_some,
    p.visible_toString serde]
  split
  · exact (p.fromStr_toString serde).1
  · rfl

/-- **The policy arrives exactly if it is plain**, and nothing arrives in its place otherwise. -/
theorem attachedPolicy_request (p : EffectivePolicy) (idempotencyKey stepId : String) :
    let metadata := invokeMeta serde (sessionRequest serde name modelPath cwd toolsBankUrl taskId id turnId p)
      idempotencyKey stepId
    (p.Plain → attachedPolicy serde metadata = some p) ∧
      (¬p.Plain → metadata.lookup "effective_policy" = none ∧ attachedPolicy serde metadata = none) := by
  intro metadata
  have hlookup : metadata.lookup "effective_policy" =
      (if p.Plain then some p.toJson.sorted else none).map serde.toString := by
    rw [← effectivePolicy_callContext serde name modelPath cwd toolsBankUrl taskId id turnId p idempotencyKey stepId]
    exact lookup_buildInvokeMeta _ _ _ _
  unfold attachedPolicy
  rw [hlookup]
  refine ⟨fun hp => ?_, fun hp => ?_⟩
  · rw [if_pos hp]
    exact p.fromStr_toString_sorted serde
  · rw [if_neg hp]
    exact ⟨rfl, rfl⟩

end Session

/-! ## From the message of the orchestrator -/

/-- The configuration of a fixlet. -/
abbrev fixletConfig (serde : SerdeJson) (backendName modelPath : String) (agentCwd : Option String)
    (toolsBankUrl : String) : FixletConfig :=
  { backend := selectBackend backendName modelPath, agentCwd, toolsBankUrl, render := serde.toString }

/-- The last thing that a fixlet sends when a turn begins is the request for a session with its policy. -/
theorem sent_executeTurn (serde : SerdeJson) (backendName modelPath : String) (agentCwd : Option String)
    (toolsBankUrl : String) (s : Fixlet) {taskId : String} {turnId : Int} (userInput : String) (ctx : LlmContext)
    (redoGroup : String) {redoCount : Int} (p : EffectivePolicy) (htask : taskId ≠ "") (hne : turnId ≠ 0)
    (hturn : InI64 turnId) (hcount : InI32 redoCount) :
    (s.executeTurn (fixletConfig serde backendName modelPath agentCwd toolsBankUrl)
        (buildTurnBeginPayload taskId turnId userInput ctx redoGroup redoCount (some p)) true).sent.getLast? =
      some (sessionRequest serde backendName modelPath (agentCwd.getD "/tmp") toolsBankUrl taskId 1 turnId p) := by
  unfold Fixlet.executeTurn
  rw [parse_ok htask hne hturn hcount]
  by_cases hagent : s.agent = true <;> simp [hagent, Fixlet.openSession, policyJson]

/-- For every fixlet and every turn that the orchestrator begins with a policy: a tool call in the session of the turn
carries this policy exactly if all its paths and hosts are ASCII without DEL, and carries none otherwise. -/
theorem tool_call_carries_policy_iff (serde : SerdeJson) (backendName modelPath : String) (agentCwd : Option String)
    (toolsBankUrl : String) (s : Fixlet) (taskId : String) (turnId : Int) (userInput : String) (ctx : LlmContext)
    (redoGroup : String) (redoCount : Int) (p : EffectivePolicy) (idempotencyKey stepId : String)
    (htask : taskId ≠ "") (hne : turnId ≠ 0) (hturn : InI64 turnId) (hcount : InI32 redoCount) :
    let s' := s.executeTurn (fixletConfig serde backendName modelPath agentCwd toolsBankUrl)
      (buildTurnBeginPayload taskId turnId userInput ctx redoGroup redoCount (some p)) true
    ∃ request, s'.sent.getLast? = some request ∧
      let metadata := invokeMeta serde request idempotencyKey stepId
      (attachedPolicy serde metadata = some p ↔ p.Plain) ∧
        (¬p.Plain → metadata.lookup "effective_policy" = none) := by
  intro s'
  refine ⟨_, sent_executeTurn serde backendName modelPath agentCwd toolsBankUrl s userInput ctx redoGroup p htask hne
    hturn hcount, ?_⟩
  intro metadata
  obtain ⟨hplain, hlost⟩ := attachedPolicy_request serde backendName modelPath
    (agentCwd.getD "/tmp") toolsBankUrl taskId 1
    turnId p idempotencyKey stepId
  refine ⟨⟨fun h => ?_, hplain⟩, fun hp => (hlost hp).1⟩
  by_contra hp
  have hnone := (hlost hp).2
  exact Option.some_ne_none p (h.symm.trans hnone)

/-- A policy with a plain path. -/
def plainPolicy : EffectivePolicy :=
  { fs := { readPaths := [{ path := "/home/rene", trust := .workDir }] }, net := {}, agentRole := .reader }

/-- The same with an accent in the path. -/
def accentPolicy : EffectivePolicy :=
  { fs := { readPaths := [{ path := "/home/ren\u00e9", trust := .workDir }] }, net := {}, agentRole := .reader }

theorem tool_call_carries_plain_policy :
    let s' := ({} : Fixlet).executeTurn (fixletConfig .compact "claude-code" "" none "http://127.0.0.1:3001/mcp")
      (buildTurnBeginPayload "task_1" 1 "go" { summary := "", messages := [] } "rg_1" 0 (some plainPolicy)) true
    ∃ request, s'.sent.getLast? = some request ∧
      attachedPolicy .compact (invokeMeta .compact request "key" "step") = some plainPolicy := by
  obtain ⟨request, hrequest, h, -⟩ := tool_call_carries_policy_iff .compact "claude-code" "" none
    "http://127.0.0.1:3001/mcp" {} "task_1" 1 "go" { summary := "", messages := [] } "rg_1" 0 plainPolicy "key" "step"
    (by decide) (by decide) (by decide) (by decide)
  exact ⟨request, hrequest, h.mpr (by decide)⟩

/-- The policy with the accent is lost on the way. -/
theorem tool_call_loses_accent_policy :
    let s' := ({} : Fixlet).executeTurn (fixletConfig .compact "claude-code" "" none "http://127.0.0.1:3001/mcp")
      (buildTurnBeginPayload "task_1" 1 "go" { summary := "", messages := [] } "rg_1" 0 (some accentPolicy)) true
    ∃ request, s'.sent.getLast? = some request ∧
      (invokeMeta .compact request "key" "step").lookup "effective_policy" = none ∧
      attachedPolicy .compact (invokeMeta .compact request "key" "step") ≠ some accentPolicy := by
  intro s'
  have hlost := (attachedPolicy_request .compact "claude-code" "" "/tmp" "http://127.0.0.1:3001/mcp" "task_1" 1 1
    accentPolicy "key" "step").2 (by decide)
  refine ⟨_, sent_executeTurn .compact "claude-code" "" none "http://127.0.0.1:3001/mcp" {} "go" _ "rg_1" accentPolicy
    (by decide) (by decide) (by decide) (by decide), hlost.1, ?_⟩
  intro h
  exact Option.some_ne_none _ (h.symm.trans hlost.2)

end Fixus
