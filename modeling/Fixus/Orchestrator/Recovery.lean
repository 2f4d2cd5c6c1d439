import Fixus.Service

/-!
# Recovery decisions

What the recovery of a task decides about a turn that was started and has not ended: redo it, unless a step with a
tool that is neither read-only nor idempotent is unfinished.

- `decideRecoveryFromSteps_safe`: a turn is redone exactly when all its unfinished steps may be repeated;
- `decideTurnRecovery`, `buildRedoContext`, `resolveTaskType`: the reads around the decision.
-/

namespace Fixus

open Lib Lib.Eff

/-- What may be done with an unfinished call of a tool. -/
inductive ToolRecoveryStrategy where
  | readOnly | idempotentWrite | nonIdempotentWrite
  deriving DecidableEq, Repr

/-- Unknown tools count as non-idempotent. -/
def classifyTool (toolName : String) : ToolRecoveryStrategy :=
  if toolName ∈ ["get_weather", "search", "read_file", "list_directory", "get_order_status", "query_database",
      "fetch_url", "calculate", "parse"] then .readOnly
  else if toolName ∈ ["update_config", "set_status", "upsert_record", "create_or_update", "deploy_versioned"] then
    .idempotentWrite
  else .nonIdempotentWrite

inductive RecoveryDecision where
  | safeToRedo (turnId : Int) (redoGroup : String) (redoCount : Int) (incompleteSteps : List IncompleteStep)
  | requiresHumanIntervention (turnId : Int) (redoGroup : String) (blockingSteps : List IncompleteStep)

/-- The tool of a step, as its start event names it. -/
def IncompleteStep.toolName (s : IncompleteStep) : String :=
  ((s.payload.get "tool_name").bind Json.asStr).getD "unknown"

/-- The step must not be repeated. -/
def IncompleteStep.blocks (s : IncompleteStep) : Bool := classifyTool s.toolName = .nonIdempotentWrite

/-- The decision about a turn from its unfinished steps. -/
def decideRecoveryFromSteps (turn : IncompleteTurn) (steps : List IncompleteStep) : RecoveryDecision :=
  let blocking := steps.filter IncompleteStep.blocks
  if blocking.isEmpty then
    .safeToRedo turn.turnId turn.redoGroup turn.redoCount (steps.filter fun s => !s.blocks)
  else .requiresHumanIntervention turn.turnId turn.redoGroup blocking

/-- A turn is redone, with all its steps, exactly when none of them blocks. -/
theorem decideRecoveryFromSteps_safe (turn : IncompleteTurn) (steps : List IncompleteStep) :
    decideRecoveryFromSteps turn steps = .safeToRedo turn.turnId turn.redoGroup turn.redoCount steps ↔
      ∀ s ∈ steps, s.blocks = false := by
  unfold decideRecoveryFromSteps
  constructor
  · intro h
    by_cases hb : (steps.filter IncompleteStep.blocks).isEmpty = true
    · simpa using hb
    · simp [hb] at h
  · intro h
    have hb : (steps.filter IncompleteStep.blocks).isEmpty = true := by simpa using h
    have hs : steps.filter (fun s => !s.blocks) = steps := List.filter_eq_self.mpr fun s hs => by simp [h s hs]
    simp [hb, hs]

/-- What is needed to redo a turn. -/
structure RedoContext where
  turnId : Int
  redoGroup : String
  redoCount : Int
  userInput : String

/-- The start event of a turn among its events. -/
def findTurnStarted (events : List AgentEvent) : Option AgentEvent := events.find? fun e => e.eventType = .turnStarted

/-- A text field of the start event. -/
def startedText (e : AgentEvent) (field default : String) : String :=
  ((e.payload.get field).bind Json.asStr).getD default

/-- The redo of a turn: same redo group, next redo count. -/
def buildRedoContextFromEvents (turn : IncompleteTurn) (events : List AgentEvent) : Option RedoContext :=
  (findTurnStarted events).map fun e =>
    { turnId := turn.turnId
      redoGroup := turn.redoGroup
      redoCount := wrapI32 (turn.redoCount + 1)
      userInput := startedText e "user_input" "" }

/-- The texts that the LLM has already produced in a turn; none if its events cannot be read. -/
def getCachedLlmResponses : Except AppError (List AgentEvent) → List String
  | .ok events =>
    (events.filter fun e => e.eventType = .llmCompleted).filterMap fun e => (e.payload.get "content").bind Json.asStr
  | .error _ => []

section Reads

variable {σ : Type} (store : EventStore σ)

/-- Read what the decision about a turn needs. -/
def decideTurnRecovery (taskId : String) (turn : IncompleteTurn) (stepOrder : List String) :
    StoreM σ RecoveryDecision := do
  let _ ← store.getTurnEvents taskId turn.turnId
  let all ← store.getIncompleteSteps taskId stepOrder
  pure (decideRecoveryFromSteps turn (all.filter fun s => s.turnId = turn.turnId))

def buildRedoContext (taskId : String) (turn : IncompleteTurn) : StoreM σ (Option RedoContext) := do
  let events ← store.getTurnEvents taskId turn.turnId
  pure (buildRedoContextFromEvents turn events)

/-- The type of a task; an empty one is read again from the stream, up to so many times. -/
def resolveTaskTypeIn (taskId : String) : Nat → StoreM σ String
  | 0 => fail (.internal ("task_type unresolved for " ++ taskId ++
      " after 10 retries (projection never saw task_created?)"))
  | n + 1 => do
    match ← store.getTask taskId with
    | none => fail (.taskNotFound taskId)
    | some task =>
      if task.taskType.isEmpty then do
        store.invalidateProjection taskId
        resolveTaskTypeIn taskId n
      else pure task.taskType

def resolveTaskType (taskId : String) : StoreM σ String := resolveTaskTypeIn store taskId 10

end Reads

end Fixus
