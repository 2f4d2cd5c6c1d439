import Fixus.Store.Interface

/-!
# The service layer

The operations on tasks, turns and steps, over any event store. Each of them but `createTask` and `eventsBatch`
reads the store and then fails or writes one event.

- `Op`, `Op.run`: all operations as data, with the task they are about (`Op.taskId`);
- `Op.event`: the event that an operation writes;
- `Op.writesFrom`, `Op.writesAtMostOnce`: the shape shared by the operations on one task.
-/

namespace Fixus

open Lib Lib.Eff

/-! ## Payload types -/

/-- A message of an LLM conversation. -/
structure Message where
  role : String
  content : String

def Message.toJson (m : Message) : Json := .obj [("role", .str m.role), ("content", .str m.content)]

/-- `from_value::<Message>`. -/
def Message.ofJson (v : Json) : Option Message := do
  let role ← (← v.get "role").asStr
  let content ← (← v.get "content").asStr
  return { role, content }

theorem Message.ofJson_toJson (m : Message) : ofJson m.toJson = some m := rfl

/-- `from_value::<Vec<Message>>`. -/
def messagesOfJson : Json → Option (List Message)
  | .arr xs => decodeAll Message.ofJson xs
  | _ => none

/-- A tool call requested by an LLM. -/
structure ToolCall where
  id : String
  callType : String
  functionName : String
  functionArguments : String

def ToolCall.toJson (c : ToolCall) : Json :=
  .obj [("id", .str c.id), ("type", .str c.callType),
    ("function", .obj [("name", .str c.functionName), ("arguments", .str c.functionArguments)])]

/-- Token counts of an LLM call. -/
structure Usage where
  promptTokens : Int
  completionTokens : Int
  totalTokens : Int

def Usage.toJson (u : Usage) : Json :=
  .obj [("prompt_tokens", .int u.promptTokens), ("completion_tokens", .int u.completionTokens),
    ("total_tokens", .int u.totalTokens)]

/-- The payload of `turn_started`. -/
def turnStartedPayload (userInput redoGroup : String) (redoCount : Int) : Json :=
  .obj [("user_input", .str userInput), ("redo_group", .str redoGroup), ("redo_count", .int redoCount)]

/-- The failure reason as a field. -/
def failureJson (r : Option FailureReason) : Option Json := r.map fun fr => .str fr.asStr

/-- The payload of `turn_failed`. -/
def turnFailedPayload (errorType errorMessage : String) (stackTrace : Option String)
    (r : Option FailureReason) : Json :=
  ((Json.obj [("error_type", .str errorType), ("error_message", .str errorMessage)]).setOpt "failure_reason"
    (failureJson r)).set "stack_trace" (Json.ofOptStr stackTrace)

namespace Service

/-- The payload of `task_failed`. -/
def taskFailedPayload (reason : String) (failureReason : Option FailureReason) : Json :=
  (Json.obj [("reason", .str reason)]).setOpt "failure_reason" (failureJson failureReason)

/-- The payload of `llm_invoked`. -/
def llmInvokedPayload (model : String) (messages : List Message) (tools : Option (List Json))
    (temperature : Option UInt64) (localSeq : Int) : Json :=
  let payload := Json.obj [("step_type", .str "llm_call"), ("model", .str model),
    ("messages", .arr (messages.map Message.toJson)), ("local_seq", .int localSeq)]
  (payload.setOpt "tools" (tools.map .arr)).setOpt "temperature" (temperature.map .float)

/-- The payload of `llm_completed`. -/
def llmCompletedPayload (model : String) (content : Option String) (toolCalls : Option (List ToolCall))
    (usage : Option Usage) (finishReason : Option String) (localSeq : Int) : Json :=
  let payload := Json.obj [("model", .str model), ("local_seq", .int localSeq)]
  (((payload.setOpt "content" (content.map .str)).setOpt "tool_calls"
    (toolCalls.map fun tc => .arr (tc.map ToolCall.toJson))).setOpt "usage" (usage.map Usage.toJson)).setOpt
      "finish_reason" (finishReason.map .str)

/-- The payload of `llm_failed`. -/
def llmFailedPayload (errorType errorMessage : String) (failureReason : Option FailureReason)
    (attempt localSeq : Int) : Json :=
  let payload := Json.obj [("error_type", .str errorType), ("error_message", .str errorMessage),
    ("attempt", .int attempt), ("local_seq", .int localSeq)]
  payload.setOpt "failure_reason" (failureJson failureReason)

/-- The payload of `tool_invoked`. -/
def toolInvokedPayload (toolName toolCallId idempotencyKey : String) (input : Json) (parentStepId : Option String)
    (localSeq : Int) (workDir : Option String) (timeoutMs : Option Nat) : Json :=
  let payload := Json.obj [("step_type", .str "tool_call"), ("tool_name", .str toolName),
    ("tool_call_id", .str toolCallId), ("idempotency_key", .str idempotencyKey), ("input", input),
    ("local_seq", .int localSeq)]
  ((payload.setOpt "parent_step_id" (parentStepId.map .str)).setOpt "work_dir" (workDir.map .str)).setOpt
    "timeout_ms" (timeoutMs.map fun t : Nat => .int t)

/-- The payload of `tool_completed`. -/
def toolCompletedPayload (toolCallId : String) (output : Json) (isError : Bool) (localSeq : Int) : Json :=
  .obj [("tool_call_id", .str toolCallId), ("output", output), ("is_error", .bool isError),
    ("local_seq", .int localSeq)]

/-- The payload of `tool_failed`. -/
def toolFailedPayload (toolCallId errorType errorMessage : String) (failureReason : Option FailureReason)
    (attempt localSeq : Int) : Json :=
  let payload := Json.obj [("tool_call_id", .str toolCallId), ("error_type", .str errorType),
    ("error_message", .str errorMessage), ("attempt", .int attempt), ("local_seq", .int localSeq)]
  payload.setOpt "failure_reason" (failureJson failureReason)

/-- The payload of `summary_marker`. -/
def summaryMarkerPayload (upToTurnId upToSeq : Int) (summary : String) (coveredEventCount : Int) : Json :=
  .obj [("summarized_up_to_turn_id", .int upToTurnId), ("summarized_up_to_seq", .int upToSeq),
    ("summary", .str summary), ("covered_event_count", .int coveredEventCount)]

variable {σ : Type} (store : EventStore σ)

/-- Write an event and return it with its number. -/
def writeAs (event : AgentEvent) : StoreM σ AgentEvent := do
  let seq ← store.writeEvent event
  pure { event with seq }

/-! ## Tasks -/

/-- Create a task for the tenant and user of its provenance. -/
def createTask (uuid taskType : String) (provenance : Provenance) (body : Option Json) (priority : Int)
    (effectivePolicy : Option EffectivePolicy) : StoreM σ (String × AgentEvent) :=
  store.createTask uuid taskType (provenance.sourceTenantId.getD "default") (provenance.sourceUserId.getD "")
    provenance body priority effectivePolicy

/-- Read the state, check the move, write the event of the move. -/
def transitionTask (taskId : String) (target : TaskState) (eventType : EventType) (payload : Json) :
    StoreM σ AgentEvent := do
  match ← store.getTaskState taskId with
  | none => fail (.taskNotFound taskId)
  | some current =>
    if TaskState.canTransition current target then
      writeAs store (AgentEvent.new taskId none none eventType payload)
    else fail (.invalidTaskStateTransition taskId current.asStr target.asStr)

def markTaskReady (taskId : String) : StoreM σ AgentEvent := transitionTask store taskId .ready .taskReady (.obj [])

def claimTask (taskId claimant : String) : StoreM σ AgentEvent :=
  transitionTask store taskId .claimed .taskClaimed (.obj [("claimant", .str claimant)])

def blockTask (taskId reason : String) : StoreM σ AgentEvent :=
  transitionTask store taskId .blocked .taskBlocked (.obj [("reason", .str reason)])

def succeedTask (taskId reason : String) : StoreM σ AgentEvent :=
  transitionTask store taskId .succeeded .taskSucceeded (.obj [("reason", .str reason)])

def failTask (taskId reason : String) (failureReason : Option FailureReason) : StoreM σ AgentEvent :=
  transitionTask store taskId .failed .taskFailed (taskFailedPayload reason failureReason)

def cancelTask (taskId reason : String) : StoreM σ AgentEvent := do
  match ← store.getTaskState taskId with
  | none => fail (.taskNotFound taskId)
  | some current =>
    if TaskState.canTransition current .canceled then
      writeAs store (AgentEvent.new taskId none none .taskCanceled (.obj [("reason", .str reason)]))
    else fail (.invalidTaskStateTransition taskId current.asStr "canceled")

/-! ## Turns -/

/-- Ask for the task up to so many times; errors count as no. -/
def pollExists (taskId : String) : Nat → StoreM σ Bool
  | 0 => pure false
  | n + 1 => do
    match ← attempt (store.taskExists taskId) with
    | .ok true => pure true
    | _ => pollExists taskId n

/-- Start the next turn of a task. -/
def startTurn (uuid taskId userInput : String) (redoGroup : Option String) :
    StoreM σ (Int × String × AgentEvent) := do
  let exists_ ← pollExists store taskId 30
  if exists_ then
    if ← store.isTaskEnded taskId then fail (.taskAlreadyEnded taskId)
    else
      let maxTurn ← store.getMaxTurnId taskId
      let turnId := wrapI64 (maxTurn + 1)
      let redoGroup := redoGroup.getD ("rg_" ++ uuid)
      let event := AgentEvent.new taskId (some turnId) none .turnStarted (turnStartedPayload userInput redoGroup 0)
      let seq ← store.writeEvent event
      pure (turnId, redoGroup, { event with seq })
  else fail (.taskNotFound taskId)

def completeTurn (taskId : String) (turnId : Int) (finalOutput : String) : StoreM σ AgentEvent :=
  writeAs store (AgentEvent.new taskId (some turnId) none .turnCompleted (.obj [("final_output", .str finalOutput)]))

def failTurn (taskId : String) (turnId : Int) (errorType errorMessage : String) (stackTrace : Option String)
    (failureReason : Option FailureReason) : StoreM σ AgentEvent :=
  writeAs store (AgentEvent.new taskId (some turnId) none .turnFailed
    (turnFailedPayload errorType errorMessage stackTrace failureReason))

def cancelTurn (taskId : String) (turnId : Int) (reason : String) : StoreM σ AgentEvent :=
  writeAs store (AgentEvent.new taskId (some turnId) none .turnCanceled (.obj [("reason", .str reason)]))

def blockTurn (taskId : String) (turnId : Int) (reason : String) : StoreM σ AgentEvent :=
  writeAs store (AgentEvent.new taskId (some turnId) none .turnBlocked (.obj [("reason", .str reason)]))

/-- Start a turn once more, under its redo group. -/
def startTurnRedo (taskId : String) (turnId : Int) (userInput redoGroup : String) (redoCount : Int) :
    StoreM σ AgentEvent :=
  writeAs store (AgentEvent.new taskId (some turnId) none .turnStarted
    (turnStartedPayload userInput redoGroup redoCount))

/-! ## Steps -/

def recordLlmInvoked (taskId : String) (turnId : Option Int) (stepId model : String) (messages : List Message)
    (tools : Option (List Json)) (temperature : Option UInt64) (localSeq : Int) : StoreM σ AgentEvent :=
  writeAs store (AgentEvent.new taskId turnId (some stepId) .llmInvoked
    (llmInvokedPayload model messages tools temperature localSeq))

def recordLlmCompleted (taskId : String) (turnId : Option Int) (stepId model : String) (content : Option String)
    (toolCalls : Option (List ToolCall)) (usage : Option Usage) (finishReason : Option String) (localSeq : Int) :
    StoreM σ AgentEvent :=
  writeAs store (AgentEvent.new taskId turnId (some stepId) .llmCompleted
    (llmCompletedPayload model content toolCalls usage finishReason localSeq))

def recordLlmFailed (taskId : String) (turnId : Option Int) (stepId errorType errorMessage : String)
    (failureReason : Option FailureReason) (attempt localSeq : Int) : StoreM σ AgentEvent :=
  writeAs store (AgentEvent.new taskId turnId (some stepId) .llmFailed
    (llmFailedPayload errorType errorMessage failureReason attempt localSeq))

def recordToolInvoked (taskId : String) (turnId : Option Int) (stepId toolName toolCallId idempotencyKey : String)
    (input : Json) (parentStepId : Option String) (localSeq : Int) (workDir : Option String)
    (timeoutMs : Option Nat) : StoreM σ AgentEvent :=
  writeAs store (AgentEvent.new taskId turnId (some stepId) .toolInvoked
    (toolInvokedPayload toolName toolCallId idempotencyKey input parentStepId localSeq workDir timeoutMs))

def recordToolCompleted (taskId : String) (turnId : Option Int) (stepId toolCallId : String) (output : Json)
    (isError : Bool) (localSeq : Int) : StoreM σ AgentEvent :=
  writeAs store (AgentEvent.new taskId turnId (some stepId) .toolCompleted
    (toolCompletedPayload toolCallId output isError localSeq))

def recordToolFailed (taskId : String) (turnId : Option Int) (stepId toolCallId errorType errorMessage : String)
    (failureReason : Option FailureReason) (attempt localSeq : Int) : StoreM σ AgentEvent :=
  writeAs store (AgentEvent.new taskId turnId (some stepId) .toolFailed
    (toolFailedPayload toolCallId errorType errorMessage failureReason attempt localSeq))

/-! ## Summaries, generic records and batches -/

def writeSummaryMarker (taskId : String) (upToTurnId upToSeq : Int) (summary : String) (coveredEventCount : Int) :
    StoreM σ AgentEvent :=
  writeAs store (AgentEvent.new taskId none none .summaryMarker
    (summaryMarkerPayload upToTurnId upToSeq summary coveredEventCount))

def recordEvent (taskId : String) (turnId : Option Int) (stepId : Option String) (eventType : EventType)
    (payload : Json) : StoreM σ Int :=
  store.writeEvent (AgentEvent.new taskId turnId stepId eventType payload)

def writeEventsBatch (events : List AgentEvent) : StoreM σ (List Int) := store.writeEventsBatch events

end Service

/-! ## Operations as data -/

/-- The service operations that write to one existing task, and the bare write of an event. -/
inductive Op where
  | writeEvent (e : AgentEvent)
  | markTaskReady (taskId : String)
  | claimTask (taskId claimant : String)
  | blockTask (taskId reason : String)
  | succeedTask (taskId reason : String)
  | failTask (taskId reason : String) (failureReason : Option FailureReason)
  | cancelTask (taskId reason : String)
  | startTurn (uuid taskId userInput : String) (redoGroup : Option String)
  | completeTurn (taskId : String) (turnId : Int) (finalOutput : String)
  | failTurn (taskId : String) (turnId : Int) (errorType errorMessage : String) (stackTrace : Option String)
      (failureReason : Option FailureReason)
  | cancelTurn (taskId : String) (turnId : Int) (reason : String)
  | blockTurn (taskId : String) (turnId : Int) (reason : String)
  | startTurnRedo (taskId : String) (turnId : Int) (userInput redoGroup : String) (redoCount : Int)
  | recordLlmInvoked (taskId : String) (turnId : Option Int) (stepId model : String) (messages : List Message)
      (tools : Option (List Json)) (temperature : Option UInt64) (localSeq : Int)
  | recordLlmCompleted (taskId : String) (turnId : Option Int) (stepId model : String) (content : Option String)
      (toolCalls : Option (List ToolCall)) (usage : Option Usage) (finishReason : Option String) (localSeq : Int)
  | recordLlmFailed (taskId : String) (turnId : Option Int) (stepId errorType errorMessage : String)
      (failureReason : Option FailureReason) (attempt localSeq : Int)
  | recordToolInvoked (taskId : String) (turnId : Option Int) (stepId toolName toolCallId idempotencyKey : String)
      (input : Json) (parentStepId : Option String) (localSeq : Int) (workDir : Option String)
      (timeoutMs : Option Nat)
  | recordToolCompleted (taskId : String) (turnId : Option Int) (stepId toolCallId : String) (output : Json)
      (isError : Bool) (localSeq : Int)
  | recordToolFailed (taskId : String) (turnId : Option Int) (stepId toolCallId errorType errorMessage : String)
      (failureReason : Option FailureReason) (attempt localSeq : Int)
  | writeSummaryMarker (taskId : String) (upToTurnId upToSeq : Int) (summary : String) (coveredEventCount : Int)
  | recordEvent (taskId : String) (turnId : Option Int) (stepId : Option String) (eventType : EventType)
      (payload : Json)

namespace Op

/-- The task an operation is about. -/
def taskId : Op → String
  | writeEvent e => e.taskId
  | markTaskReady t | claimTask t _ | blockTask t _ | succeedTask t _ | failTask t _ _ | cancelTask t _
  | startTurn _ t _ _ | completeTurn t _ _ | failTurn t _ _ _ _ _ | cancelTurn t _ _ | blockTurn t _ _
  | startTurnRedo t _ _ _ _ | recordLlmInvoked t _ _ _ _ _ _ _ | recordLlmCompleted t _ _ _ _ _ _ _ _
  | recordLlmFailed t _ _ _ _ _ _ _ | recordToolInvoked t _ _ _ _ _ _ _ _ _ _ | recordToolCompleted t _ _ _ _ _ _
  | recordToolFailed t _ _ _ _ _ _ _ _ | writeSummaryMarker t _ _ _ _ | recordEvent t _ _ _ _ => t

/-- The type of the event that an operation writes. -/
def eventType : Op → EventType
  | writeEvent e => e.eventType
  | recordEvent _ _ _ et _ => et
  | markTaskReady _ => .taskReady
  | claimTask _ _ => .taskClaimed
  | blockTask _ _ => .taskBlocked
  | succeedTask _ _ => .taskSucceeded
  | failTask _ _ _ => .taskFailed
  | cancelTask _ _ => .taskCanceled
  | startTurn _ _ _ _ | startTurnRedo _ _ _ _ _ => .turnStarted
  | completeTurn _ _ _ => .turnCompleted
  | failTurn _ _ _ _ _ _ => .turnFailed
  | cancelTurn _ _ _ => .turnCanceled
  | blockTurn _ _ _ => .turnBlocked
  | recordLlmInvoked _ _ _ _ _ _ _ _ => .llmInvoked
  | recordLlmCompleted _ _ _ _ _ _ _ _ _ => .llmCompleted
  | recordLlmFailed _ _ _ _ _ _ _ _ => .llmFailed
  | recordToolInvoked _ _ _ _ _ _ _ _ _ _ _ => .toolInvoked
  | recordToolCompleted _ _ _ _ _ _ _ => .toolCompleted
  | recordToolFailed _ _ _ _ _ _ _ _ _ => .toolFailed
  | writeSummaryMarker _ _ _ _ _ => .summaryMarker

/-- The turn that an operation names; a new turn gets its number from the store. -/
def turnId : Op → Option Int
  | writeEvent e => e.turnId
  | recordEvent _ k _ _ _ => k
  | completeTurn _ k _ | failTurn _ k _ _ _ _ | cancelTurn _ k _ | blockTurn _ k _ | startTurnRedo _ k _ _ _ => some k
  | recordLlmInvoked _ k _ _ _ _ _ _ | recordLlmCompleted _ k _ _ _ _ _ _ _ | recordLlmFailed _ k _ _ _ _ _ _
  | recordToolInvoked _ k _ _ _ _ _ _ _ _ _ | recordToolCompleted _ k _ _ _ _ _
  | recordToolFailed _ k _ _ _ _ _ _ _ => k
  | _ => none

/-- The step that an operation names. -/
def stepId : Op → Option String
  | writeEvent e => e.stepId
  | recordEvent _ _ sid _ _ => sid
  | recordLlmInvoked _ _ sid _ _ _ _ _ | recordLlmCompleted _ _ sid _ _ _ _ _ _ | recordLlmFailed _ _ sid _ _ _ _ _
  | recordToolInvoked _ _ sid _ _ _ _ _ _ _ _ | recordToolCompleted _ _ sid _ _ _ _
  | recordToolFailed _ _ sid _ _ _ _ _ _ => some sid
  | _ => none

/-- The payload of a posted event; the other operations build theirs. -/
def postedPayload : Op → Option Json
  | writeEvent e => some e.payload
  | recordEvent _ _ _ _ p => some p
  | _ => none

/-- The payload of the event that an operation writes. -/
def payload : Op → Json
  | writeEvent e => e.payload
  | recordEvent _ _ _ _ p => p
  | markTaskReady _ => .obj []
  | claimTask _ claimant => .obj [("claimant", .str claimant)]
  | blockTask _ reason | succeedTask _ reason | cancelTask _ reason => .obj [("reason", .str reason)]
  | failTask _ reason failureReason => Service.taskFailedPayload reason failureReason
  | startTurn uuid _ userInput redoGroup => turnStartedPayload userInput (redoGroup.getD ("rg_" ++ uuid)) 0
  | startTurnRedo _ _ userInput redoGroup redoCount => turnStartedPayload userInput redoGroup redoCount
  | completeTurn _ _ finalOutput => .obj [("final_output", .str finalOutput)]
  | failTurn _ _ errorType errorMessage stackTrace failureReason =>
    turnFailedPayload errorType errorMessage stackTrace failureReason
  | cancelTurn _ _ reason | blockTurn _ _ reason => .obj [("reason", .str reason)]
  | recordLlmInvoked _ _ _ model messages tools temperature localSeq =>
    Service.llmInvokedPayload model messages tools temperature localSeq
  | recordLlmCompleted _ _ _ model content toolCalls usage finishReason localSeq =>
    Service.llmCompletedPayload model content toolCalls usage finishReason localSeq
  | recordLlmFailed _ _ _ errorType errorMessage failureReason attempt localSeq =>
    Service.llmFailedPayload errorType errorMessage failureReason attempt localSeq
  | recordToolInvoked _ _ _ toolName toolCallId idempotencyKey input parentStepId localSeq workDir timeoutMs =>
    Service.toolInvokedPayload toolName toolCallId idempotencyKey input parentStepId localSeq workDir timeoutMs
  | recordToolCompleted _ _ _ toolCallId output isError localSeq =>
    Service.toolCompletedPayload toolCallId output isError localSeq
  | recordToolFailed _ _ _ toolCallId errorType errorMessage failureReason attempt localSeq =>
    Service.toolFailedPayload toolCallId errorType errorMessage failureReason attempt localSeq
  | writeSummaryMarker _ upToTurnId upToSeq summary coveredEventCount =>
    Service.summaryMarkerPayload upToTurnId upToSeq summary coveredEventCount

/-- The operation gives its turn a new number. -/
def numbersTurn : Op → Bool
  | startTurn _ _ _ _ => true
  | _ => false

/-- The event that an operation writes, on a task whose greatest turn is `maxTurn`. -/
def event (maxTurn : Int) : Op → AgentEvent
  | writeEvent e => e
  | o => AgentEvent.new o.taskId (if o.numbersTurn then some (wrapI64 (maxTurn + 1)) else o.turnId) o.stepId o.eventType
      o.payload

/-- The event is the one that the operation writes, for some greatest turn of its task. -/
def Describes (op : Op) (e : AgentEvent) : Prop := ∃ maxTurn, e = op.event maxTurn

/-- Only the event of a new turn depends on the turns before it. -/
theorem event_congr {op : Op} {m n : Int} (h : op.numbersTurn = true → m = n) : op.event m = op.event n := by
  cases op with
  | startTurn u t i rg => rw [h rfl]
  | _ => rfl

/-- Of an operation that numbers no turn there is one event. -/
theorem event_of_not_numbersTurn {op : Op} (h : op.numbersTurn = false) (m : Int) : op.event m = op.event 0 :=
  event_congr fun h' => by simp [h] at h'

theorem numbersTurn_of_eventType {op : Op} (h : op.eventType ≠ .turnStarted) : op.numbersTurn = false := by
  cases op with
  | startTurn u t i rg => exact absurd rfl h
  | _ => rfl

section Event

variable (op : Op) (maxTurn : Int)

@[simp] theorem event_taskId : (op.event maxTurn).taskId = op.taskId := by cases op <;> rfl

@[simp] theorem event_eventType : (op.event maxTurn).eventType = op.eventType := by cases op <;> rfl

@[simp] theorem event_stepId : (op.event maxTurn).stepId = op.stepId := by cases op <;> rfl

@[simp] theorem event_payload : (op.event maxTurn).payload = op.payload := by cases op <;> rfl

theorem event_turnId {op : Op} (h : op.numbersTurn = false) : (op.event maxTurn).turnId = op.turnId := by
  cases op with
  | startTurn u t i rg => cases h
  | _ => rfl

end Event

namespace Describes

variable {op : Op} {e : AgentEvent}

theorem taskId (h : op.Describes e) : e.taskId = op.taskId := by
  obtain ⟨n, rfl⟩ := h
  exact event_taskId op n

theorem eventType (h : op.Describes e) : e.eventType = op.eventType := by
  obtain ⟨n, rfl⟩ := h
  exact event_eventType op n

theorem stepId (h : op.Describes e) : e.stepId = op.stepId := by
  obtain ⟨n, rfl⟩ := h
  exact event_stepId op n

theorem payload (h : op.Describes e) : e.payload = op.payload := by
  obtain ⟨n, rfl⟩ := h
  exact event_payload op n

theorem turnId (h : op.Describes e) (hne : op.eventType ≠ .turnStarted) : e.turnId = op.turnId := by
  obtain ⟨n, rfl⟩ := h
  exact event_turnId n (numbersTurn_of_eventType hne)

/-- The number of a new turn is an `i64`. -/
theorem fits (h : op.Describes e) (hfits : ∀ k, op.turnId = some k → InI64 k) : ∀ k, e.turnId = some k → InI64 k := by
  obtain ⟨n, rfl⟩ := h
  intro k hk
  cases op with
  | startTurn u t i rg => exact Option.some.inj hk ▸ wrapI64_inI64 (n + 1)
  | _ => exact hfits k hk

end Describes

/-- Forget the answer of an operation. -/
def discard {σ α : Type} (m : StoreM σ α) : StoreM σ Unit := m >>= fun _ => pure ()

/-- Run an operation on a store. -/
def run {σ : Type} (store : EventStore σ) : Op → StoreM σ Unit
  | writeEvent e => discard (store.writeEvent e)
  | markTaskReady t => discard (Service.markTaskReady store t)
  | claimTask t c => discard (Service.claimTask store t c)
  | blockTask t r => discard (Service.blockTask store t r)
  | succeedTask t r => discard (Service.succeedTask store t r)
  | failTask t r fr => discard (Service.failTask store t r fr)
  | cancelTask t r => discard (Service.cancelTask store t r)
  | startTurn u t i rg => discard (Service.startTurn store u t i rg)
  | completeTurn t k o => discard (Service.completeTurn store t k o)
  | failTurn t k et em st fr => discard (Service.failTurn store t k et em st fr)
  | cancelTurn t k r => discard (Service.cancelTurn store t k r)
  | blockTurn t k r => discard (Service.blockTurn store t k r)
  | startTurnRedo t k i rg rc => discard (Service.startTurnRedo store t k i rg rc)
  | recordLlmInvoked t k sid m ms ts tmp l => discard (Service.recordLlmInvoked store t k sid m ms ts tmp l)
  | recordLlmCompleted t k sid m c tc u f l => discard (Service.recordLlmCompleted store t k sid m c tc u f l)
  | recordLlmFailed t k sid et em fr a l => discard (Service.recordLlmFailed store t k sid et em fr a l)
  | recordToolInvoked t k sid n c i v p l w tm => discard (Service.recordToolInvoked store t k sid n c i v p l w tm)
  | recordToolCompleted t k sid c o b l => discard (Service.recordToolCompleted store t k sid c o b l)
  | recordToolFailed t k sid c et em fr a l => discard (Service.recordToolFailed store t k sid c et em fr a l)
  | writeSummaryMarker t k q s n => discard (Service.writeSummaryMarker store t k q s n)
  | recordEvent t k sid et p => discard (Service.recordEvent store t k sid et p)

end Op

/-! ## The shape of the operations -/

section Shape

variable {σ α : Type} {store : EventStore σ} {R : σ → σ → Prop} {taskId : String} {P : AgentEvent → Prop}

/-- Forgetting the answer keeps the shape. -/
theorem WritesFrom.discard {m : StoreM σ α} {s : σ} (h : WritesFrom store R P m s) :
    WritesFrom store R P (Op.discard m) s := by
  obtain ⟨s₁, hR, hcase⟩ := h
  have hd : (Op.discard m) s = Eff.bind m (fun _ => Eff.ret ()) s := rfl
  refine ⟨s₁, hR, ?_⟩
  rw [hd, Eff.bind]
  rcases hcase with ⟨err, herr⟩ | ⟨e, he, hs, hok⟩
  · exact Or.inl ⟨err, by rw [herr]⟩
  · refine Or.inr ⟨e, he, ?_⟩
    cases hm : m s with
    | mk r s' =>
      rw [hm] at hs hok
      cases r with
      | error err => exact ⟨hs, by simpa using hok⟩
      | ok a => exact ⟨hs, by simpa [Eff.ret] using hok⟩

theorem WritesAtMostOnce.discard {m : StoreM σ α} (h : WritesAtMostOnce store R P m) :
    WritesAtMostOnce store R P (Op.discard m) := fun s => (h s).discard

theorem writesAtMostOnce_writeAs (hR : ReadsOnly store R taskId) {e : AgentEvent} (he : P e) :
    WritesAtMostOnce store R P (Service.writeAs store e) :=
  writesAtMostOnce_write hR.refl he fun seq => ({ e with seq } : AgentEvent)

/-- A check between the read and the write. -/
theorem writesAtMostOnce_ite (hR : ReadsOnly store R taskId) {b : Bool} {m : StoreM σ α} {err : AppError}
    (hm : WritesAtMostOnce store R P m) : WritesAtMostOnce store R P (if b = true then m else Eff.fail err) := by
  cases b with
  | false => exact writesAtMostOnce_fail hR err
  | true => exact hm

/-- A task move reads the state and writes at most one event. -/
theorem writesAtMostOnce_transitionTask (hR : ReadsOnly store R taskId) (target : TaskState) {et : EventType}
    {payload : Json} (he : P (AgentEvent.new taskId none none et payload)) :
    WritesAtMostOnce store R P (Service.transitionTask store taskId target et payload) := by
  refine WritesAtMostOnce.read hR hR.getTaskState fun current => ?_
  cases current with
  | none => exact writesAtMostOnce_fail hR _
  | some current => exact writesAtMostOnce_ite hR (writesAtMostOnce_writeAs hR he)

theorem writesAtMostOnce_cancelTask (hR : ReadsOnly store R taskId) {reason : String}
    (he : P (AgentEvent.new taskId none none .taskCanceled (.obj [("reason", .str reason)]))) :
    WritesAtMostOnce store R P (Service.cancelTask store taskId reason) := by
  refine WritesAtMostOnce.read hR hR.getTaskState fun current => ?_
  cases current with
  | none => exact writesAtMostOnce_fail hR _
  | some current => exact writesAtMostOnce_ite hR (writesAtMostOnce_writeAs hR he)

/-- Polling for a task only reads. -/
theorem keeps_pollExists (hR : ReadsOnly store R taskId) (n : Nat) :
    Keeps R (Service.pollExists store taskId n) := by
  induction n with
  | zero => exact Keeps.pure hR.refl false
  | succ n ih =>
    refine Keeps.bind (R := R) (fun _ _ _ => hR.trans) hR.taskExists.attempt fun r => ?_
    cases r with
    | error err => exact ih
    | ok b =>
      cases b with
      | false => exact ih
      | true => exact Keeps.pure hR.refl true

/-- Starting a turn reads and writes at most one event, numbered after the greatest turn that it has read. -/
theorem writesFrom_startTurn (hR : ReadsOnly store R taskId) {uuid userInput : String}
    {redoGroup : Option String} {s : σ}
    (he : ∀ s' maxTurn, R s s' → (store.getMaxTurnId taskId s').1 = .ok maxTurn →
      P ((Op.startTurn uuid taskId userInput redoGroup).event maxTurn)) :
    WritesFrom store R P (Service.startTurn store uuid taskId userInput redoGroup) s := by
  refine WritesFrom.read hR (keeps_pollExists hR 30) fun b s₁ h₁ _ => ?_
  cases b with
  | false => exact writesAtMostOnce_fail hR _ s₁
  | true =>
    refine WritesFrom.read hR hR.isTaskEnded fun ended s₂ h₂ _ => ?_
    cases ended with
    | true => exact writesAtMostOnce_fail hR _ s₂
    | false =>
      refine WritesFrom.read hR hR.getMaxTurnId fun maxTurn s₃ _ hmax => ?_
      exact writesAtMostOnce_write hR.refl (he s₂ maxTurn (hR.trans h₁ h₂) (by rw [hmax])) _ s₃

/-- The event that the operation writes from the state: a new turn has the number after the one that the store gives as
the greatest. -/
def Op.DescribesFrom (store : EventStore σ) (R : σ → σ → Prop) (op : Op) (s : σ) (e : AgentEvent) : Prop :=
  ∃ maxTurn, e = op.event maxTurn ∧
    (op.numbersTurn = true → ∃ s', R s s' ∧ (store.getMaxTurnId op.taskId s').1 = .ok maxTurn)

theorem Op.DescribesFrom.describes {op : Op} {s : σ} {e : AgentEvent} (h : op.DescribesFrom store R s e) :
    op.Describes e := by
  obtain ⟨maxTurn, he, -⟩ := h
  exact ⟨maxTurn, he⟩

/-- **Every operation on a task reads, and then fails or writes one event, the one it describes.** -/
theorem Op.writesFrom (op : Op) (hR : ReadsOnly store R op.taskId) (s : σ) :
    WritesFrom store R (op.DescribesFrom store R s) (op.run store) s := by
  -- all but the start of a turn write an event that is known beforehand
  have hone : op.numbersTurn = false → WritesAtMostOnce store R op.Describes (op.run store) →
      WritesFrom store R (op.DescribesFrom store R s) (op.run store) s := by
    intro hnum h
    refine (h s).mono fun e he => ?_
    obtain ⟨n, he⟩ := he
    exact ⟨n, he, fun h' => by simp [hnum] at h'⟩
  cases op with
  | startTurn u t i rg =>
    refine WritesFrom.discard (writesFrom_startTurn hR fun s' maxTurn hs' hmax => ?_)
    exact ⟨maxTurn, rfl, fun _ => ⟨s', hs', hmax⟩⟩
  | writeEvent e => exact hone rfl (writesAtMostOnce_write hR.refl ⟨0, rfl⟩ fun _ => ())
  | recordEvent t k sid et p => exact hone rfl (writesAtMostOnce_write hR.refl ⟨0, rfl⟩ fun _ => ())
  | cancelTask t r => exact hone rfl (writesAtMostOnce_cancelTask hR ⟨0, rfl⟩).discard
  | markTaskReady t => exact hone rfl (writesAtMostOnce_transitionTask hR _ ⟨0, rfl⟩).discard
  | claimTask t c => exact hone rfl (writesAtMostOnce_transitionTask hR _ ⟨0, rfl⟩).discard
  | blockTask t r => exact hone rfl (writesAtMostOnce_transitionTask hR _ ⟨0, rfl⟩).discard
  | succeedTask t r => exact hone rfl (writesAtMostOnce_transitionTask hR _ ⟨0, rfl⟩).discard
  | failTask t r fr => exact hone rfl (writesAtMostOnce_transitionTask hR _ ⟨0, rfl⟩).discard
  | _ => exact hone rfl (writesAtMostOnce_writeAs hR ⟨0, rfl⟩).discard

theorem Op.writesAtMostOnce (op : Op) (hR : ReadsOnly store R op.taskId) :
    WritesAtMostOnce store R op.Describes (op.run store) := fun s =>
  (op.writesFrom hR s).mono fun _ h => h.describes

/-- A post reads nothing before it writes. -/
theorem Op.post_writesAtMostOnce {op : Op} (h : op.postedPayload ≠ none) :
    WritesAtMostOnce store Eq op.Describes (op.run store) := by
  cases op with
  | writeEvent e => exact writesAtMostOnce_write Eq.refl ⟨0, rfl⟩ fun _ => ()
  | recordEvent t k sid et p => exact writesAtMostOnce_write Eq.refl ⟨0, rfl⟩ fun _ => ()
  | _ => exact absurd rfl h

end Shape

end Fixus
