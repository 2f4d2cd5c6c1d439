import Fixus.Data.Json

/-!
# Events, task states and the write guards

The event types with their scopes, the task state machine, and the three checks every written event goes through:
`AgentEvent.validateScope`, `validatePayloadRequiredFields` and `validateTaskEventTransition`.

- `fromStr_asStr`: the wire name of an event type determines it;
- `validateScope_ok_iff`: which turn and step tags an event of each scope may carry;
- `validatePayloadRequiredFields_error`: a rejected payload names a field it really lacks;
- `Edge`, `validateTaskEventTransition_some`: the edges that the guard admits.

`created_at` and `schema_version` are constants of the writer that nothing here reads; they are not modelled. The times
at which an incomplete turn or step has started are left out as well.
-/

namespace Fixus

/-! ## Errors -/

/-- The errors that the modelled functions return. -/
inductive AppError where
  | taskNotFound (taskId : String)
  | taskAlreadyEnded (taskId : String)
  | turnAlreadyTerminal (taskId : String) (turnId : Int)
  | stepAlreadyTerminal (stepId : String)
  | lifecycleInvariant (msg : String)
  | invalidTaskStateTransition (taskId fromState toState : String)
  | payloadValidation (eventType field : String)
  | invalidEventType (name : String)
  | protocol (msg : String)
  | internal (msg : String)
  | policyViolation (msg : String)
  /-- The unwinding of a panic, for the calls of the source that may panic. -/
  | panicked (msg : String)
  deriving DecidableEq, Repr

/-- The text of an error. -/
def AppError.display : AppError → String
  | taskNotFound t => "session not found: " ++ t
  | taskAlreadyEnded t => "session already ended: " ++ t
  | turnAlreadyTerminal t k => "turn already has terminal event: session=" ++ t ++ ", turn=" ++ toString k
  | stepAlreadyTerminal sid => "step already has terminal event: step_id=" ++ sid
  | lifecycleInvariant msg => "lifecycle invariant violation: " ++ msg
  | invalidTaskStateTransition t a b => "invalid task state transition: " ++ a ++ " → " ++ b ++ " (task=" ++ t ++ ")"
  | payloadValidation e field =>
    "payload validation error for event " ++ e ++ ": missing required field '" ++ field ++ "'"
  | invalidEventType name => "invalid event type: " ++ name
  | protocol msg => "protocol error: " ++ msg
  | internal msg => "internal error: " ++ msg
  | policyViolation msg => "policy violation: " ++ msg
  | panicked msg => msg

/-! ## Event types -/

/-- The kinds of events of an agent's log. -/
inductive EventType where
  | sessionStarted | sessionEnded | summaryMarker
  | taskCreated | taskReady | taskClaimed | taskBlocked | taskSucceeded | taskFailed | taskCanceled
  | turnPending | turnStarted | turnCompleted | turnFailed | turnCanceled | turnBlocked
  | llmInvoked | llmCompleted | llmFailed
  | toolInvoked | toolCompleted | toolFailed
  deriving DecidableEq, Repr

/-- The levels an event can belong to. -/
inductive EventScope where
  | task | session | turn | step
  deriving DecidableEq, Repr

namespace EventType

/-- All event types, in the order of the source. -/
def all : List EventType :=
  [sessionStarted, sessionEnded, summaryMarker, taskCreated, taskReady, taskClaimed, taskBlocked, taskSucceeded,
    taskFailed, taskCanceled, turnPending, turnStarted, turnCompleted, turnFailed, turnCanceled, turnBlocked,
    llmInvoked, llmCompleted, llmFailed, toolInvoked, toolCompleted, toolFailed]

/-- The snake_case name. -/
def asStr : EventType → String
  | sessionStarted => "session_started"
  | sessionEnded => "session_ended"
  | summaryMarker => "summary_marker"
  | taskCreated => "task_created"
  | taskReady => "task_ready"
  | taskClaimed => "task_claimed"
  | taskBlocked => "task_blocked"
  | taskSucceeded => "task_succeeded"
  | taskFailed => "task_failed"
  | taskCanceled => "task_canceled"
  | turnPending => "turn_pending"
  | turnStarted => "turn_started"
  | turnCompleted => "turn_completed"
  | turnFailed => "turn_failed"
  | turnCanceled => "turn_canceled"
  | turnBlocked => "turn_blocked"
  | llmInvoked => "llm_invoked"
  | llmCompleted => "llm_completed"
  | llmFailed => "llm_failed"
  | toolInvoked => "tool_invoked"
  | toolCompleted => "tool_completed"
  | toolFailed => "tool_failed"

/-- Reading a snake_case name. -/
def fromStr : String → Option EventType
  | "session_started" => some sessionStarted
  | "session_ended" => some sessionEnded
  | "summary_marker" => some summaryMarker
  | "task_created" => some taskCreated
  | "task_ready" => some taskReady
  | "task_claimed" => some taskClaimed
  | "task_blocked" => some taskBlocked
  | "task_succeeded" => some taskSucceeded
  | "task_failed" => some taskFailed
  | "task_canceled" => some taskCanceled
  | "turn_pending" => some turnPending
  | "turn_started" => some turnStarted
  | "turn_completed" => some turnCompleted
  | "turn_failed" => some turnFailed
  | "turn_canceled" => some turnCanceled
  | "turn_blocked" => some turnBlocked
  | "llm_invoked" => some llmInvoked
  | "llm_completed" => some llmCompleted
  | "llm_failed" => some llmFailed
  | "tool_invoked" => some toolInvoked
  | "tool_completed" => some toolCompleted
  | "tool_failed" => some toolFailed
  | _ => none

/-- The name of the variant, as the debug format prints it. -/
def debug : EventType → String
  | sessionStarted => "SessionStarted"
  | sessionEnded => "SessionEnded"
  | summaryMarker => "SummaryMarker"
  | taskCreated => "TaskCreated"
  | taskReady => "TaskReady"
  | taskClaimed => "TaskClaimed"
  | taskBlocked => "TaskBlocked"
  | taskSucceeded => "TaskSucceeded"
  | taskFailed => "TaskFailed"
  | taskCanceled => "TaskCanceled"
  | turnPending => "TurnPending"
  | turnStarted => "TurnStarted"
  | turnCompleted => "TurnCompleted"
  | turnFailed => "TurnFailed"
  | turnCanceled => "TurnCanceled"
  | turnBlocked => "TurnBlocked"
  | llmInvoked => "LlmInvoked"
  | llmCompleted => "LlmCompleted"
  | llmFailed => "LlmFailed"
  | toolInvoked => "ToolInvoked"
  | toolCompleted => "ToolCompleted"
  | toolFailed => "ToolFailed"

def isTaskLevel : EventType → Bool
  | taskCreated | taskReady | taskClaimed | taskBlocked | taskSucceeded | taskFailed | taskCanceled => true
  | _ => false

def isSessionLevel : EventType → Bool
  | sessionStarted | sessionEnded | summaryMarker => true
  | _ => false

def isTurnLevel : EventType → Bool
  | turnPending | turnStarted | turnCompleted | turnFailed | turnCanceled | turnBlocked => true
  | _ => false

/-- `llm_invoked` and `tool_invoked` start a step. -/
def isStepStart : EventType → Bool
  | llmInvoked | toolInvoked => true
  | _ => false

/-- The four events that end a step. -/
def isStepTerminal : EventType → Bool
  | llmCompleted | llmFailed | toolCompleted | toolFailed => true
  | _ => false

/-- The four events that end a turn. -/
def isTurnTerminal : EventType → Bool
  | turnCompleted | turnFailed | turnCanceled | turnBlocked => true
  | _ => false

/-- The three events that end a task. -/
def isTaskTerminal : EventType → Bool
  | taskSucceeded | taskFailed | taskCanceled => true
  | _ => false

/-- The level an event belongs to. -/
def scope (e : EventType) : EventScope :=
  if e.isTaskLevel then .task
  else if e.isSessionLevel then .session
  else if e.isTurnLevel then .turn
  else .step

/-- The wire name of an event type determines it. -/
@[simp] theorem fromStr_asStr (e : EventType) : fromStr e.asStr = some e := by cases e <;> rfl

/-- Only the wire name reads as the event type. -/
theorem asStr_of_fromStr {s : String} {e : EventType} (h : fromStr s = some e) : s = e.asStr := by
  unfold fromStr at h
  split at h <;> first
    | (cases h; rfl)
    | cases h

/-- Different event types have different wire names. -/
theorem asStr_inj {e e' : EventType} (h : e.asStr = e'.asStr) : e = e' := by
  have h' := congrArg fromStr h
  simpa using h'

end EventType

def EventScope.asStr : EventScope → String
  | .task => "task"
  | .session => "session"
  | .turn => "turn"
  | .step => "step"

/-! ## Events -/

/-- An event of an agent's log. -/
structure AgentEvent where
  taskId : String
  seq : Int
  turnId : Option Int
  stepId : Option String
  eventType : EventType
  payload : Json

namespace AgentEvent

/-- A new event; the store fills the sequence number. -/
def new (taskId : String) (turnId : Option Int) (stepId : Option String) (eventType : EventType) (payload : Json) :
    AgentEvent :=
  { taskId, seq := 0, turnId, stepId, eventType, payload }

/-- The check of the turn and step tags against the level of the event. -/
def validateScope (e : AgentEvent) : Except String Unit :=
  match e.eventType.scope with
  | .task | .session =>
    if e.turnId.isSome then
      .error (e.eventType.scope.asStr ++ "-level event " ++ e.eventType.asStr ++ " must have turn_id = NULL")
    else if e.stepId.isSome then
      .error (e.eventType.scope.asStr ++ "-level event " ++ e.eventType.asStr ++ " must have step_id = NULL")
    else .ok ()
  | .turn =>
    if e.turnId.isNone then .error ("Turn-level event " ++ e.eventType.asStr ++ " must have turn_id NOT NULL")
    else if e.stepId.isSome then .error ("Turn-level event " ++ e.eventType.asStr ++ " must have step_id = NULL")
    else .ok ()
  | .step =>
    -- a step may belong to no turn
    if e.stepId.isNone then .error ("Step-level event " ++ e.eventType.asStr ++ " must have step_id NOT NULL")
    else .ok ()

/-- The tags an accepted event carries, by its level. -/
theorem validateScope_ok_iff (e : AgentEvent) : e.validateScope = .ok () ↔
    match e.eventType.scope with
    | .task | .session => e.turnId = none ∧ e.stepId = none
    | .turn => (∃ t, e.turnId = some t) ∧ e.stepId = none
    | .step => ∃ s, e.stepId = some s := by
  unfold validateScope
  rcases e.eventType.scope with _ | _ | _ | _ <;> rcases e.turnId with _ | t <;> rcases e.stepId with _ | s <;> simp

end AgentEvent

/-! ## The task state machine -/

/-- The states of a task. -/
inductive TaskState where
  | created | ready | claimed | executing | blocked | succeeded | failed | canceled
  deriving DecidableEq, Repr

namespace TaskState

def asStr : TaskState → String
  | created => "created"
  | ready => "ready"
  | claimed => "claimed"
  | executing => "executing"
  | blocked => "blocked"
  | succeeded => "succeeded"
  | failed => "failed"
  | canceled => "canceled"

/-- The name of the variant, as the debug format prints it. -/
def debug : TaskState → String
  | created => "Created"
  | ready => "Ready"
  | claimed => "Claimed"
  | executing => "Executing"
  | blocked => "Blocked"
  | succeeded => "Succeeded"
  | failed => "Failed"
  | canceled => "Canceled"

/-- A final state. -/
def isTerminal : TaskState → Bool
  | succeeded | failed | canceled => true
  | _ => false

/-- The legal moves of the state machine. -/
def canTransition (s t : TaskState) : Bool :=
  if s.isTerminal then false
  else match s, t with
    | created, ready => true
    | ready, claimed => true
    | ready, canceled => true
    | claimed, executing => true
    | claimed, canceled => true
    | executing, blocked => true
    | executing, succeeded => true
    | executing, failed => true
    | executing, canceled => true
    | blocked, ready => true
    | blocked, canceled => true
    | created, canceled => true
    | _, _ => false

end TaskState

/-! ## Failure taxonomy -/

/-- Why something failed. -/
inductive FailureReason where
  | agentSpawnFailed | sessionCreateFailed | agentProcessExited | redoDispatchFailed | brokerError | sandboxTimeout
  | agentUnresponsive | applicationError | policy | canceled | unknown
  deriving DecidableEq, Repr

namespace FailureReason

def asStr : FailureReason → String
  | agentSpawnFailed => "agent_spawn_failed"
  | sessionCreateFailed => "session_create_failed"
  | agentProcessExited => "agent_process_exited"
  | redoDispatchFailed => "redo_dispatch_failed"
  | brokerError => "broker_error"
  | sandboxTimeout => "sandbox_timeout"
  | agentUnresponsive => "agent_unresponsive"
  | applicationError => "application_error"
  | policy => "policy"
  | canceled => "canceled"
  | unknown => "unknown"

/-- Whether a retry within the budget is worth it. -/
def isRetryable : FailureReason → Bool
  | applicationError | policy | canceled => false
  | _ => true

end FailureReason

/-- The failure reason of a reported error type; unknown types are retryable. -/
def classifyFailure (errorType : String) : FailureReason :=
  match errorType with
  | "agent_spawn_failed" => .agentSpawnFailed
  | "session_create_failed" => .sessionCreateFailed
  | "agent_process_exited" => .agentProcessExited
  | "redo_dispatch_failed" => .redoDispatchFailed
  | "broker_error" => .brokerError
  | "sandbox_timeout" => .sandboxTimeout
  | "agent_unresponsive" => .agentUnresponsive
  | "application_error" => .applicationError
  | "policy" => .policy
  | "canceled" => .canceled
  | _ => .unknown

/-! ## The transition guard -/

/-- The state an event moves the task to; nothing for events that do not concern the task state. -/
def EventType.targetState : EventType → Option TaskState
  | .taskCreated => some .created
  | .taskReady => some .ready
  | .taskClaimed => some .claimed
  | .taskBlocked => some .blocked
  | .taskSucceeded => some .succeeded
  | .taskFailed => some .failed
  | .taskCanceled => some .canceled
  | .turnStarted => some .executing
  | _ => none

/-- Whether the guard lets an event move a task from one state to another. -/
def legalFrom (e : EventType) (s target : TaskState) : Bool :=
  if e = .turnStarted then
    -- pull-based: a turn may start without a claim
    match s with
    | .ready | .claimed => true
    | _ => false
  else TaskState.canTransition s target

/-- The guard of every write: the task state must allow the event. -/
def validateTaskEventTransition (current : Option TaskState) (e : EventType) : Except AppError Unit :=
  match e.targetState with
  | none => .ok ()
  | some target =>
    match current with
    | none =>
      if e = .taskCreated then .ok ()
      else .error (.lifecycleInvariant (e.debug ++ ":无当前态(首事件必须是 task_created)"))
    | some s =>
      if legalFrom e s target then .ok ()
      else .error (.lifecycleInvariant
        ("非法 task 迁移:" ++ s.debug ++ " → " ++ target.debug ++ "(事件 " ++ e.debug ++ ")"))

/-- An edge of the task's state graph: a move of the state machine, or a turn that starts from `ready` or
`claimed`. -/
def Edge (s t : TaskState) : Prop :=
  TaskState.canTransition s t = true ∨ ((s = .ready ∨ s = .claimed) ∧ t = .executing)

instance (s t : TaskState) : Decidable (Edge s t) := inferInstanceAs (Decidable (_ ∨ _))

/-- With a known state the guard admits the events without a target and those that follow an edge. -/
theorem validateTaskEventTransition_some {s : TaskState} {e : EventType} :
    validateTaskEventTransition (some s) e = .ok () ↔ ∀ t, e.targetState = some t → legalFrom e s t = true := by
  unfold validateTaskEventTransition
  cases ht : e.targetState with
  | none => simp
  | some t => by_cases hl : legalFrom e s t = true <;> simp [hl]

/-- Without a known state only the creation of a task and events without a target pass. -/
theorem validateTaskEventTransition_none {e : EventType} :
    validateTaskEventTransition none e = .ok () ↔ e.targetState = none ∨ e = .taskCreated := by
  cases e <;> simp [validateTaskEventTransition, EventType.targetState]

/-- What the guard admits follows an edge. -/
theorem edge_of_legalFrom {e : EventType} {s t : TaskState} (ht : e.targetState = some t)
    (h : legalFrom e s t = true) : Edge s t := by
  by_cases he : e = .turnStarted
  · subst he
    cases Option.some.inj ht
    cases s <;> simp_all [legalFrom, Edge]
  · exact Or.inl (by simpa [legalFrom, he] using h)

/-- Edges leave live states only. -/
theorem Edge.not_isTerminal {s t : TaskState} (h : Edge s t) : s.isTerminal = false := by
  revert h
  cases s <;> cases t <;> decide

/-! ## Required payload fields -/

/-- The fields a payload of the event type must carry. -/
def requiredFields : EventType → List String
  | .llmInvoked => ["model", "messages", "local_seq"]
  | .llmCompleted => ["model", "local_seq"]
  | .toolInvoked => ["tool_name", "tool_call_id", "idempotency_key", "local_seq"]
  | .summaryMarker => ["summarized_up_to_seq", "summarized_up_to_turn_id", "summary"]
  | _ => []

/-- The field is missing or null. -/
def Json.lacks (v : Json) (field : String) : Bool :=
  match v.get field with
  | none | some .null => true
  | _ => false

/-- The check of the required fields, and of the token counts of a reported usage. -/
def validatePayloadRequiredFields (e : EventType) (payload : Json) : Except AppError Unit :=
  match (requiredFields e).find? payload.lacks with
  | some field => .error (.payloadValidation e.asStr field)
  | none =>
    if e = .llmCompleted then
      match payload.get "usage" with
      | some usage =>
        match ["prompt_tokens", "completion_tokens"].find? usage.lacks with
        | some sub => .error (.payloadValidation e.asStr ("usage." ++ sub))
        | none => .ok ()
      | none => .ok ()
    else .ok ()

/-- A rejected payload names a field that it, or its usage, really lacks. -/
theorem validatePayloadRequiredFields_error {e : EventType} {payload : Json} {err : AppError}
    (h : validatePayloadRequiredFields e payload = .error err) :
    (∃ field ∈ requiredFields e, payload.lacks field = true ∧ err = .payloadValidation e.asStr field) ∨
    (e = .llmCompleted ∧ ∃ usage sub, payload.get "usage" = some usage ∧ usage.lacks sub = true ∧
      err = .payloadValidation e.asStr ("usage." ++ sub)) := by
  unfold validatePayloadRequiredFields at h
  cases hf : (requiredFields e).find? payload.lacks with
  | some field =>
    simp only [hf, Except.error.injEq] at h
    exact Or.inl ⟨field, List.mem_of_find?_eq_some hf, List.find?_some hf, h.symm⟩
  | none =>
    simp only [hf] at h
    split at h
    · rename_i he
      split at h
      · rename_i usage hu
        cases hs : ["prompt_tokens", "completion_tokens"].find? usage.lacks with
        | some sub =>
          simp only [hs, Except.error.injEq] at h
          exact Or.inr ⟨he, usage, sub, hu, List.find?_some hs, h.symm⟩
        | none => simp [hs] at h
      · cases h
    · cases h

/-- Events without required fields are never rejected for their payload. -/
theorem validatePayloadRequiredFields_of_nil {e : EventType} (payload : Json) (h : requiredFields e = []) :
    validatePayloadRequiredFields e payload = .ok () := by
  cases e <;> simp_all [requiredFields, validatePayloadRequiredFields]

/-! ## Query results -/

/-- Where a task comes from. The creation time is kept as its text. -/
structure Provenance where
  sourceChannel : String := ""
  sourceSessionId : Option String := none
  sourceUserId : Option String := none
  sourceTenantId : Option String := none
  sourceMessageId : Option String := none
  createdAt : String := ""
  createdBy : String := ""
  deriving DecidableEq, Repr

namespace Provenance

/-- An optional text field: absent and null are none. -/
def optStr (v : Json) (key : String) : Option (Option String) :=
  match v.get key with
  | none | some .null => some none
  | some (.str s) => some (some s)
  | some _ => none

/-- The field of an optional text, left out when there is none. -/
def optField (key : String) : Option String → List (String × Json)
  | some s => [(key, .str s)]
  | none => []

def toJson (p : Provenance) : Json :=
  .obj ([("source_channel", .str p.sourceChannel)] ++ optField "source_session_id" p.sourceSessionId ++
    optField "source_user_id" p.sourceUserId ++ optField "source_tenant_id" p.sourceTenantId ++
    optField "source_message_id" p.sourceMessageId ++
    [("created_at", .str p.createdAt), ("created_by", .str p.createdBy)])

/-- The reading of a stored provenance; any text is taken for a time. -/
def ofJson (v : Json) : Option Provenance := do
  let sourceChannel ← (← v.get "source_channel").asStr
  let sourceSessionId ← optStr v "source_session_id"
  let sourceUserId ← optStr v "source_user_id"
  let sourceTenantId ← optStr v "source_tenant_id"
  let sourceMessageId ← optStr v "source_message_id"
  let createdAt ← (← v.get "created_at").asStr
  let createdBy ← (← v.get "created_by").asStr
  return { sourceChannel, sourceSessionId, sourceUserId, sourceTenantId, sourceMessageId, createdAt, createdBy }

/-- A stored provenance reads back as itself. -/
theorem ofJson_toJson (p : Provenance) : ofJson p.toJson = some p := by
  obtain ⟨channel, session, user, tenant, message, createdAt, createdBy⟩ := p
  cases session <;> cases user <;> cases tenant <;> cases message <;>
    simp [ofJson, toJson, optField, optStr, Json.get, Json.getField, Json.asStr]

end Provenance

/-- A turn with a start and no terminal event, but for the time at which it started. -/
structure IncompleteTurn where
  turnId : Int
  redoGroup : String
  redoCount : Int
  deriving DecidableEq, Repr

/-- A step with a start and no terminal event, but for the time at which it started. -/
structure IncompleteStep where
  seq : Int
  turnId : Int
  stepId : String
  startEventType : String
  payload : Json

/-- The token use of one model. -/
structure TokenUsageStats where
  model : String
  callCount : Int
  promptTokens : Int
  completionTokens : Int
  totalTokens : Int
  deriving DecidableEq, Repr

end Fixus
