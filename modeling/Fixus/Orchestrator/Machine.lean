import Fixus.Lib.Tasks
import Fixus.Lib.Walk
import Fixus.Orchestrator.Recovery
import Fixus.Orchestrator.Scheduling
import Fixus.Store.Calls
import Mathlib.Data.Prod.Lex

/-!
# The orchestrator

The orchestrator as a pool of cooperative tasks: requests that start turns, the recovery they spawn, the handlers of
the agents' reports, the watchdog, and all other calls on the store. A handler runs from one `await` to the next; what
it has still to do is its stack of instructions. Any interleaving is a run of `orchestrate`.

- `Instr`, `Shared.exec`: the instructions, one definition for each piece of a handler;
- `Act`: what the instructions report to the outside, the subject of the results about runs;
- `startTurn_eq`: the two halves of starting a turn make up the service operation.

Metrics and log output are left out, with the reads of the task type that only name a metric. An instruction that reads
the store several times in a row does so at once.
-/

namespace Fixus

open Lib Lib.Eff

/-! ## State and environment -/

/-- The settings of an orchestrator; of the deadlines only their number matters. -/
structure Config where
  retryPolicy : RetryPolicy := {}
  totalAttempts : Nat := 4
  lease : Nat := 900

/-- What the handlers share. -/
structure Shared where
  store : BrokerStore
  registry : TaskRegistry := {}
  dispatcher : Dispatcher
  retryAttempts : Finmap fun _ : TurnKey => Int := ∅
  dispatchTimes : Finmap fun _ : TurnKey => Nat := ∅

/-- What an LLM is shown of the past. -/
structure LlmContext where
  summary : String := ""
  messages : List Message := []

/-- What an instruction gets from outside: generated identifiers, the orders of hash tables, the context built for an
LLM, whether the current deadline has passed, and the clock. -/
structure Env where
  uuid : String := ""
  turnOrder : List Int := []
  stepOrder : List String := []
  keyOrder : List TurnKey := []
  context : Except AppError LlmContext := .ok {}
  elapsed : Bool := false
  secs : Nat := 0
  now : Nat := 0

/-! ## Instructions -/

/-- A turn that is being offered to the agents: one that was popped from the queue of a type, or a retry. -/
structure Dispatch where
  taskId : String
  turnId : Int
  userInput : String
  redoGroup : String
  redoCount : Int
  cachedLlm : List String
  slot : Option String

def Dispatch.key (d : Dispatch) : TurnKey := (d.taskId, d.turnId)

inductive Instr where
  -- `execute_turn`, `start_turn_async`, `run_turn_to_completion`
  | executeTurn (taskId userInput : String) (redoGroup : Option String)
  | startTurn (taskId userInput : String) (redoGroup : Option String)
  | writeTurnStarted (taskId : String) (turnId : Int) (userInput redoGroup : String)
  | runTurnToCompletion (taskId : String) (turnId : Int) (userInput redoGroup : String)
  | registerTurn (taskId : String) (turnId : Int) (userInput redoGroup : String)
  | enqueueTurn (taskId : String) (turnId : Int) (userInput redoGroup : String) (chan : Nat)
  | awaitTurn (taskId : String) (turnId : Int) (chan attempt : Nat)
  -- `dispatch_pending`, `dispatch_with_retry`, `release_slot_and_redispatch`
  | dispatchPending (taskType : String)
  | dispatchPopped (turn : QueuedTurn)
  | dispatchAttempt (d : Dispatch) (attempt : Nat)
  | onTurnTerminal (taskType : String)
  | releaseSlotAndRedispatch (taskId : String)
  -- `fail_task_with_reason`
  | clearRetry (taskId : String) (turnId : Int)
  | clearDispatchTime (taskId : String) (turnId : Int)
  | writeTurnFailed (taskId : String) (turnId : Int) (errorType errorMessage : String) (reason : FailureReason)
  | writeTaskFailed (taskId errorType : String) (reason : FailureReason)
  | completePendingTurn (taskId : String) (outcome : TurnOutcome)
  -- `handle_turn_execution_done`, `handle_turn_execution_error`
  | turnExecutionDone (taskId : String) (turnId : Int) (finalOutput : String)
  | countTurnEvents (taskId : String) (turnId : Int) (finalOutput : String)
  | turnExecutionError (taskId : String) (turnId : Int) (errorType errorMessage : String)
  | decideRetry (taskId : String) (turnId : Int) (errorType errorMessage userInput redoGroup : String)
  | redispatch (d : Dispatch)
  -- `recover_task`, `fail_turn_with_non_idempotent_block`
  | recoverTask (taskId : String)
  | recoverTurns (taskId : String) (turns : List IncompleteTurn) (redo : List RedoContext)
  | skipSteps (taskId : String) (turnId : Int) (steps : List IncompleteStep) (blocking : Nat)
      (turns : List IncompleteTurn) (redo : List RedoContext)
  | failBlocked (taskId : String) (turnId : Int) (blocking : Nat) (turns : List IncompleteTurn)
      (redo : List RedoContext)
  -- `spawn_background_recovery`
  | redoAll (taskId : String) (redo : List RedoContext)
  | redoTurns (taskId : String) (redo : List RedoContext)
  | redoCached (taskId : String) (r : RedoContext) (chan : Nat) (redo : List RedoContext)
  | enqueueRedo (taskId : String) (r : RedoContext) (cached : List String) (chan : Nat) (redo : List RedoContext)
  | awaitRedo (taskId : String) (turnId : Int) (chan attempt : Nat) (redo : List RedoContext)
  | giveUpRedo (taskId : String) (turnId : Int) (errorType errorMessage : String) (redo : List RedoContext)
  -- `reclaim_stale_turns`
  | watchdog
  | reclaim (keys : List TurnKey)
  -- HTTP operations and the reports on steps
  | call (c : Call)

/-- What comes in from outside: requests, reports of the agents, ticks of the watchdog and calls. -/
def Instr.isEntry : Instr → Bool
  | executeTurn _ _ _ | watchdog | call _ => true
  | turnExecutionDone t k _ | turnExecutionError t k _ _ => !t.isEmpty && k ≠ 0
  | _ => false

/-! ## Acts -/

/-- What the handlers report. -/
inductive Act where
  /-- A request looked for incomplete turns. -/
  | checked (taskId : String) (found : Bool)
  /-- An event was written. -/
  | wrote (taskId : String) (eventType : EventType) (turnId : Option Int)
  /-- A waiter was registered for a turn. -/
  | registered (turn : TurnKey)
  | enqueued (turn : TurnKey) (taskType : String)
  | popped (turn : TurnKey)
  /-- A `turn.begin` was published, for a popped turn or as a retry. -/
  | published (turn : TurnKey) (retry : Bool)
  /-- The error handler decided to publish a turn once more. -/
  | retried (turn : TurnKey)
  /-- A retry counter that stood at the value was removed. -/
  | cleared (turn : TurnKey) (count : Int)
  /-- A turn reached its terminal event or was given up, by a handler that goes on to release a slot or does not. -/
  | ended (turn : TurnKey) (releases : Bool)
  /-- A handler released a slot of the type, or could not resolve the type. -/
  | released (taskId : String) (taskType : Option String)
  /-- The background recovery failed a turn. -/
  | recoveryFailed (turn : TurnKey)
  deriving DecidableEq

/-- The events that a call writes when it succeeds. -/
def Call.writes : Call → List (String × EventType × Option Int)
  | .op o => [(o.taskId, o.eventType, o.turnId)]
  | .createTask uuid _ _ _ _ _ => [(createdId uuid, .taskCreated, none)]
  | .writeEventsBatch events => events.map fun e => (e.taskId, e.eventType, e.turnId)

def Call.acts (c : Call) : List Act := c.writes.map fun (t, et, k) => .wrote t et k

/-- The turns that a call ends when it succeeds. -/
def Call.endedTurns (c : Call) : List TurnKey :=
  c.writes.filterMap fun (t, et, k) => if et.isTurnTerminal then k.map fun k => (t, k) else none

abbrev Out := Outcome Shared Instr Act

/-! ## Pieces of handlers -/

/-- The reads of `start_turn`: the number of the next turn. -/
def nextTurnId {σ : Type} (store : EventStore σ) (taskId : String) : StoreM σ Int := do
  let exists_ ← Service.pollExists store taskId 30
  if exists_ then
    if ← store.isTaskEnded taskId then fail (.taskAlreadyEnded taskId)
    else
      let maxTurn ← store.getMaxTurnId taskId
      pure (wrapI64 (maxTurn + 1))
  else fail (.taskNotFound taskId)

/-- The start event of a new turn. -/
def turnStarted (taskId : String) (turnId : Int) (userInput redoGroup : String) : AgentEvent :=
  AgentEvent.new taskId (some turnId) none .turnStarted (turnStartedPayload userInput redoGroup 0)

/-- Starting a turn is finding its number and writing its start event. -/
theorem startTurn_eq {σ : Type} (store : EventStore σ) (uuid taskId userInput : String) (redoGroup : Option String) :
    Service.startTurn store uuid taskId userInput redoGroup = (do
      let turnId ← nextTurnId store taskId
      let event := turnStarted taskId turnId userInput (redoGroup.getD ("rg_" ++ uuid))
      let seq ← store.writeEvent event
      pure (turnId, redoGroup.getD ("rg_" ++ uuid), { event with seq })) := by
  funext s
  unfold Service.startTurn nextTurnId
  simp only [bind_apply, Eff.bind]
  cases hp : Service.pollExists store taskId 30 s with
  | mk r s₁ =>
    cases r with
    | error err => rfl
    | ok found =>
      cases found with
      | false => rfl
      | true =>
        simp only [if_true, bind_apply, Eff.bind]
        cases he : store.isTaskEnded taskId s₁ with
        | mk r s₂ =>
          cases r with
          | error err => rfl
          | ok ended =>
            cases ended with
            | true => rfl
            | false =>
              simp only [bind_apply, Eff.bind, if_false, Bool.false_eq_true]
              cases hm : store.getMaxTurnId taskId s₂ with
              | mk r s₃ => cases r <;> rfl

/-- The input of a turn, after the LLM responses of an earlier attempt. -/
def withCache (userInput : String) (cached : List String) : String :=
  if cached.isEmpty then userInput
  else "[CACHED FROM PREVIOUS ATTEMPT — reuse or adapt if applicable]\n" ++
    String.join ((cached.zipIdx.filter fun (resp, _) => !resp.isEmpty).map fun (resp, i) =>
      "\nPrevious response " ++ toString (i + 1) ++ ": " ++ resp ++ "\n") ++
    "\n[END CACHE]\n\n" ++ userInput

/-- The message to the agents; the constant table of tools is left out. -/
def buildTurnBeginPayload (taskId : String) (turnId : Int) (userInput : String) (ctx : LlmContext) (redoGroup : String)
    (redoCount : Int) (effectivePolicy : Option EffectivePolicy) : Json :=
  .obj [("type", .str "execute_turn"), ("session_id", .str taskId), ("turn_id", .int turnId),
    ("input", .obj [("user_input", .str userInput)]),
    ("context", .obj [("summary", .str ctx.summary), ("messages", .arr (ctx.messages.map Message.toJson))]),
    ("redo_group", .str redoGroup), ("redo_count", .int redoCount),
    ("effective_policy", (effectivePolicy.map EffectivePolicy.toJson).getD .null)]

section Reads

variable {σ : Type} (store : EventStore σ)

/-- The policy of a task; none if the task cannot be read. -/
def readPolicy (taskId : String) : StoreM σ (Option EffectivePolicy) := do
  match ← attempt (store.getTask taskId) with
  | .ok (some task) => pure task.effectivePolicy
  | _ => pure none

/-- Report the failure of a publication under a heading. -/
def publishAs (taskId taskType : String) (payload : Json) : StoreM σ Unit := do
  match ← attempt (store.publishTurnBegin taskId taskType payload) with
  | .ok () => pure ()
  | .error e => fail (.protocol
      ("Failed to publish turn.begin to task-begin-" ++ taskType ++ " for task " ++ taskId ++ ": " ++ e.display))

/-- Publish a turn. -/
def dispatchExecuteTurn (d : Dispatch) (context : Except AppError LlmContext) : StoreM σ Unit := do
  let ctx ← ofExcept context
  let policy ← readPolicy store d.taskId
  let taskType ← resolveTaskType store d.taskId
  publishAs store d.taskId taskType (buildTurnBeginPayload d.taskId d.turnId (withCache d.userInput d.cachedLlm) ctx
    d.redoGroup d.redoCount policy)

/-- The type and the priority of a task. -/
def typeAndPriority (taskId : String) : StoreM σ (String × Int) := do
  let taskType ← resolveTaskType store taskId
  let task ← store.getTask taskId
  pure (taskType, (task.map Task.priority).getD 0)

/-- The decision about an incomplete turn and, for a redo, its context. -/
def recoverTurn (taskId : String) (turn : IncompleteTurn) (stepOrder : List String) :
    StoreM σ (RecoveryDecision × Option RedoContext) := do
  match ← decideTurnRecovery store taskId turn stepOrder with
  | .safeToRedo k group count steps =>
    let ctx ← buildRedoContext store taskId turn
    pure (.safeToRedo k group count steps, ctx)
  | .requiresHumanIntervention k group blocking => pure (.requiresHumanIntervention k group blocking, none)

end Reads

/-- Fail a turn and its task, and tell whoever waits. -/
def failTaskWithReason (taskId : String) (turnId : Int) (reason : FailureReason) (errorType errorMessage : String) :
    List Instr :=
  [.clearRetry taskId turnId, .clearDispatchTime taskId turnId,
    .writeTurnFailed taskId turnId errorType errorMessage reason, .writeTaskFailed taskId errorType reason,
    .completePendingTurn taskId (.failed turnId errorType errorMessage)]

/-- The same, and give a slot back. -/
def failTurnAndRespond (taskId : String) (turnId : Int) (errorType errorMessage : String) : List Instr :=
  failTaskWithReason taskId turnId (classifyFailure errorType) errorType errorMessage ++
    [.releaseSlotAndRedispatch taskId]

/-- What a waiter finds. -/
inductive Waited where
  | outcome (o : TurnOutcome)
  | closed | elapsed | waiting

namespace Shared

variable (cfg : Config) (env : Env) (s : Shared)

/-- Run a computation of the store and go on with its result. -/
def on {α : Type} (m : StoreM BrokerStore α) (k : Except AppError α → Shared → Out) : Out :=
  k (m s.store).1 { s with store := (m s.store).2 }

/-- Run a call and go on with its result; when it succeeds, its events are written. -/
def calling (c : Call) (k : Except AppError Unit → Shared → Out) : Out :=
  let r := c.run brokerEventStore s.store
  let out := k r.1 { s with store := r.2 }
  match r.1 with
  | .ok () => { out with acts := c.acts ++ out.acts }
  | .error _ => out

/-! ## Requests -/

def executeTurn (taskId userInput : String) (redoGroup : Option String) : Out :=
  s.on (brokerEventStore.getIncompleteTurns taskId env.turnOrder) fun
    | .error _, s => { shared := s }
    | .ok [], s => { shared := s, next := [.startTurn taskId userInput redoGroup], acts := [.checked taskId false] }
    | .ok (_ :: _), s => { shared := s, spawned := [.recoverTask taskId], acts := [.checked taskId true] }

def startTurn (taskId userInput : String) (redoGroup : Option String) : Out :=
  s.on (nextTurnId brokerEventStore taskId) fun
    | .error _, s => { shared := s }
    | .ok k, s =>
      { shared := s, next := [.writeTurnStarted taskId k userInput (redoGroup.getD ("rg_" ++ env.uuid))] }

def writeTurnStarted (taskId : String) (turnId : Int) (userInput redoGroup : String) : Out :=
  s.calling (.op (.writeEvent (turnStarted taskId turnId userInput redoGroup))) fun
    | .error _, s => { shared := s }
    | .ok (), s => { shared := s, next := [.runTurnToCompletion taskId turnId userInput redoGroup] }

def runTurnToCompletion (taskId : String) (turnId : Int) (userInput redoGroup : String) : Out :=
  s.on (resolveTaskType brokerEventStore taskId) fun
    | .error _, s => { shared := s }
    | .ok _, s => { shared := s, next := [.registerTurn taskId turnId userInput redoGroup] }

def registerTurn (taskId : String) (turnId : Int) (userInput redoGroup : String) : Out :=
  { shared := { s with registry := s.registry.registerPendingTurn taskId turnId redoGroup }
    next := [.enqueueTurn taskId turnId userInput redoGroup s.registry.nextChan]
    acts := [.registered (taskId, turnId)] }

/-- `enqueue_and_dispatch`, with what comes after it and what a failure leads to. -/
def enqueueAndDispatch (turn : QueuedTurn) (after : Instr) (onError : AppError → List Instr) : Out :=
  s.on (typeAndPriority brokerEventStore turn.taskId) fun
    | .error e, s => { shared := s, next := onError e }
    | .ok (taskType, priority), s =>
      { shared := { s with dispatcher := s.dispatcher.enqueue { turn with taskType, priority } }
        next := [.dispatchPending taskType, after]
        acts := [.enqueued turn.key taskType] }

def enqueueTurn (taskId : String) (turnId : Int) (userInput redoGroup : String) (chan : Nat) : Out :=
  s.enqueueAndDispatch
    { taskType := "", taskId, turnId, userInput, redoGroup, redoCount := 0, cachedLlm := [], priority := 0 }
    (.awaitTurn taskId turnId chan 0) fun _ => []

/-- What has happened on a channel. -/
def wait (taskId : String) (chan : Nat) : Waited :=
  match s.registry.sent.lookup chan with
  | some o => .outcome o
  | none => if s.registry.isOpen taskId chan then (if env.elapsed then .elapsed else .waiting) else .closed

def awaitTurn (taskId : String) (turnId : Int) (chan attempt : Nat) : Out :=
  match s.wait env taskId chan with
  | .outcome _ => { shared := s }
  | .closed =>
    { shared := s
      next := failTurnAndRespond taskId turnId "channel_closed" "fixlet connection lost"
      acts := [.ended (taskId, turnId) true] }
  | .elapsed =>
    if attempt + 1 ≥ cfg.totalAttempts then
      { shared := s
        next := failTurnAndRespond taskId turnId "timeout" ("Turn timed out after " ++ toString cfg.totalAttempts ++
          " attempts (" ++ toString env.secs ++ "s total)")
        acts := [.ended (taskId, turnId) true] }
    else { shared := s, next := [.awaitTurn taskId turnId chan (attempt + 1)] }
  | .waiting => { shared := s, next := [.awaitTurn taskId turnId chan attempt] }

/-! ## Dispatch -/

/-- The loop over the queue of a type: one round. -/
def dispatchPending (taskType : String) : Out :=
  match s.dispatcher.tryPop taskType with
  | none => { shared := s }
  | some (turn, dispatcher) =>
    { shared := { s with dispatcher }
      next := [.dispatchPopped turn, .dispatchPending taskType]
      acts := [.popped turn.key] }

def dispatchPopped (turn : QueuedTurn) : Out :=
  { shared := { s with dispatchTimes := s.dispatchTimes.insert turn.key env.now }
    next := [.dispatchAttempt
      { taskId := turn.taskId, turnId := turn.turnId, userInput := turn.userInput, redoGroup := turn.redoGroup
        redoCount := turn.redoCount, cachedLlm := turn.cachedLlm, slot := some turn.taskType } 0] }

/-- The end of `dispatch_with_retry` without success. -/
def dispatchFailed (d : Dispatch) (e : AppError) : Out :=
  let msg := (AppError.protocol ("dispatch failed after " ++ toString (max cfg.retryPolicy.maxAttempts 1) ++
    " attempts: " ++ e.display)).display
  let failing := failTaskWithReason d.taskId d.turnId .redoDispatchFailed "redo_dispatch_failed" msg
  match d.slot with
  | some taskType => { shared := s, next := .onTurnTerminal taskType :: failing, acts := [.ended d.key true] }
  | none => { shared := s, next := failing, acts := [.ended d.key false] }

/-- One round of `dispatch_with_retry`. -/
def dispatchAttempt (d : Dispatch) (attempt : Nat) : Out :=
  s.on (dispatchExecuteTurn brokerEventStore d env.context) fun
    | .ok (), s => { shared := s, acts := [.published d.key d.slot.isNone] }
    | .error e, s =>
      if (attempt : Int) + 1 < max cfg.retryPolicy.maxAttempts 1 then
        { shared := s, next := [.dispatchAttempt d (attempt + 1)] }
      else s.dispatchFailed cfg d e

def onTurnTerminal (taskType : String) : Out :=
  { shared := { s with dispatcher := s.dispatcher.onTurnTerminal taskType } }

def releaseSlotAndRedispatch (taskId : String) : Out :=
  s.on (resolveTaskType brokerEventStore taskId) fun
    | .error _, s => { shared := s, acts := [.released taskId none] }
    | .ok taskType, s =>
      { shared := { s with dispatcher := s.dispatcher.onTurnTerminal taskType }
        next := [.dispatchPending taskType]
        acts := [.released taskId (some taskType)] }

/-! ## The end of a turn -/

/-- The retry counter of a turn. -/
def attemptsOf (turn : TurnKey) : Int := (s.retryAttempts.lookup turn).getD 0

def clearRetry (taskId : String) (turnId : Int) : Out :=
  { shared := { s with retryAttempts := s.retryAttempts.erase (taskId, turnId) }
    acts := [.cleared (taskId, turnId) (s.attemptsOf (taskId, turnId))] }

def clearDispatchTime (taskId : String) (turnId : Int) : Out :=
  { shared := { s with dispatchTimes := s.dispatchTimes.erase (taskId, turnId) } }

def writeTurnFailed (taskId : String) (turnId : Int) (errorType errorMessage : String) (reason : FailureReason) : Out :=
  s.calling (.op (.failTurn taskId turnId errorType errorMessage none (some reason))) fun _ s => { shared := s }

def writeTaskFailed (taskId errorType : String) (reason : FailureReason) : Out :=
  s.calling (.op (.failTask taskId (reason.asStr ++ ": " ++ errorType) (some reason))) fun _ s => { shared := s }

def completePendingTurn (taskId : String) (outcome : TurnOutcome) : Out :=
  { shared := { s with registry := s.registry.completePendingTurn taskId outcome } }

def turnExecutionDone (taskId : String) (turnId : Int) (finalOutput : String) : Out :=
  s.calling (.op (.completeTurn taskId turnId finalOutput)) fun
    | .error _, s => { shared := s }
    | .ok (), s =>
      { shared := s
        next := [.clearRetry taskId turnId, .clearDispatchTime taskId turnId, .releaseSlotAndRedispatch taskId,
          .countTurnEvents taskId turnId finalOutput]
        acts := [.ended (taskId, turnId) true] }

def countTurnEvents (taskId : String) (turnId : Int) (finalOutput : String) : Out :=
  s.on (brokerEventStore.getTurnEvents taskId turnId) fun
    | .error _, s => { shared := s }
    | .ok events, s =>
      { shared := s, next := [.completePendingTurn taskId (.completed finalOutput turnId events.length)] }

def turnExecutionError (taskId : String) (turnId : Int) (errorType errorMessage : String) : Out :=
  s.on (brokerEventStore.getTurnEvents taskId turnId) fun
    | .error _, s => { shared := s }
    | .ok events, s =>
      match findTurnStarted events with
      | none =>
        { shared := s
          next := failTaskWithReason taskId turnId (classifyFailure errorType) errorType errorMessage
          acts := [.ended (taskId, turnId) false] }
      | some e =>
        { shared := s
          next := [.decideRetry taskId turnId errorType errorMessage (startedText e "user_input" "")
            (startedText e "redo_group" "unknown")] }

def decideRetry (taskId : String) (turnId : Int) (errorType errorMessage userInput redoGroup : String) : Out :=
  let current := s.attemptsOf (taskId, turnId)
  match cfg.retryPolicy.decide (classifyFailure errorType) current with
  | .retry _ next =>
    { shared := { s with retryAttempts := s.retryAttempts.insert (taskId, turnId) (current + 1) }
      next := [.redispatch { taskId, turnId, userInput, redoGroup, redoCount := next, cachedLlm := [], slot := none }]
      acts := [.retried (taskId, turnId)] }
  | .fail _ _ =>
    { shared := { s with retryAttempts := s.retryAttempts.erase (taskId, turnId) }
      next := failTaskWithReason taskId turnId (classifyFailure errorType) errorType errorMessage ++
        [.releaseSlotAndRedispatch taskId]
      acts := [.cleared (taskId, turnId) current, .ended (taskId, turnId) true] }

def redispatch (d : Dispatch) : Out :=
  s.on (brokerEventStore.getTurnEvents d.taskId d.turnId) fun r s =>
    { shared := s, next := [.dispatchAttempt { d with cachedLlm := getCachedLlmResponses r } 0] }

/-! ## Recovery -/

def recoverTask (taskId : String) : Out :=
  s.on (brokerEventStore.getIncompleteTurns taskId env.turnOrder) fun
    | .error _, s => { shared := s }
    | .ok turns, s => { shared := s, next := [.recoverTurns taskId turns []] }

def recoverTurns (taskId : String) (turns : List IncompleteTurn) (redo : List RedoContext) : Out :=
  match turns with
  | [] => { shared := s, next := [.redoAll taskId redo] }
  | turn :: turns =>
    s.on (recoverTurn brokerEventStore taskId turn env.stepOrder) fun
      | .error _, s => { shared := s }
      | .ok (.safeToRedo _ _ _ _, ctx), s => { shared := s, next := [.recoverTurns taskId turns (redo ++ ctx.toList)] }
      | .ok (.requiresHumanIntervention _ _ blocking, _), s =>
        { shared := s, next := [.skipSteps taskId turn.turnId blocking blocking.length turns redo] }

/-- `skip_non_idempotent_step`, as an operation. -/
def skipStep (taskId : String) (turnId : Int) (step : IncompleteStep) : Op :=
  .recordToolFailed taskId (some turnId) step.stepId
    (((step.payload.get "tool_call_id").bind Json.asStr).getD "unknown")
    "recovery_skipped_non_idempotent" ("Recovery skipped: non-idempotent tool '" ++ step.toolName ++
      "' had an in-flight step at crash time. Requires human review.") (some .applicationError) 1 0

def skipSteps (taskId : String) (turnId : Int) (steps : List IncompleteStep) (blocking : Nat)
    (turns : List IncompleteTurn) (redo : List RedoContext) : Out :=
  match steps with
  | [] => { shared := s, next := [.failBlocked taskId turnId blocking turns redo] }
  | step :: steps =>
    s.calling (.op (skipStep taskId turnId step)) fun
      | .error _, s => { shared := s }
      | .ok (), s => { shared := s, next := [.skipSteps taskId turnId steps blocking turns redo] }

def failBlocked (taskId : String) (turnId : Int) (blocking : Nat) (turns : List IncompleteTurn)
    (redo : List RedoContext) : Out :=
  s.calling (.op (.failTurn taskId turnId "recovery_blocked" ("Recovery blocked: " ++ toString blocking ++
      " non-idempotent step(s) require human intervention") none (some .applicationError))) fun
    | .error _, s => { shared := s }
    | .ok (), s =>
      { shared := s
        next := [.recoverTurns taskId turns redo]
        acts := [.ended (taskId, turnId) false, .recoveryFailed (taskId, turnId)] }

def redoAll (taskId : String) (redo : List RedoContext) : Out :=
  if redo.isEmpty then { shared := s }
  else s.on (resolveTaskType brokerEventStore taskId) fun
    | .error _, s => { shared := s }
    | .ok _, s => { shared := s, next := [.redoTurns taskId redo] }

def redoTurns (taskId : String) (redo : List RedoContext) : Out :=
  match redo with
  | [] => { shared := s }
  | r :: redo =>
    { shared := { s with registry := s.registry.registerPendingTurn taskId r.turnId r.redoGroup }
      next := [.redoCached taskId r s.registry.nextChan redo]
      acts := [.registered (taskId, r.turnId)] }

def redoCached (taskId : String) (r : RedoContext) (chan : Nat) (redo : List RedoContext) : Out :=
  s.on (brokerEventStore.getTurnEvents taskId r.turnId) fun events s =>
    { shared := s, next := [.enqueueRedo taskId r (getCachedLlmResponses events) chan redo] }

def enqueueRedo (taskId : String) (r : RedoContext) (cached : List String) (chan : Nat)
    (redo : List RedoContext) : Out :=
  s.enqueueAndDispatch
    { taskType := "", taskId, turnId := r.turnId, userInput := r.userInput, redoGroup := r.redoGroup
      redoCount := r.redoCount, cachedLlm := cached, priority := 0 }
    (.awaitRedo taskId r.turnId chan 0 redo) fun e =>
    [.giveUpRedo taskId r.turnId "redo_dispatch_failed" e.display redo]

/-- Wait a bit longer for a redone turn, or give it up. -/
def extendRedo (taskId : String) (turnId : Int) (chan attempt : Nat) (redo : List RedoContext) : Out :=
  if attempt + 1 ≥ cfg.totalAttempts then
    { shared := s, next := [.giveUpRedo taskId turnId "redo_timeout" "Redo timed out" redo] }
  else { shared := s, next := [.awaitRedo taskId turnId chan (attempt + 1) redo] }

def awaitRedo (taskId : String) (turnId : Int) (chan attempt : Nat) (redo : List RedoContext) : Out :=
  match s.wait env taskId chan with
  | .outcome (.timeout _) => s.extendRedo cfg taskId turnId chan attempt redo
  | .outcome _ => { shared := s, next := [.redoTurns taskId redo] }
  | .closed =>
    { shared := s, next := [.giveUpRedo taskId turnId "channel_closed" "fixlet connection lost during redo" redo] }
  | .elapsed => s.extendRedo cfg taskId turnId chan attempt redo
  | .waiting => { shared := s, next := [.awaitRedo taskId turnId chan attempt redo] }

/-- The recovery fails a turn that it could not redo, and goes on with the others. -/
def giveUpRedo (taskId : String) (turnId : Int) (errorType errorMessage : String) (redo : List RedoContext) : Out :=
  { shared := s
    next := failTurnAndRespond taskId turnId errorType errorMessage ++ [.redoTurns taskId redo]
    acts := [.ended (taskId, turnId) true, .recoveryFailed (taskId, turnId)] }

/-! ## Watchdog and calls -/

/-- The turns that were dispatched longer ago than the lease. -/
def staleTurns : List TurnKey :=
  let stale := s.dispatchTimes.keys.filter fun turn => cfg.lease < env.now - (s.dispatchTimes.lookup turn).getD 0
  (walk (env.keyOrder.map toLex) (stale.image toLex)).map ofLex

def watchdog : Out := { shared := s, next := [.reclaim (s.staleTurns cfg env)] }

def reclaim (keys : List TurnKey) : Out :=
  match keys with
  | [] => { shared := s }
  | (t, k) :: keys =>
    { shared := { s with dispatchTimes := s.dispatchTimes.insert (t, k) env.now }
      next := [.turnExecutionError t k "agent_unresponsive" "no terminal event within turn_lease", .reclaim keys] }

def call (c : Call) : Out :=
  s.calling c fun
    | .error _, s => { shared := s }
    | .ok (), s => { shared := s, acts := c.endedTurns.map fun turn => .ended turn false }

/-! ## The machine -/

/-- Execute an instruction. -/
def exec : Instr → Out
  | .executeTurn t i rg => s.executeTurn env t i rg
  | .startTurn t i rg => s.startTurn env t i rg
  | .writeTurnStarted t k i rg => s.writeTurnStarted t k i rg
  | .runTurnToCompletion t k i rg => s.runTurnToCompletion t k i rg
  | .registerTurn t k i rg => s.registerTurn t k i rg
  | .enqueueTurn t k i rg chan => s.enqueueTurn t k i rg chan
  | .awaitTurn t k chan attempt => s.awaitTurn cfg env t k chan attempt
  | .dispatchPending tt => s.dispatchPending tt
  | .dispatchPopped turn => s.dispatchPopped env turn
  | .dispatchAttempt d attempt => s.dispatchAttempt cfg env d attempt
  | .onTurnTerminal tt => s.onTurnTerminal tt
  | .releaseSlotAndRedispatch t => s.releaseSlotAndRedispatch t
  | .clearRetry t k => s.clearRetry t k
  | .clearDispatchTime t k => s.clearDispatchTime t k
  | .writeTurnFailed t k et em reason => s.writeTurnFailed t k et em reason
  | .writeTaskFailed t et reason => s.writeTaskFailed t et reason
  | .completePendingTurn t outcome => s.completePendingTurn t outcome
  | .turnExecutionDone t k out => s.turnExecutionDone t k out
  | .countTurnEvents t k out => s.countTurnEvents t k out
  | .turnExecutionError t k et em => s.turnExecutionError t k et em
  | .decideRetry t k et em i rg => s.decideRetry cfg t k et em i rg
  | .redispatch d => s.redispatch d
  | .recoverTask t => s.recoverTask env t
  | .recoverTurns t turns redo => s.recoverTurns env t turns redo
  | .skipSteps t k steps n turns redo => s.skipSteps t k steps n turns redo
  | .failBlocked t k n turns redo => s.failBlocked t k n turns redo
  | .redoAll t redo => s.redoAll t redo
  | .redoTurns t redo => s.redoTurns t redo
  | .redoCached t r chan redo => s.redoCached t r chan redo
  | .enqueueRedo t r cached chan redo => s.enqueueRedo t r cached chan redo
  | .awaitRedo t k chan attempt redo => s.awaitRedo cfg env t k chan attempt redo
  | .giveUpRedo t k et em redo => s.giveUpRedo t k et em redo
  | .watchdog => s.watchdog cfg env
  | .reclaim keys => s.reclaim env keys
  | .call c => s.call c

end Shared

/-- The state of the orchestrator: what the handlers share, their stacks, and the acts so far. -/
abbrev Orchestrator := Tasks Shared Instr Act

abbrev OMove := Move Instr Env

/-- The instructions of the orchestrator, in the form of the library. -/
def execWith (cfg : Config) (env : Env) (s : Shared) (x : Instr) : Out := s.exec cfg env x

/-- A move of the orchestrator. -/
def orchestrate (cfg : Config) (o : Orchestrator) (m : OMove) : Orchestrator := move (execWith cfg) Instr.isEntry o m

/-- The acts of a move. -/
def actsOf (cfg : Config) (o : Orchestrator) (m : OMove) : List Act := acts (execWith cfg) o m

/-- An orchestrator that has just started. -/
def Orchestrator.start (store : BrokerStore) (maxConcurrent : Nat) : Orchestrator :=
  { shared := { store, dispatcher := Dispatcher.new maxConcurrent } }

/-- A task is created and made ready, and a request starts its first turn: the turn is published and awaited. -/
def firstTurn : List OMove :=
  [.enter (.call (.createTask "1" "chat" {} none 0 none)), .exec 0 {}, .enter (.call (.op (.markTaskReady "task_1"))),
    .exec 1 {}, .enter (.executeTurn "task_1" "hi" none)] ++ List.replicate 10 (.exec 2 {})

/-- Something comes in and is worked on by the task with the given number, for so many steps. -/
def handle (x : Instr) (k steps : Nat) : List OMove := .enter x :: List.replicate steps (.exec k {})

end Fixus
