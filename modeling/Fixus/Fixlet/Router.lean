import Fixus.Fixlet.Acp
import Fixus.Fixlet.TurnBegin
import Fixus.Lib.Run

/-!
# The fixlet

One agent process serves all turns. The main loop takes a turn.begin, a line of the agent or its exit, one at a time;
a turn.begin that has asked for a session reads the lines of the agent itself until the session is there.

- `Fixlet`: the variables of the main loop, with what the fixlet has told the orchestrator and the agent;
- `Fixlet.step`: one round of the loop; an input that is not waited for stays where it is;
- `llmInvokedPayload`, `llmCompletedPayload`, `llmFailedPayload`: the reports on the step of a turn.

Every report is taken to be produced. The stream of tokens for the user interface is left out.
-/

namespace Fixus

open Lib

/-! ## State -/

/-- The counter of the reports on a turn. -/
structure LocalSeqCounter where
  current : Int := 0

namespace LocalSeqCounter

def next (c : LocalSeqCounter) : LocalSeqCounter := { current := c.current + 1 }

@[simp] theorem current_next (c : LocalSeqCounter) : c.next.current = c.current + 1 := rfl

end LocalSeqCounter

/-- The turn that the fixlet works on. -/
structure TurnContext where
  taskId : String
  turnId : Int
  redoGroup : String
  redoCount : Int
  localSeq : LocalSeqCounter := {}
  model : String := ""
  stepId : Option String := none

/-- The text of the agent so far. -/
structure MessageAccumulator where
  chunks : List String := []

namespace MessageAccumulator

def append (acc : MessageAccumulator) (chunk : String) : MessageAccumulator := { chunks := acc.chunks ++ [chunk] }

def finalize (acc : MessageAccumulator) : String := String.join acc.chunks

end MessageAccumulator

structure FixletConfig where
  backend : AgentBackend
  agentCwd : Option String := none
  toolsBankUrl : String := "http://127.0.0.1:3001/mcp"
  /-- The text of a JSON value. -/
  render : Json → String

/-- A report to the orchestrator. -/
structure TaskEnd where
  eventType : String
  taskId : String
  payload : Json

/-- A turn.begin that waits for its session. -/
structure Opening where
  turn : ParsedExecuteTurn
  ctx : TurnContext

/-- The fixlet. The handles of the agent process are there together or not at all. -/
structure Fixlet where
  activeTurn : Option TurnContext := none
  agent : Bool := false
  msgAcc : MessageAccumulator := {}
  opening : Option Opening := none
  emitted : List TaskEnd := []
  sent : List Json := []

/-- What the main loop waits for. A line of the agent comes decoded, if it is JSON, and with the identifier that is
generated when it opens a session. -/
inductive Input where
  | turnBegin (payload : Json) (spawned : Bool)
  | line (json : Option Json) (uuid : String)
  | stdoutClosed
  | exit

/-! ## Reports -/

def llmInvokedPayload (taskId : String) (turnId : Int) (stepId model : String) (messages : List Message)
    (localSeq : Int) : Json :=
  .obj [("task_id", .str taskId), ("turn_id", .int turnId), ("step_id", .str stepId), ("model", .str model),
    ("messages", .arr (messages.map Message.toJson)), ("local_seq", .int localSeq), ("event_type", .str "llm_invoked")]

def llmCompletedPayload (taskId : String) (turnId : Int) (stepId model : String) (usage : Option (Int × Int × Int))
    (localSeq : Int) : Json :=
  let (inputTokens, outputTokens, totalTokens) := usage.getD (0, 0, 0)
  .obj [("task_id", .str taskId), ("turn_id", .int turnId), ("step_id", .str stepId), ("model", .str model),
    ("input_tokens", .int inputTokens), ("output_tokens", .int outputTokens), ("total_tokens", .int totalTokens),
    ("local_seq", .int localSeq), ("event_type", .str "llm_completed")]

def llmFailedPayload (taskId : String) (turnId : Int) (stepId errorType errorMessage : String)
    (localSeq : Int) : Json :=
  .obj [("task_id", .str taskId), ("turn_id", .int turnId), ("step_id", .str stepId), ("error_type", .str errorType),
    ("error_message", .str errorMessage), ("local_seq", .int localSeq), ("event_type", .str "llm_failed")]

def turnExecutionDonePayload (taskId : String) (turnId maxLocalSeq : Int) (finalOutput : String) : Json :=
  .obj [("task_id", .str taskId), ("turn_id", .int turnId), ("max_local_seq", .int maxLocalSeq),
    ("final_output", .str finalOutput), ("event_type", .str "turn_execution_done")]

def turnExecutionErrorPayload (taskId : String) (turnId : Int) (errorType errorMessage : String) : Json :=
  .obj [("task_id", .str taskId), ("turn_id", .int turnId), ("error_type", .str errorType),
    ("error_message", .str errorMessage), ("event_type", .str "turn_execution_error")]

namespace TurnContext

variable (ctx : TurnContext)

/-- The reports on a turn. -/
def llmInvoked (stepId : String) (messages : List Message) : TaskEnd :=
  { eventType := "llm_invoked", taskId := ctx.taskId
    payload := llmInvokedPayload ctx.taskId ctx.turnId stepId ctx.model messages ctx.localSeq.current }

def llmCompleted (stepId : String) (usage : Option LlmUsage) : TaskEnd :=
  { eventType := "llm_completed", taskId := ctx.taskId
    payload := llmCompletedPayload ctx.taskId ctx.turnId stepId ctx.model
      (usage.map fun u => (u.inputTokens, u.outputTokens, u.totalTokens)) ctx.localSeq.current }

def llmFailed (stepId errorType errorMessage : String) : TaskEnd :=
  { eventType := "llm_failed", taskId := ctx.taskId
    payload := llmFailedPayload ctx.taskId ctx.turnId stepId errorType errorMessage ctx.localSeq.current }

def turnExecutionDone (finalOutput : String) : TaskEnd :=
  { eventType := "turn_execution_done", taskId := ctx.taskId
    payload := turnExecutionDonePayload ctx.taskId ctx.turnId ctx.localSeq.current finalOutput }

def turnExecutionError (errorType errorMessage : String) : TaskEnd :=
  { eventType := "turn_execution_error", taskId := ctx.taskId
    payload := turnExecutionErrorPayload ctx.taskId ctx.turnId errorType errorMessage }

/-- The context after the next number was taken, if the step has begun. -/
def count : TurnContext := if ctx.stepId.isSome then { ctx with localSeq := ctx.localSeq.next } else ctx

end TurnContext

namespace Fixlet

variable (cfg : FixletConfig) (s : Fixlet)

def emit (reports : List TaskEnd) : Fixlet := { s with emitted := s.emitted ++ reports }

/-! ## A turn begins -/

/-- Ask the agent for a new session; the request is the first one of a client of its own. -/
def openSession (turn : ParsedExecuteTurn) (ctx : TurnContext) : Fixlet :=
  let params := buildSessionNewParams cfg.backend turn.taskId (cfg.agentCwd.getD "/tmp") cfg.toolsBankUrl turn.turnId
    (turn.effectivePolicy.map cfg.render)
  { s with sent := s.sent ++ [buildSessionNewRequest 1 params], opening := some { turn, ctx } }

/-- `handle_execute_turn_from_broker` up to the point where it waits for the session. -/
def executeTurn (payload : Json) (spawned : Bool) : Fixlet :=
  match parseExecuteTurnPayload payload with
  | .error _ => s
  | .ok turn =>
    let ctx : TurnContext :=
      { taskId := turn.taskId, turnId := turn.turnId, redoGroup := turn.redoGroup, redoCount := turn.redoCount }
    let s := { s with msgAcc := {}, activeTurn := some ctx }
    if s.agent then s.openSession cfg turn ctx
    else if spawned then { s with agent := true, sent := s.sent ++ [initializeRequest 1] }.openSession cfg turn ctx
    else s.emit [ctx.turnExecutionError "agent_spawn_failed" "Failed to spawn agent process"]

/-- The input of a turn, with a note when it is done again. -/
def fullInput (turn : ParsedExecuteTurn) : String :=
  turn.userInput ++ if turn.redoCount > 0 then
    "\n[fixus] This is a retry (redo_count=" ++ toString turn.redoCount ++ ", redo_group=" ++ turn.redoGroup ++ ")."
  else ""

/-- The session is there: report the step and send the prompt. -/
def promptSession (w : Opening) (sessionId : String) (result : Json) (uuid : String) : Fixlet :=
  let ctx := { w.ctx with
    model := (cfg.backend.extractModel result).getD "", stepId := some uuid, localSeq := w.ctx.localSeq.next }
  let prompt := buildAcpPrompt w.turn.summary w.turn.messages (fullInput w.turn)
  { s with
    activeTurn := some ctx
    opening := none
    emitted := s.emitted ++ [ctx.llmInvoked uuid w.turn.messages]
    sent := s.sent ++ [sessionPromptRequest 2 sessionId prompt] }

/-- The session in the answer to the first request. -/
def sessionIn (json : Json) : Option String :=
  if (json.get "id").bind Json.asI64 = some 1 then
    ((json.get "result").bind fun r => r.get "sessionId").bind Json.asStr
  else none

/-- A line while a session is awaited: anything but the answer is dropped. -/
def awaitSession (w : Opening) (json : Option Json) (uuid : String) : Fixlet :=
  match json with
  | none => s
  | some v =>
    match sessionIn v with
    | some sessionId => s.promptSession cfg w sessionId (v.index "result") uuid
    | none => s

/-- The agent has closed its output before the session was there. -/
def sessionFailed (w : Opening) : Fixlet :=
  { s with
    agent := false
    opening := none
    emitted := s.emitted ++
      [w.ctx.turnExecutionError "session_create_failed" "Agent closed stdout during session/new"] }

/-! ## The agent speaks -/

/-- The last response: the step is completed, and the turn is done. -/
def finalMessage (ctx : TurnContext) (usage : Option LlmUsage) : Fixlet :=
  let ctx := ctx.count
  { s with
    activeTurn := some ctx
    emitted := s.emitted ++ (ctx.stepId.map fun stepId => ctx.llmCompleted stepId usage).toList ++
      [ctx.turnExecutionDone s.msgAcc.finalize] }

/-- An error: the step has failed. -/
def agentError (ctx : TurnContext) (message : String) : Fixlet :=
  let ctx := ctx.count
  { s with
    activeTurn := some ctx
    emitted := s.emitted ++ (ctx.stepId.map fun stepId => ctx.llmFailed stepId "agent_error" message).toList }

/-- `handle_agent_message`. -/
def handleAgentMessage (ctx : TurnContext) (json : Option Json) : Fixlet :=
  match json.bind parseAcpMessage with
  | none => s
  | some (.messageChunk text) => { s with msgAcc := s.msgAcc.append text }
  | some (.thoughtChunk _) => s
  | some (.toolCall _) => s
  | some (.finalMessage usage) => s.finalMessage ctx usage
  | some (.error message) => s.agentError ctx message
  | some (.other _) => s

/-- The agent process has ended: what is open is closed, and the handles are given up. -/
def agentExited : Fixlet :=
  { s with
    activeTurn := none
    agent := false
    emitted := s.emitted ++ match s.activeTurn with
      | none => []
      | some ctx =>
        (ctx.stepId.map fun stepId =>
          ctx.count.llmFailed stepId "agent_process_exited" "Agent process exited unexpectedly").toList ++
        [ctx.turnExecutionError "agent_process_exited" "Agent process exited unexpectedly"] }

/-! ## The main loop -/

/-- One round of the main loop, or of the wait for a session. -/
def step : Input → Fixlet
  | .turnBegin payload spawned =>
    match s.opening with
    | none => s.executeTurn cfg payload spawned
    | some _ => s
  | .line json uuid =>
    if s.agent then
      match s.opening, s.activeTurn with
      | some w, _ => s.awaitSession cfg w json uuid
      | none, some ctx => s.handleAgentMessage ctx json
      | none, none => s
    else s
  | .stdoutClosed =>
    match s.opening with
    | some w => s.sessionFailed w
    | none => s
  | .exit =>
    match s.opening with
    | none => if s.agent then s.agentExited else s
    | some _ => s

end Fixlet

end Fixus
