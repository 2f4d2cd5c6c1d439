import Fixus.Service

/-!
# The agent protocol

Messages between the fixlet and its agent: JSON-RPC requests one way, lines of JSON the other way. The agent is behind
a backend, which says where the model name is and what else a session needs.

- `parseAcpMessage`: what a line of the agent means; the session that a message belongs to is not looked at;
- `AgentBackend`, `buildSessionNewParams`: the parameters of a new session, with the headers for the tools;
- `buildAcpPrompt`: the prompt of a turn.
-/

namespace Fixus

/-! ## What the agent says -/

/-- The usage in a final response. -/
structure LlmUsage where
  inputTokens : Int
  outputTokens : Int
  totalTokens : Int
  cachedReadTokens : Int
  cachedWriteTokens : Int

def LlmUsage.ofJson (u : Json) : LlmUsage where
  inputTokens := ((u.get "inputTokens").bind Json.asI64).getD 0
  outputTokens := ((u.get "outputTokens").bind Json.asI64).getD 0
  totalTokens := ((u.get "totalTokens").bind Json.asI64).getD 0
  cachedReadTokens := ((u.get "cachedReadTokens").bind Json.asI64).getD 0
  cachedWriteTokens := ((u.get "cachedWriteTokens").bind Json.asI64).getD 0

structure ToolCallEvent where
  sessionId : Option String
  toolCallId : String
  name : String
  arguments : Json

/-- `from_value::<ToolCallEvent>`. -/
def ToolCallEvent.ofJson (v : Json) : Option ToolCallEvent := do
  let sessionId ← match v.get "sessionId" with
    | none | some .null => some none
    | some id => id.asStr.map some
  let toolCallId ← (← v.get "toolCallId").asStr
  let name ← (← v.get "name").asStr
  let arguments ← v.get "arguments"
  return { sessionId, toolCallId, name, arguments }

/-- What a line of the agent means. -/
inductive ParsedAcpEvent where
  | toolCall (call : ToolCallEvent)
  | messageChunk (text : String)
  | thoughtChunk (text : String)
  | finalMessage (usage : Option LlmUsage)
  | error (message : String)
  | other (value : Json)

/-- The text of a chunk. -/
def chunkText (update : Json) : String :=
  (((update.get "content").bind fun c => c.get "text").bind Json.asStr).getD ""

/-- An update of a session: nothing if it has no type, and no event if the type says nothing. -/
def parseSessionUpdate (value : Json) : Option (Option ParsedAcpEvent) := do
  let params ← value.get "params"
  let update ← params.get "update"
  let updateType ← (update.get "sessionUpdate").bind Json.asStr
  match updateType with
  | "agent_message_chunk" => some (some (.messageChunk (chunkText update)))
  | "agent_thought_chunk" => some (some (.thoughtChunk (chunkText update)))
  | "tool_call" | "tool_call_update" => some ((ToolCallEvent.ofJson update).map .toolCall)
  | "available_commands_update" | "usage_update" => some (some (.other value))
  | _ => some none

/-- The reason for which a response says that the agent has stopped. -/
def stopReason (value : Json) : Option String :=
  ((value.get "result").bind fun result => result.get "stopReason").bind Json.asStr

/-- A response, an error or anything else. -/
def parseResponse (value : Json) : ParsedAcpEvent :=
  match value.get "result" with
  | some result =>
    match stopReason value with
    | some "end_turn" => .finalMessage ((result.get "usage").map LlmUsage.ofJson)
    | some "tool_use" => .other value
    | _ => .other value
  | none =>
    match value.get "error" with
    | some error => .error (((error.get "message").bind Json.asStr).getD "Unknown ACP error")
    | none => .other value

/-- The event in a line of the agent. -/
def parseAcpMessage (value : Json) : Option ParsedAcpEvent :=
  match (value.get "method").bind Json.asStr with
  | some "session/update" => (parseSessionUpdate value).map fun event => event.getD (parseResponse value)
  | some "tool_call" =>
    match ToolCallEvent.ofJson ((value.get "params").getD .null) with
    | some call => some (.toolCall call)
    | none => some (parseResponse value)
  | _ => some (parseResponse value)

/-! ## What the fixlet says -/

/-- A JSON-RPC request. -/
def acpRequest (id : Int) (method : String) (params : Json) : Json :=
  .obj [("jsonrpc", .str "2.0"), ("id", .int id), ("method", .str method), ("params", params)]

def initializeRequest (id : Int) : Json :=
  acpRequest id "initialize" (.obj [("protocolVersion", .int 1),
    ("clientInfo", .obj [("name", .str "fixlet"), ("version", .str "0.1.0")]),
    ("capabilities", .obj [("tools", .bool true), ("terminal", .bool true), ("fileSystem", .bool true)])])

/-- A block of text in a prompt. -/
structure PromptBlock where
  text : String

namespace PromptBlock

def user (text : String) : PromptBlock := { text := "user: " ++ text }

def system (text : String) : PromptBlock := { text := "system: " ++ text }

def assistant (text : String) : PromptBlock := { text := "assistant: " ++ text }

def toJson (b : PromptBlock) : Json := .obj [("type", .str "text"), ("text", .str b.text)]

end PromptBlock

/-- A message of the past in a prompt; messages of other roles are left out. -/
def promptOfMessage (m : Message) : List PromptBlock :=
  match m.role with
  | "user" => [.user m.content]
  | "assistant" => [.assistant m.content]
  | "tool" => [.system ("[tool result] " ++ m.content)]
  | _ => []

/-- The prompt of a turn: the summary, the past and the input. -/
def buildAcpPrompt (summary : String) (messages : List Message) (userInput : String) : List PromptBlock :=
  (if summary.isEmpty then [] else [.system ("Previous conversation summary:\n" ++ summary)]) ++
    messages.flatMap promptOfMessage ++ [.user userInput]

def sessionPromptRequest (id : Int) (sessionId : String) (prompt : List PromptBlock) : Json :=
  acpRequest id "session/prompt" (.obj [("sessionId", .str sessionId), ("prompt", .arr (prompt.map PromptBlock.toJson)),
    ("tools", .arr [])])

/-! ## Backends -/

/-- What depends on the kind of agent. -/
structure AgentBackend where
  name : String
  sessionNewExtra : Json := .null
  extractModel : Json → Option String

/-- The tools of the agent itself, which are taken away from it. -/
def nativeClaudeTools : List String :=
  ["Bash", "Read", "Write", "Edit", "MultiEdit", "Glob", "Grep", "NotebookEdit", "TodoWrite", "WebSearch", "WebFetch",
    "Task", "Agent", "BashOutput", "KillShell", "ExitPlanMode"]

def claudeCodeBackend : AgentBackend where
  name := "claude-code"
  sessionNewExtra := .obj [("_meta", .obj [("claudeCode", .obj [("options",
    .obj [("disallowedTools", .arr (nativeClaudeTools.map .str))])])])]
  extractModel := fun r => ((r.get "models").bind fun m => m.get "currentModelId").bind Json.asStr

/-- The string at a dotted path. -/
def jsonPathStr (value : Json) (path : String) : Option String :=
  ((path.splitOn ".").foldlM Json.get value).bind Json.asStr

def genericAcpBackend (modelPath : String) : AgentBackend where
  name := "generic"
  extractModel := fun r => jsonPathStr r modelPath

/-- The backend of a name; all others are the one for Claude Code. -/
def selectBackend (name modelPath : String) : AgentBackend :=
  match name with
  | "generic" => genericAcpBackend modelPath
  | _ => claudeCodeBackend

/-- The fields of an object; the other values have none. -/
def Json.fields : Json → List (String × Json)
  | .obj fields => fields
  | _ => []

/-- A header for the server of the tools. -/
def headerJson (name value : String) : Json := .obj [("name", .str name), ("value", .str value)]

/-- The parameters of a new session; those of the backend come over the common ones. -/
def buildSessionNewParams (backend : AgentBackend) (taskId cwd toolsBankUrl : String) (turnId : Int)
    (effectivePolicy : Option String) : Json :=
  let headers := [headerJson "X-Fixus-Session-Id" taskId, headerJson "X-Fixus-Turn-Id" (toString turnId)] ++
    (effectivePolicy.map (headerJson "X-Fixus-Policy")).toList
  let params := [("cwd", .str cwd), ("mcpServers", .arr [.obj [("type", .str "http"), ("name", .str "fixus"),
    ("url", .str toolsBankUrl), ("headers", .arr headers)]])]
  .obj (backend.sessionNewExtra.fields.foldl (fun params (key, v) => Json.setField params key v) params)

def buildSessionNewRequest (id : Int) (params : Json) : Json := acpRequest id "session/new" params

end Fixus
