import Fixus.Fixlet.Router

/-!
# How a turn is closed

Once the step of a turn was reported, a message of the agent can close it: the answer to the prompt, an error, or the
exit of the process.

- `Prompted`: the fixlet right after it has reported a step, or between two messages of the agent;
- `Prompted.step`: what one message makes the fixlet report;
- `counts_run`: how often step and turn are closed, by any messages;
- `closesOnce_iff`: both are closed once exactly if the turn is ended by one message, and no error comes;
- `error_leaves_turn_open`: after an error the turn stays open.
-/

namespace Fixus

open Lib

/-! ## Closing messages and closing reports -/

inductive ClosingKind where
  | final | otherStop | error | exit
  deriving DecidableEq

/-- The answer to the prompt, by its number or by its stop reason. -/
def answersPrompt (v : Json) : Bool :=
  (v.get "result").isSome && (decide ((v.get "id").bind Json.asI64 = some 2) || (stopReason v).isSome)

namespace Input

/-- The kind of a message that closes a turn. -/
def closing : Input → Option ClosingKind
  | line json _ =>
    match json.bind parseAcpMessage with
    | some (.finalMessage _) => some .final
    | some (.error _) => some .error
    | some (.other v) => if answersPrompt v then some .otherStop else none
    | _ => none
  | exit => some .exit
  | _ => none

/-- The text in a message. -/
def chunk : Input → Option String
  | line json _ =>
    match json.bind parseAcpMessage with
    | some (.messageChunk text) => some text
    | _ => none
  | _ => none

/-- The usage in a message. -/
def usage : Input → Option LlmUsage
  | line json _ =>
    match json.bind parseAcpMessage with
    | some (.finalMessage usage) => usage
    | _ => none
  | _ => none

/-- The message comes from the agent. -/
def fromAgent : Input → Bool
  | turnBegin _ _ => false
  | _ => true

/-- The message ends a turn. -/
def endsTurn (m : Input) : Bool := m.closing = some .final || m.closing = some .exit

/-- The message closes a step. -/
def closesStep (m : Input) : Bool := m.endsTurn || m.closing = some .error

/-- What is seen of the messages: nothing comes after the exit. -/
def seen : List Input → List Input
  | [] => []
  | exit :: _ => [exit]
  | m :: ms => m :: seen ms

end Input

namespace TaskEnd

variable (r : TaskEnd)

/-- A field of a report that is an integer. -/
def intField (key : String) : Option Int :=
  match r.payload.get key with
  | some (.int n) => some n
  | _ => none

def strField (key : String) : Option String := (r.payload.get key).bind Json.asStr

/-- The number of a report among those on its turn. -/
def localSeq : Option Int := r.intField "local_seq"

/-- The report closes the step. -/
def closesStep (stepId : String) : Bool :=
  (r.eventType = "llm_completed" || r.eventType = "llm_failed") && r.strField "step_id" = some stepId

/-- The report closes the turn. -/
def closesTurn (taskId : String) (turnId : Int) : Bool :=
  (r.eventType = "turn_execution_done" || r.eventType = "turn_execution_error") &&
    r.strField "task_id" = some taskId && r.intField "turn_id" = some turnId

end TaskEnd

/-- The fixlet has reported the step of the turn and listens to the agent. -/
structure Prompted (s : Fixlet) (ctx : TurnContext) (stepId : String) : Prop where
  agent : s.agent = true
  opening : s.opening = none
  active : s.activeTurn = some ctx
  step : ctx.stepId = some stepId

/-- The reports that come after those of a state. -/
def reportsSince (s s' : Fixlet) : List TaskEnd := s'.emitted.drop s.emitted.length

theorem reportsSince_eq {s s' : Fixlet} {reports : List TaskEnd} (h : s'.emitted = s.emitted ++ reports) :
    reportsSince s s' = reports := by
  unfold reportsSince
  rw [h, List.drop_left]

/-- Once a closing message was seen, step and turn have been closed once, and the reports are numbered in order. -/
def ClosesOnce (cfg : FixletConfig) (s : Fixlet) (ctx : TurnContext) (stepId : String) (ms : List Input) : Prop :=
  let reports := reportsSince s (run (Fixlet.step cfg) s ms)
  (∃ m ∈ Input.seen ms, m.closing ≠ none) →
    reports.countP (TaskEnd.closesStep · stepId) = 1 ∧ reports.countP (TaskEnd.closesTurn · ctx.taskId ctx.turnId) = 1 ∧
      (ctx.localSeq.current :: reports.filterMap TaskEnd.localSeq).Pairwise (· < ·)

/-- If a closing message is seen at all, one message ends the turn, and no error is seen. -/
def ClosedByOne (ms : List Input) : Prop :=
  (∀ m ∈ Input.seen ms, m.closing = none) ∨
    ((Input.seen ms).countP Input.endsTurn = 1 ∧ ∀ m ∈ Input.seen ms, m.closing ≠ some .error)

/-! ## One message -/

variable {cfg : FixletConfig} {s : Fixlet} {ctx : TurnContext} {stepId : String}

/-- **Every report on a step is followed by a state in which the fixlet listens to the agent.** -/
theorem prompted_promptSession (hs : s.agent = true) (w : Opening) (sessionId : String) (result : Json)
    (uuid : String) :
    ∃ ctx, Prompted (s.promptSession cfg w sessionId result uuid) ctx uuid ∧
      (s.promptSession cfg w sessionId result uuid).emitted = s.emitted ++ [ctx.llmInvoked uuid w.turn.messages] :=
  ⟨_, ⟨hs, rfl, rfl, rfl⟩, rfl⟩

/-- What a message of the agent makes the fixlet report. -/
inductive Reports (s : Fixlet) (ctx : TurnContext) (stepId : String) : Input → Fixlet → Prop
  | none {m s'} (h : m.closesStep = false) (hp : Prompted s' ctx stepId) (he : s'.emitted = s.emitted)
      (ha : s'.msgAcc.chunks = s.msgAcc.chunks ++ m.chunk.toList) : Reports s ctx stepId m s'
  | final {m s'} (h : m.closing = some .final) (hp : Prompted s' ctx.count stepId)
      (he : s'.emitted = s.emitted ++
        [ctx.count.llmCompleted stepId m.usage, ctx.count.turnExecutionDone s.msgAcc.finalize])
      (ha : s'.msgAcc.chunks = s.msgAcc.chunks ++ m.chunk.toList) : Reports s ctx stepId m s'
  | error {m s'} (message) (h : m.closing = some .error) (hp : Prompted s' ctx.count stepId)
      (he : s'.emitted = s.emitted ++ [ctx.count.llmFailed stepId "agent_error" message])
      (ha : s'.msgAcc.chunks = s.msgAcc.chunks ++ m.chunk.toList) : Reports s ctx stepId m s'
  | exit {s'} (t e) (hg : s'.agent = false) (ho : s'.opening = Option.none)
      (he : s'.emitted = s.emitted ++ [ctx.count.llmFailed stepId t e, ctx.turnExecutionError t e]) :
      Reports s ctx stepId .exit s'

theorem Prompted.count (h : Prompted s ctx stepId) : ctx.count.stepId = some stepId := by
  simp [TurnContext.count, h.step]

variable (cfg) in
/-- **One message of the agent.** -/
theorem Prompted.reports (h : Prompted s ctx stepId) {m : Input} (hm : m.fromAgent = true) :
    Reports s ctx stepId m (s.step cfg m) := by
  cases m with
  | turnBegin payload spawned => cases hm
  | stdoutClosed =>
    have hstep : s.step cfg .stdoutClosed = s := by simp [Fixlet.step, h.opening]
    rw [hstep]
    exact .none rfl h rfl (List.append_nil _).symm
  | exit =>
    have hstep : s.step cfg .exit = s.agentExited := by simp [Fixlet.step, h.opening, h.agent]
    rw [hstep]
    exact .exit "agent_process_exited" "Agent process exited unexpectedly" rfl h.opening
      (by simp [Fixlet.agentExited, h.active, h.step])
  | line json uuid =>
    have hstep : s.step cfg (.line json uuid) = s.handleAgentMessage ctx json := by
      simp [Fixlet.step, h.opening, h.agent, h.active]
    rw [hstep]
    unfold Fixlet.handleAgentMessage
    cases hp : json.bind parseAcpMessage with
    | none =>
      exact .none (by simp [Input.closesStep, Input.endsTurn, Input.closing, hp]) h rfl (by simp [Input.chunk, hp])
    | some event =>
      cases event with
      | messageChunk text =>
        refine .none ?_ ⟨h.agent, h.opening, h.active, h.step⟩ rfl ?_
        · simp [Input.closesStep, Input.endsTurn, Input.closing, hp]
        · simp [Input.chunk, hp, MessageAccumulator.append]
      | thoughtChunk text =>
        exact .none (by simp [Input.closesStep, Input.endsTurn, Input.closing, hp]) h rfl (by simp [Input.chunk, hp])
      | toolCall call =>
        exact .none (by simp [Input.closesStep, Input.endsTurn, Input.closing, hp]) h rfl (by simp [Input.chunk, hp])
      | other v =>
        refine .none ?_ h rfl (by simp [Input.chunk, hp])
        simp only [Input.closesStep, Input.endsTurn, Input.closing, hp]
        split <;> rfl
      | finalMessage usage =>
        refine .final (by simp [Input.closing, hp]) ⟨h.agent, h.opening, rfl, h.count⟩ ?_ ?_
        · simp [Fixlet.finalMessage, h.count, Input.usage, hp]
        · simp [Fixlet.finalMessage, Input.chunk, hp]
      | error message =>
        refine .error message (by simp [Input.closing, hp]) ⟨h.agent, h.opening, rfl, h.count⟩ ?_ ?_
        · simp [Fixlet.agentError, h.count]
        · simp [Fixlet.agentError, Input.chunk, hp]

@[simp] theorem count_taskId (ctx : TurnContext) : ctx.count.taskId = ctx.taskId := by
  unfold TurnContext.count
  split <;> rfl

@[simp] theorem count_turnId (ctx : TurnContext) : ctx.count.turnId = ctx.turnId := by
  unfold TurnContext.count
  split <;> rfl

theorem Prompted.count_localSeq (h : Prompted s ctx stepId) :
    ctx.count.localSeq.current = ctx.localSeq.current + 1 := by
  simp [TurnContext.count, h.step]

/-- The report closes the step of the turn, closes the turn, and has the number, as said. -/
def ReadsAs (r : TaskEnd) (ctx : TurnContext) (stepId : String) (step turn : Bool) (number : Option Int) : Prop :=
  r.closesStep stepId = step ∧ r.closesTurn ctx.taskId ctx.turnId = turn ∧ r.localSeq = number

theorem readsAs_llmCompleted (ctx : TurnContext) (stepId : String) (usage : Option LlmUsage) :
    ReadsAs (ctx.llmCompleted stepId usage) ctx stepId true false (some ctx.localSeq.current) := by
  refine ⟨?_, rfl, rfl⟩
  simp [TaskEnd.closesStep, TaskEnd.strField, TurnContext.llmCompleted, llmCompletedPayload, Json.get,
    Json.getField, Json.asStr]

theorem readsAs_llmFailed (ctx : TurnContext) (stepId errorType errorMessage : String) :
    ReadsAs (ctx.llmFailed stepId errorType errorMessage) ctx stepId true false (some ctx.localSeq.current) := by
  refine ⟨?_, rfl, rfl⟩
  simp [TaskEnd.closesStep, TaskEnd.strField, TurnContext.llmFailed, llmFailedPayload, Json.get,
    Json.getField, Json.asStr]

theorem readsAs_turnExecutionDone (ctx : TurnContext) (stepId text : String) :
    ReadsAs (ctx.turnExecutionDone text) ctx stepId false true none := by
  refine ⟨rfl, ?_, rfl⟩
  simp [TaskEnd.closesTurn, TaskEnd.strField, TaskEnd.intField, TurnContext.turnExecutionDone, turnExecutionDonePayload,
    Json.get, Json.getField, Json.asStr]

theorem readsAs_turnExecutionError (ctx : TurnContext) (stepId errorType errorMessage : String) :
    ReadsAs (ctx.turnExecutionError errorType errorMessage) ctx stepId false true none := by
  refine ⟨rfl, ?_, rfl⟩
  simp [TaskEnd.closesTurn, TaskEnd.strField, TaskEnd.intField, TurnContext.turnExecutionError,
    turnExecutionErrorPayload,
    Json.get, Json.getField, Json.asStr]

/-- Some reports close step and turn as often as a message does, and are numbered from one context to the next. -/
structure Adds (ctx ctx' : TurnContext) (stepId : String) (m : Input) (reports : List TaskEnd) : Prop where
  taskId : ctx'.taskId = ctx.taskId
  turnId : ctx'.turnId = ctx.turnId
  step : reports.countP (TaskEnd.closesStep · stepId) = if m.closesStep then 1 else 0
  turn : reports.countP (TaskEnd.closesTurn · ctx.taskId ctx.turnId) = if m.endsTurn then 1 else 0
  numbers : reports.filterMap TaskEnd.localSeq = [] ∧ ctx'.localSeq.current = ctx.localSeq.current ∨
    reports.filterMap TaskEnd.localSeq = [ctx'.localSeq.current] ∧ ctx.localSeq.current < ctx'.localSeq.current

variable (cfg) in
/-- What one message adds to the reports. -/
theorem Prompted.adds (h : Prompted s ctx stepId) {m : Input} (hm : m.fromAgent = true) :
    ∃ ctx' reports, (s.step cfg m).emitted = s.emitted ++ reports ∧ Adds ctx ctx' stepId m reports ∧
      (m ≠ .exit ∧ Prompted (s.step cfg m) ctx' stepId ∨
        m = .exit ∧ (s.step cfg m).agent = false ∧ (s.step cfg m).opening = none) := by
  have hnext : ctx.localSeq.current < ctx.count.localSeq.current := by
    rw [h.count_localSeq]
    omega
  cases h.reports cfg hm with
  | none hno hp he ha =>
    have hends : m.endsTurn = false := (Bool.or_eq_false_iff.mp hno).1
    have hexit : m ≠ .exit := fun hx => by rw [hx] at hno; cases hno
    exact ⟨ctx, [], by simpa using he, ⟨rfl, rfl, by simp [hno], by simp [hends], Or.inl ⟨rfl, rfl⟩⟩,
      Or.inl ⟨hexit, hp⟩⟩
  | final hclosing hp he ha =>
    obtain ⟨hs, ht, hn⟩ := readsAs_llmCompleted ctx.count stepId m.usage
    obtain ⟨hs', ht', hn'⟩ := readsAs_turnExecutionDone ctx.count stepId s.msgAcc.finalize
    rw [count_taskId, count_turnId] at ht ht'
    have hexit : m ≠ .exit := fun hx => by rw [hx] at hclosing; cases hclosing
    refine ⟨ctx.count, _, he, ⟨count_taskId ctx, count_turnId ctx, ?_, ?_, Or.inr ⟨?_, hnext⟩⟩, Or.inl ⟨hexit, hp⟩⟩
    · simp [hs, hs', Input.closesStep, Input.endsTurn, hclosing]
    · simp [ht, ht', Input.endsTurn, hclosing]
    · simp [hn, hn']
  | error message hclosing hp he ha =>
    obtain ⟨hs, ht, hn⟩ := readsAs_llmFailed ctx.count stepId "agent_error" message
    rw [count_taskId, count_turnId] at ht
    have hexit : m ≠ .exit := fun hx => by rw [hx] at hclosing; cases hclosing
    refine ⟨ctx.count, _, he, ⟨count_taskId ctx, count_turnId ctx, ?_, ?_, Or.inr ⟨?_, hnext⟩⟩, Or.inl ⟨hexit, hp⟩⟩
    · simp [hs, Input.closesStep, hclosing]
    · simp [ht, Input.endsTurn, hclosing]
    · simp [hn]
  | exit t e hg ho he =>
    obtain ⟨hs, ht, hn⟩ := readsAs_llmFailed ctx.count stepId t e
    obtain ⟨hs', ht', hn'⟩ := readsAs_turnExecutionError ctx stepId t e
    rw [count_taskId, count_turnId] at ht
    refine ⟨ctx.count, _, he, ⟨count_taskId ctx, count_turnId ctx, ?_, ?_, Or.inr ⟨?_, hnext⟩⟩, Or.inr ⟨rfl, hg, ho⟩⟩
    · simp [hs, hs', Input.closesStep, Input.endsTurn, Input.closing]
    · simp [ht, ht', Input.endsTurn, Input.closing]
    · simp [hn, hn']

/-! ## Any messages -/

/-- Without a process nothing is reported. -/
theorem exited_step (hg : s.agent = false) (ho : s.opening = none) {m : Input} (hm : m.fromAgent = true) :
    s.step cfg m = s := by
  cases m with
  | turnBegin payload spawned => cases hm
  | line json uuid => simp [Fixlet.step, hg]
  | stdoutClosed => simp [Fixlet.step, ho]
  | exit => simp [Fixlet.step, hg, ho]

theorem exited_run (hg : s.agent = false) (ho : s.opening = none) {ms : List Input}
    (hms : ∀ m ∈ ms, m.fromAgent = true) :
    run (Fixlet.step cfg) s ms = s := by
  induction ms with
  | nil => rfl
  | cons m ms ih =>
    rw [run_cons, exited_step hg ho (hms m List.mem_cons_self)]
    exact ih fun m' hm' => hms m' (List.mem_cons_of_mem _ hm')

/-- How a run of messages closes step and turn. -/
structure Counts (ctx : TurnContext) (stepId : String) (seen : List Input) (reports : List TaskEnd) : Prop where
  step : reports.countP (TaskEnd.closesStep · stepId) = seen.countP Input.closesStep
  turn : reports.countP (TaskEnd.closesTurn · ctx.taskId ctx.turnId) = seen.countP Input.endsTurn
  numbered : (ctx.localSeq.current :: reports.filterMap TaskEnd.localSeq).Pairwise (· < ·)

theorem Counts.nil (ctx : TurnContext) (stepId : String) : Counts ctx stepId [] [] :=
  ⟨rfl, rfl, List.pairwise_singleton _ _⟩

/-- The reports on a message come before those on the later ones. -/
theorem Counts.cons {ctx' : TurnContext} {m : Input} {seen : List Input} {reports reports' : List TaskEnd}
    (h : Counts ctx' stepId seen reports') (ha : Adds ctx ctx' stepId m reports) :
    Counts ctx stepId (m :: seen) (reports ++ reports') := by
  have hturn := h.turn
  rw [ha.taskId, ha.turnId] at hturn
  refine ⟨?_, ?_, ?_⟩
  · rw [List.countP_append, List.countP_cons, ha.step, h.step, Nat.add_comm]
  · rw [List.countP_append, List.countP_cons, ha.turn, hturn, Nat.add_comm]
  · rw [List.filterMap_append]
    obtain ⟨hlt, hrest⟩ := List.pairwise_cons.mp h.numbered
    rcases ha.numbers with ⟨hnone, heq⟩ | ⟨hone, hnext⟩
    · rw [hnone, List.nil_append, ← heq]
      exact h.numbered
    · rw [hone, List.singleton_append, List.pairwise_cons]
      refine ⟨fun n hn => ?_, h.numbered⟩
      rcases List.mem_cons.mp hn with rfl | hn
      · exact hnext
      · exact lt_trans hnext (hlt n hn)

theorem seen_cons {m : Input} (hm : m ≠ .exit) (ms : List Input) : Input.seen (m :: ms) = m :: Input.seen ms := by
  cases m <;> first | rfl | exact absurd rfl hm

variable (cfg) in
/-- **The closing reports of a run are those of the closing messages that are seen.** -/
theorem counts_run (h : Prompted s ctx stepId) {ms : List Input} (hms : ∀ m ∈ ms, m.fromAgent = true) :
    ∃ reports, (run (Fixlet.step cfg) s ms).emitted = s.emitted ++ reports ∧
      Counts ctx stepId (Input.seen ms) reports := by
  induction ms generalizing s ctx with
  | nil => exact ⟨[], by simp, Counts.nil ctx stepId⟩
  | cons m ms ih =>
    have hrest : ∀ m ∈ ms, m.fromAgent = true := fun m' hm' => hms m' (List.mem_cons_of_mem _ hm')
    obtain ⟨ctx', new, he, ha, ⟨hm, hp⟩ | ⟨rfl, hg, ho⟩⟩ := h.adds cfg (hms m List.mem_cons_self)
    · obtain ⟨reports, hr, hc⟩ := ih hp hrest
      refine ⟨new ++ reports, ?_, ?_⟩
      · rw [run_cons, hr, he, List.append_assoc]
      · rw [seen_cons hm]
        exact hc.cons ha
    · refine ⟨new ++ [], ?_, (Counts.nil ctx' stepId).cons ha⟩
      rw [run_cons, exited_run hg ho hrest, he, List.append_nil]

/-- A step is closed by a message that ends the turn, or by an error. -/
theorem countP_closesStep (ms : List Input) :
    ms.countP Input.closesStep = ms.countP Input.endsTurn + ms.countP fun m => m.closing = some .error := by
  induction ms with
  | nil => rfl
  | cons m ms ih =>
    have hnot : m.endsTurn = true → m.closing ≠ some .error := by
      intro ht he
      simp [Input.endsTurn, he] at ht
    rw [List.countP_cons, List.countP_cons, List.countP_cons, ih]
    by_cases he : m.closing = some .error
    · have ht : m.endsTurn = false := Bool.eq_false_iff.mpr fun ht => hnot ht he
      simp [Input.closesStep, he, ht]
      omega
    · cases ht : m.endsTurn <;> simp [Input.closesStep, he, ht]
      omega

/-- **Step and turn are closed once exactly if one message ends the turn and no error comes**, as soon as a closing
message is seen. -/
theorem closesOnce_iff (h : Prompted s ctx stepId) {ms : List Input} (hms : ∀ m ∈ ms, m.fromAgent = true) :
    ClosesOnce cfg s ctx stepId ms ↔ ClosedByOne ms := by
  obtain ⟨reports, hr, hc⟩ := counts_run cfg h hms
  have hsince := reportsSince_eq hr
  have herrors := countP_closesStep (Input.seen ms)
  unfold ClosesOnce ClosedByOne
  rw [hsince]
  dsimp only
  rw [hc.step, hc.turn]
  constructor
  · intro hall
    by_cases hseen : ∃ m ∈ Input.seen ms, m.closing ≠ none
    · obtain ⟨hstep, hturn, -⟩ := hall hseen
      have hzero : (Input.seen ms).countP (fun m => m.closing = some .error) = 0 := by omega
      exact Or.inr ⟨hturn, fun m hm he => List.countP_eq_zero.mp hzero m hm (decide_eq_true he)⟩
    · exact Or.inl fun m hm => by_contra fun hne => hseen ⟨m, hm, hne⟩
  · rintro (hnone | ⟨hturn, hno⟩) ⟨m, hm, hne⟩
    · exact absurd (hnone m hm) hne
    · have hzero : (Input.seen ms).countP (fun m => m.closing = some .error) = 0 :=
        List.countP_eq_zero.mpr fun m hm he => hno m hm (of_decide_eq_true he)
      exact ⟨by omega, hturn, hc.numbered⟩

/-- A fixlet of the default backend, for turns without a policy. -/
def plainConfig : FixletConfig := { backend := claudeCodeBackend, render := fun _ => "null" }

/-- A first turn begins, and the agent opens a session for it. -/
def firstPrompt : List Input :=
  [.turnBegin (buildTurnBeginPayload "task_1" 1 "hi" {} "rg_1" 0 none) true,
    .line (some (.obj [("id", .int 1), ("result", .obj [("sessionId", .str "s1")])])) "step_1"]

def firstContext : TurnContext :=
  { taskId := "task_1", turnId := 1, redoGroup := "rg_1", redoCount := 0, localSeq := { current := 1 }
    stepId := some "step_1" }

/-- The agent answers the prompt. -/
def answer (stopReason : String) : Input :=
  .line (some (.obj [("id", .int 2), ("result", .obj [("stopReason", .str stopReason)])])) ""

/-- The agent reports an error. -/
def overloaded : Input := .line (some (.obj [("id", .int 2), ("error", .obj [("message", .str "overloaded")])])) ""

theorem firstPrompt_prompted : Prompted (run (Fixlet.step plainConfig) {} firstPrompt) firstContext "step_1" :=
  ⟨rfl, rfl, rfl, rfl⟩

/-- An update in the session of the first turn. -/
def sessionUpdate (kind : String) (fields : List (String × Json)) : Input :=
  .line (some (.obj [("method", .str "session/update"), ("params", .obj [("sessionId", .str "s1"),
    ("update", .obj (("sessionUpdate", .str kind) :: fields))])])) ""

/-- The agent thinks and speaks, a line of it cannot be read, it calls a tool and goes on; after its answer comes one
more update. -/
def wholeTurn : List Input :=
  [sessionUpdate "agent_thought_chunk" [("content", .obj [("text", .str "a file")])],
    sessionUpdate "agent_message_chunk" [("content", .obj [("text", .str "It ")])], .line none "",
    sessionUpdate "tool_call" [("toolCallId", .str "call_1"), ("title", .str "read"), ("rawInput", .obj [])],
    sessionUpdate "agent_message_chunk" [("content", .obj [("text", .str "says no.")])], answer "end_turn",
    sessionUpdate "usage_update" []]

/-- An answer closes the first turn, whatever the agent says around it. -/
theorem closesOnce_answer :
    let s := run (Fixlet.step plainConfig) {} firstPrompt
    ClosesOnce plainConfig s firstContext "step_1" wholeTurn ∧
      (∃ m ∈ Input.seen wholeTurn, m.closing ≠ none) ∧
      (run (Fixlet.step plainConfig) s wholeTurn).emitted.map TaskEnd.eventType =
        ["llm_invoked", "llm_completed", "turn_execution_done"] :=
  ⟨(closesOnce_iff firstPrompt_prompted (by decide)).mpr (Or.inr (by decide)), by decide, by decide⟩

/-- After an error, or an answer of another kind, the turn stays open; after an answer and the exit it is closed
twice. -/
theorem error_leaves_turn_open :
    let s := run (Fixlet.step plainConfig) {} firstPrompt
    ¬ ClosesOnce plainConfig s firstContext "step_1" [overloaded] ∧
      ¬ ClosesOnce plainConfig s firstContext "step_1" [answer "max_tokens"] ∧
      ¬ ClosesOnce plainConfig s firstContext "step_1" [answer "end_turn", .exit] := by
  refine ⟨fun h => ?_, fun h => ?_, fun h => ?_⟩
  · exact absurd (h ⟨overloaded, List.mem_cons_self, nofun⟩).2.1 (by decide)
  · exact absurd (h ⟨answer "max_tokens", List.mem_cons_self, nofun⟩).2.1 (by decide)
  · exact absurd (h ⟨.exit, by simp [Input.seen, answer], nofun⟩).2.1 (by decide)

end Fixus
