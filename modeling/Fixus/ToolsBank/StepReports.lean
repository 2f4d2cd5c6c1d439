import Fixus.Data.SerdeJson
import Fixus.Fixlet.Router
import Fixus.Orchestrator.TaskEnd
import Fixus.Policy.Text

/-!
# Reports on steps

The fixlet reports on the calls of the LLM and the tools bank on those of the tools, as JSON on the stream `task-end`,
and the consumer of the stream makes events of the reports. Six builders, one reader.

- `toolInvokedPayload`, `toolCompletedPayload`, `toolFailedPayload`: the builders of the tools bank;
- `StepReport`: a report of either, with what was put in;
- `report_arrives`: what is read back from the text of a report becomes an event with everything that was put in;
- `readsBack_of_shallow`: reports are read back if they hold no floats and do not nest too deep;
- `deep_report_lost`: a result nested 127 levels deep is lost on the way.
-/

namespace Fixus

open Lib

/-! ## The builders of the tools bank -/

def toolInvokedPayload (taskId : String) (turnId : Option Int) (stepId toolName toolCallId idempotencyKey : String)
    (input : Json) (localSeq : Int) : Json :=
  (Json.obj [("task_id", .str taskId), ("step_id", .str stepId), ("tool_name", .str toolName),
    ("tool_call_id", .str toolCallId), ("idempotency_key", .str idempotencyKey), ("input", input),
    ("local_seq", .int localSeq), ("event_type", .str "tool_invoked")]).setOpt "turn_id" (turnId.map .int)

def toolCompletedPayload (taskId : String) (turnId : Option Int) (stepId toolCallId : String) (output : Json)
    (isError : Bool) (localSeq : Int) : Json :=
  (Json.obj [("task_id", .str taskId), ("step_id", .str stepId), ("tool_call_id", .str toolCallId), ("output", output),
    ("is_error", .bool isError), ("local_seq", .int localSeq), ("event_type", .str "tool_completed")]).setOpt "turn_id"
      (turnId.map .int)

def toolFailedPayload (taskId : String) (turnId : Option Int) (stepId toolCallId errorType errorMessage : String)
    (localSeq : Int) : Json :=
  (Json.obj [("task_id", .str taskId), ("step_id", .str stepId), ("tool_call_id", .str toolCallId),
    ("error_type", .str errorType), ("error_message", .str errorMessage), ("local_seq", .int localSeq),
    ("event_type", .str "tool_failed")]).setOpt "turn_id" (turnId.map .int)

/-! ## Reports -/

/-- What a step has come to. -/
inductive StepBody where
  | llmInvoked (turnId : Int) (model : String) (messages : List Message)
  | llmCompleted (turnId : Int) (model : String) (usage : Option (Int × Int × Int))
  | llmFailed (turnId : Int) (errorType errorMessage : String)
  | toolInvoked (turnId : Option Int) (toolName toolCallId idempotencyKey : String) (input : Json)
  | toolCompleted (turnId : Option Int) (toolCallId : String) (output : Json) (isError : Bool)
  | toolFailed (turnId : Option Int) (toolCallId errorType errorMessage : String)

structure StepReport where
  taskId : String
  stepId : String
  localSeq : Int
  body : StepBody

namespace StepReport

variable (r : StepReport)

def eventType : EventType :=
  match r.body with
  | .llmInvoked .. => .llmInvoked
  | .llmCompleted .. => .llmCompleted
  | .llmFailed .. => .llmFailed
  | .toolInvoked .. => .toolInvoked
  | .toolCompleted .. => .toolCompleted
  | .toolFailed .. => .toolFailed

def turnId : Option Int :=
  match r.body with
  | .llmInvoked k _ _ | .llmCompleted k _ _ | .llmFailed k _ _ => some k
  | .toolInvoked k _ _ _ _ | .toolCompleted k _ _ _ | .toolFailed k _ _ _ => k

/-- What its builder makes of a report. -/
def payload : Json :=
  match r.body with
  | .llmInvoked k model messages => llmInvokedPayload r.taskId k r.stepId model messages r.localSeq
  | .llmCompleted k model usage => llmCompletedPayload r.taskId k r.stepId model usage r.localSeq
  | .llmFailed k errorType errorMessage => llmFailedPayload r.taskId k r.stepId errorType errorMessage r.localSeq
  | .toolInvoked k toolName toolCallId idempotencyKey input =>
    toolInvokedPayload r.taskId k r.stepId toolName toolCallId idempotencyKey input r.localSeq
  | .toolCompleted k toolCallId output isError =>
    toolCompletedPayload r.taskId k r.stepId toolCallId output isError r.localSeq
  | .toolFailed k toolCallId errorType errorMessage =>
    toolFailedPayload r.taskId k r.stepId toolCallId errorType errorMessage r.localSeq

/-- What was put in, under the names the event has for it; a JSON value is a map, whose fields have no order of their
own. -/
def fields : List (String × Json) :=
  ("local_seq", .int r.localSeq) :: match r.body with
    | .llmInvoked _ model messages => [("model", .str model), ("messages", .arr (messages.map Message.toJson))]
    | .llmCompleted _ model usage =>
      let (inputTokens, outputTokens, totalTokens) := usage.getD (0, 0, 0)
      [("model", .str model), ("usage", Usage.toJson ⟨inputTokens, outputTokens, totalTokens⟩)]
    | .llmFailed _ errorType errorMessage => [("error_type", .str errorType), ("error_message", .str errorMessage)]
    | .toolInvoked _ toolName toolCallId idempotencyKey input =>
      [("tool_name", .str toolName), ("tool_call_id", .str toolCallId), ("idempotency_key", .str idempotencyKey),
        ("input", input.sorted)]
    | .toolCompleted _ toolCallId output isError =>
      [("tool_call_id", .str toolCallId), ("output", output.sorted), ("is_error", .bool isError)]
    | .toolFailed _ toolCallId errorType errorMessage =>
      [("tool_call_id", .str toolCallId), ("error_type", .str errorType), ("error_message", .str errorMessage)]

/-- The numbers are `i64`, the identifiers are there, and the turn of an LLM call is not zero. -/
structure Valid : Prop where
  taskId : r.taskId ≠ ""
  stepId : r.stepId ≠ ""
  localSeq : InI64 r.localSeq
  turnId : ∀ k, r.turnId = some k → InI64 k
  body : match r.body with
    | .llmInvoked k _ _ | .llmFailed k _ _ => k ≠ 0
    | .llmCompleted k _ usage =>
      k ≠ 0 ∧ ∀ u, usage = some u → InI64 u.1 ∧ InI64 u.2.1 ∧ InI64 u.2.2
    | _ => True

variable (serde : SerdeJson)

/-- The record of a report, as the consumer reads it. -/
def record : TaskEndRecord :=
  { eventType := r.eventType.asStr, content := (serde.fromStr (serde.toString r.payload)).getD .null }

/-- The payload is read back as it was written. -/
def ReadsBack : Prop := serde.fromStr (serde.toString r.payload) = some r.payload.sorted

end StepReport

/-- The operation is the write of the event. -/
def Op.Writes (o : Op) (e : AgentEvent) : Prop :=
  ∀ {σ : Type} (store : EventStore σ), o.run store = Op.discard (store.writeEvent e)

/-- The consumer makes of the report an event that passes the checks, with everything that was put in. -/
def StepReport.Arrives (r : StepReport) (serde : SerdeJson) : Prop :=
  ∃ o e, (r.record serde).instr = some (.call (.op o)) ∧ o.Writes e ∧ e.validateScope = .ok () ∧
    validatePayloadRequiredFields e.eventType e.payload = .ok () ∧ e.taskId = r.taskId ∧ e.eventType = r.eventType ∧
    e.turnId = r.turnId ∧ e.stepId = some r.stepId ∧ ∀ f ∈ r.fields, e.payload.get f.1 = some f.2

/-! ## Reading a payload in order -/

namespace Json

@[simp] theorem asI64_sorted (v : Json) : v.sorted.asI64 = v.asI64 := by cases v <;> rfl

@[simp] theorem asBool_sorted (v : Json) : v.sorted.asBool = v.asBool := by cases v <;> rfl

theorem text_sorted (v : Json) (key default : String) : v.sorted.text key default = v.text key default := by
  unfold text
  rw [get_sorted]
  cases v.get key <;> simp

theorem num_sorted (v : Json) (key : String) : v.sorted.num key = v.num key := by
  unfold num
  rw [get_sorted]
  cases v.get key <;> simp

theorem num_int {v : Json} {key : String} {n : Int} (h : v.get key = some (.int n)) (hn : InI64 n) :
    v.num key = n := by
  rw [num, h, Option.bind_some, asI64_ofInt hn, Option.getD_some]

end Json

theorem Message.ofJson_sorted (v : Json) : ofJson v.sorted = ofJson v := by
  unfold ofJson
  simp only [Json.get_sorted]
  cases v.get "role" <;> cases v.get "content" <;> simp

theorem messagesOfJson_sorted (v : Json) : messagesOfJson v.sorted = messagesOfJson v := by
  cases v with
  | arr vs => rw [Json.sorted, messagesOfJson, messagesOfJson, Json.sortedList_eq,
      decodeAll_sorted Message.ofJson_sorted]
  | _ => rfl

/-- A record whose content is the payload in order. -/
theorem StepReport.record_eq {r : StepReport} {serde : SerdeJson} (h : r.ReadsBack serde) :
    r.record serde = { eventType := r.eventType.asStr, content := r.payload.sorted } := by
  unfold StepReport.record
  rw [h, Option.getD_some]

theorem Op.writes_writeAs {o : Op} {e : AgentEvent}
    (h : ∀ {σ : Type} (store : EventStore σ), o.run store = Op.discard (Service.writeAs store e)) : o.Writes e := by
  intro σ store
  rw [h store]
  funext s
  show Eff.bind (Eff.bind (store.writeEvent e) _) _ s = Eff.bind (store.writeEvent e) _ s
  unfold Eff.bind
  cases store.writeEvent e s with
  | mk res s' => cases res <;> rfl

/-! ## Each report -/

/-- Reading a text field of a payload. -/
theorem Json.text_str {v : Json} {key s : String} (h : v.get key = some (.str s)) (default : String) :
    v.text key default = s := by
  rw [text, h]
  rfl

/-- What all reports have. -/
structure TaskEndRecord.Tagged (R : TaskEndRecord) (r : StepReport) : Prop where
  taskId : R.taskId = r.taskId
  stepId : R.stepId = r.stepId
  localSeq : R.localSeq = r.localSeq
  turnId : R.turnId? = r.turnId

/-- Every builder puts the tags in. -/
theorem StepReport.get_tags (r : StepReport) :
    r.payload.get "task_id" = some (.str r.taskId) ∧ r.payload.get "step_id" = some (.str r.stepId) ∧
      r.payload.get "local_seq" = some (.int r.localSeq) ∧ r.payload.get "turn_id" = r.turnId.map .int := by
  obtain ⟨taskId, stepId, localSeq, body⟩ := r
  cases body with
  | llmInvoked k model messages => exact ⟨rfl, rfl, rfl, rfl⟩
  | llmCompleted k model usage => exact ⟨rfl, rfl, rfl, rfl⟩
  | llmFailed k errorType errorMessage => exact ⟨rfl, rfl, rfl, rfl⟩
  | toolInvoked k toolName toolCallId idempotencyKey input => cases k <;> exact ⟨rfl, rfl, rfl, rfl⟩
  | toolCompleted k toolCallId output isError => cases k <;> exact ⟨rfl, rfl, rfl, rfl⟩
  | toolFailed k toolCallId errorType errorMessage => cases k <;> exact ⟨rfl, rfl, rfl, rfl⟩

theorem StepReport.Valid.tagged {r : StepReport} (h : r.Valid) :
    TaskEndRecord.Tagged ⟨r.eventType.asStr, r.payload.sorted⟩ r := by
  obtain ⟨htask, hstep, hseq, hturn⟩ := r.get_tags
  refine ⟨?_, ?_, ?_, ?_⟩
  · exact (Json.text_sorted _ _ _).trans (Json.text_str htask _)
  · exact (Json.text_sorted _ _ _).trans (Json.text_str hstep _)
  · exact (Json.num_sorted _ _).trans (Json.num_int hseq h.localSeq)
  · show (r.payload.sorted.get "turn_id").bind Json.asI64 = r.turnId
    rw [Json.get_sorted, hturn]
    cases hk : r.turnId with
    | none => rfl
    | some k => exact Json.asI64_ofInt (h.turnId k hk)

/-- The consumer calls the handler of a step with its fields. -/
theorem TaskEndRecord.instr_of_stepOp {R : TaskEndRecord} {o : Op} (ht : R.taskId ≠ "") (hs : R.stepId ≠ "")
    (h : R.stepOp = some o) : R.instr = some (.call (.op o)) := by
  have ht' : R.taskId.isEmpty = false := by simpa using ht
  have hs' : R.stepId.isEmpty = false := by simpa using hs
  unfold TaskEndRecord.instr
  simp only [ht', hs', Bool.false_eq_true, if_false]
  unfold TaskEndRecord.stepOp at h
  split
  · rename_i he
    simp [he] at h
  · rename_i he
    simp [he] at h
  · rename_i he
    simp [he] at h
  · unfold TaskEndRecord.stepOp
    rw [h, Option.map_some]

/-- The handler of each report, with what was put in. -/
def StepReport.op (r : StepReport) : Op :=
  match r.body with
  | .llmInvoked _ model messages =>
    .recordLlmInvoked r.taskId r.turnId r.stepId model messages none none r.localSeq
  | .llmCompleted _ model usage =>
    let (inputTokens, outputTokens, totalTokens) := usage.getD (0, 0, 0)
    .recordEvent r.taskId r.turnId (some r.stepId) .llmCompleted
      (.obj [("model", .str model), ("usage", Usage.toJson ⟨inputTokens, outputTokens, totalTokens⟩),
        ("local_seq", .int r.localSeq)])
  | .llmFailed _ errorType errorMessage =>
    .recordLlmFailed r.taskId r.turnId r.stepId errorType errorMessage none 0 r.localSeq
  | .toolInvoked _ toolName toolCallId idempotencyKey input =>
    .recordToolInvoked r.taskId r.turnId r.stepId toolName toolCallId idempotencyKey input.sorted none r.localSeq none
      none
  | .toolCompleted _ toolCallId output isError =>
    .recordToolCompleted r.taskId r.turnId r.stepId toolCallId output.sorted isError r.localSeq
  | .toolFailed _ toolCallId errorType errorMessage =>
    .recordToolFailed r.taskId r.turnId r.stepId toolCallId errorType errorMessage none 0 r.localSeq

theorem TaskEndRecord.instr_llmCompleted {R : TaskEndRecord} (he : R.eventType = "llm_completed") (ht : R.taskId ≠ "")
    (hs : R.stepId ≠ "") (hk : R.turnId ≠ 0) : R.instr = some (.call (.op (.recordEvent R.taskId (some R.turnId)
      (some R.stepId) .llmCompleted R.llmCompletedPayload))) := by
  have ht' : R.taskId.isEmpty = false := by simpa using ht
  have hs' : R.stepId.isEmpty = false := by simpa using hs
  unfold TaskEndRecord.instr
  simp only [he, ht', hs', hk, Bool.false_eq_true, if_false, decide_false, Bool.or_false]

/-- The token counts of a report, put where the event has them. -/
theorem llmCompletedPayload_read (taskId stepId model : String) {usage : Option (Int × Int × Int)} {localSeq : Int}
    (k : Int) (hl : InI64 localSeq) (hu : ∀ u, usage = some u → InI64 u.1 ∧ InI64 u.2.1 ∧ InI64 u.2.2) :
    TaskEndRecord.llmCompletedPayload
        ⟨"llm_completed", (llmCompletedPayload taskId k stepId model usage localSeq).sorted⟩ =
      .obj [("model", .str model), ("usage", Usage.toJson ⟨(usage.getD (0, 0, 0)).1, (usage.getD (0, 0, 0)).2.1,
        (usage.getD (0, 0, 0)).2.2⟩), ("local_seq", .int localSeq)] := by
  have husage : InI64 (usage.getD (0, 0, 0)).1 ∧ InI64 (usage.getD (0, 0, 0)).2.1 ∧
      InI64 (usage.getD (0, 0, 0)).2.2 := by
    cases usage with
    | none => exact ⟨by decide, by decide, by decide⟩
    | some u => exact hu u rfl
  have hin : (llmCompletedPayload taskId k stepId model usage localSeq).num "input_tokens" = _ :=
    Json.num_int rfl husage.1
  have hout : (llmCompletedPayload taskId k stepId model usage localSeq).num "output_tokens" = _ :=
    Json.num_int rfl husage.2.1
  have htotal : (llmCompletedPayload taskId k stepId model usage localSeq).num "total_tokens" = _ :=
    Json.num_int rfl husage.2.2
  have hseq : (llmCompletedPayload taskId k stepId model usage localSeq).num "local_seq" = localSeq :=
    Json.num_int rfl hl
  unfold TaskEndRecord.llmCompletedPayload TaskEndRecord.localSeq
  simp only [Json.text_sorted, Json.num_sorted, hin, hout, htotal, hseq]
  rfl

theorem StepReport.Valid.instr {r : StepReport} (h : r.Valid) :
    TaskEndRecord.instr ⟨r.eventType.asStr, r.payload.sorted⟩ = some (.call (.op r.op)) := by
  have htags := h.tagged
  have ht : TaskEndRecord.taskId ⟨r.eventType.asStr, r.payload.sorted⟩ ≠ "" := htags.taskId ▸ h.taskId
  have hs : TaskEndRecord.stepId ⟨r.eventType.asStr, r.payload.sorted⟩ ≠ "" := htags.stepId ▸ h.stepId
  obtain ⟨taskId, stepId, localSeq, body⟩ := r
  cases body with
  | llmInvoked k model messages =>
    apply TaskEndRecord.instr_of_stepOp ht hs
    show some (Op.recordLlmInvoked _ _ _ _ _ none none _) = some (Op.recordLlmInvoked _ _ _ _ _ none none _)
    have hmessages : TaskEndRecord.messages ⟨"llm_invoked",
        (llmInvokedPayload taskId k stepId model messages localSeq).sorted⟩ = messages := by
      unfold TaskEndRecord.messages
      rw [Json.get_sorted]
      show ((some (Json.arr (messages.map Message.toJson)).sorted).bind messagesOfJson).getD [] = messages
      rw [Option.bind_some, messagesOfJson_sorted, messagesOfJson_toJson, Option.getD_some]
    rw [htags.taskId, htags.turnId, htags.stepId, htags.localSeq, Json.text_sorted]
    exact congrArg (fun ms => some (Op.recordLlmInvoked taskId (some k) stepId model ms none none localSeq)) hmessages
  | llmCompleted k model usage =>
    obtain ⟨hk, hu⟩ := h.body
    have hturn : TaskEndRecord.turnId
        ⟨"llm_completed", (llmCompletedPayload taskId k stepId model usage localSeq).sorted⟩ =
        k := (Json.num_sorted _ _).trans (Json.num_int rfl (h.turnId k rfl))
    have hpayload := llmCompletedPayload_read taskId stepId model k h.localSeq hu
    have hinstr := TaskEndRecord.instr_llmCompleted rfl ht hs (hturn.symm ▸ hk)
    rw [htags.taskId, htags.stepId] at hinstr
    exact hinstr.trans (congrArg₂ (fun k p => some (Instr.call (.op (.recordEvent taskId (some k) (some stepId)
      .llmCompleted p)))) hturn hpayload)
  | llmFailed k errorType errorMessage =>
    apply TaskEndRecord.instr_of_stepOp ht hs
    show some (Op.recordLlmFailed _ _ _ _ _ none 0 _) = some (Op.recordLlmFailed _ _ _ _ _ none 0 _)
    rw [htags.taskId, htags.turnId, htags.stepId, htags.localSeq, Json.text_sorted, Json.text_sorted]
    rfl
  | toolInvoked k toolName toolCallId idempotencyKey input =>
    apply TaskEndRecord.instr_of_stepOp ht hs
    show some (Op.recordToolInvoked _ _ _ _ _ _ _ none _ none none) =
      some (Op.recordToolInvoked _ _ _ _ _ _ _ none _ none none)
    rw [htags.taskId, htags.turnId, htags.stepId, htags.localSeq, Json.text_sorted, Json.text_sorted, Json.text_sorted,
      Json.get_sorted]
    cases k <;> rfl
  | toolCompleted k toolCallId output isError =>
    apply TaskEndRecord.instr_of_stepOp ht hs
    show some (Op.recordToolCompleted _ _ _ _ _ _ _) = some (Op.recordToolCompleted _ _ _ _ _ _ _)
    rw [htags.taskId, htags.turnId, htags.stepId, htags.localSeq, Json.text_sorted, Json.get_sorted, Json.get_sorted]
    cases k <;> rfl
  | toolFailed k toolCallId errorType errorMessage =>
    apply TaskEndRecord.instr_of_stepOp ht hs
    show some (Op.recordToolFailed _ _ _ _ _ _ none 0 _) = some (Op.recordToolFailed _ _ _ _ _ _ none 0 _)
    rw [htags.taskId, htags.turnId, htags.stepId, htags.localSeq, Json.text_sorted, Json.text_sorted, Json.text_sorted]
    cases k <;> rfl

/-- **What is read back arrives**: the event of a report has its type, turn, step and number and everything else that
was put in, and passes the checks. -/
theorem report_arrives {serde : SerdeJson} {r : StepReport} (h : r.Valid) (hread : r.ReadsBack serde) :
    r.Arrives serde := by
  have hinstr := h.instr
  rw [← StepReport.record_eq hread] at hinstr
  obtain ⟨taskId, stepId, localSeq, body⟩ := r
  cases body with
  | llmInvoked k model messages =>
    exact ⟨_, _, hinstr, Op.writes_writeAs fun _ => rfl, rfl, rfl, rfl, rfl, rfl, rfl, by
      simp only [StepReport.fields, List.forall_mem_cons]
      exact ⟨rfl, rfl, rfl, nofun⟩⟩
  | llmCompleted k model usage =>
    exact ⟨_, AgentEvent.new taskId (some k) (some stepId) .llmCompleted _, hinstr, fun _ => rfl,
      rfl, rfl, rfl, rfl, rfl,
      rfl, by
      simp only [StepReport.fields, List.forall_mem_cons]
      exact ⟨rfl, rfl, rfl, nofun⟩⟩
  | llmFailed k errorType errorMessage =>
    exact ⟨_, _, hinstr, Op.writes_writeAs fun _ => rfl, rfl, rfl, rfl, rfl, rfl, rfl, by
      simp only [StepReport.fields, List.forall_mem_cons]
      exact ⟨rfl, rfl, rfl, nofun⟩⟩
  | toolInvoked k toolName toolCallId idempotencyKey input =>
    exact ⟨_, _, hinstr, Op.writes_writeAs fun _ => rfl, rfl, rfl, rfl, rfl, rfl, rfl, by
      simp only [StepReport.fields, List.forall_mem_cons]
      exact ⟨rfl, rfl, rfl, rfl, rfl, nofun⟩⟩
  | toolCompleted k toolCallId output isError =>
    exact ⟨_, _, hinstr, Op.writes_writeAs fun _ => rfl, rfl, rfl, rfl, rfl, rfl, rfl, by
      simp only [StepReport.fields, List.forall_mem_cons]
      exact ⟨rfl, rfl, rfl, rfl, nofun⟩⟩
  | toolFailed k toolCallId errorType errorMessage =>
    exact ⟨_, _, hinstr, Op.writes_writeAs fun _ => rfl, rfl, rfl, rfl, rfl, rfl, rfl, by
      simp only [StepReport.fields, List.forall_mem_cons]
      exact ⟨rfl, rfl, rfl, rfl, nofun⟩⟩

/-! ## What is read back -/

/-- The arguments and results of tools are without floats and nest less deep than what the reader allows. -/
def StepReport.Shallow (r : StepReport) : Prop :=
  match r.body with
  | .toolInvoked _ _ _ _ input => input.Exact 126
  | .toolCompleted _ _ output _ => output.Exact 126
  | _ => True

@[simp] theorem Json.exact_bool (d : Nat) (b : Bool) : (Json.bool b).Exact d := by cases d <;> trivial

theorem InI64.exact {n : Int} (h : InI64 n) (d : Nat) : (Json.int n).Exact d := by
  obtain ⟨hlo, hhi⟩ := h
  cases d <;> exact ⟨by omega, by omega⟩

theorem Json.exact_setOpt_turnId {fields : List (String × Json)} {k : Option Int} (hk : ∀ t, k = some t → InI64 t)
    (hnew : "turn_id" ∉ fields.map Prod.fst) (h : (Json.obj fields).Exact 127) :
    ((Json.obj fields).setOpt "turn_id" (k.map .int)).Exact 127 := by
  have hset : ∀ (fields : List (String × Json)) v, "turn_id" ∉ fields.map Prod.fst →
      setField fields "turn_id" v = fields ++ [("turn_id", v)] := by
    intro fields v
    induction fields with
    | nil => exact fun _ => rfl
    | cons f fields ih =>
      intro hf
      rw [List.map_cons, List.mem_cons, not_or] at hf
      rw [setField, if_neg (Ne.symm hf.1), ih hf.2, List.cons_append]
  cases k with
  | none => exact h
  | some t =>
    show Exact 127 (.obj (setField fields "turn_id" (.int t)))
    rw [hset fields _ hnew]
    refine ⟨?_, fun f hf => ?_⟩
    · rw [List.map_append, List.map_cons, List.map_nil]
      refine List.nodup_append.mpr ⟨h.1, List.nodup_singleton _, fun a ha b hb hab => ?_⟩
      rw [List.mem_singleton.mp hb] at hab
      rw [hab] at ha
      exact hnew ha
    · rcases List.mem_append.mp hf with hf | hf
      · exact h.2 f hf
      · rw [List.mem_singleton.mp hf]
        exact (hk t rfl).exact 126

theorem Message.exact_toJson (m : Message) (d : Nat) : m.toJson.Exact (d + 1) := by
  simp [Message.toJson]

/-- Such reports are read back. -/
theorem readsBack_of_shallow (serde : SerdeJson) {r : StepReport} (h : r.Valid) (hs : r.Shallow) :
    r.ReadsBack serde := by
  apply serde.fromStr_toString
  obtain ⟨taskId, stepId, localSeq, body⟩ := r
  have hl := h.localSeq.exact 126
  cases body with
  | llmInvoked k model messages =>
    have hk := (h.turnId k rfl).exact 126
    have hm : (Json.arr (messages.map Message.toJson)).Exact 126 := by
      intro v hv
      obtain ⟨m, -, rfl⟩ := List.mem_map.mp hv
      exact m.exact_toJson 124
    exact ⟨by simp, by simp [hk, hm, hl]⟩
  | llmCompleted k model usage =>
    have hk := (h.turnId k rfl).exact 126
    cases usage with
    | none => exact ⟨by simp, by simp [hk, hl]⟩
    | some u =>
      obtain ⟨h₁, h₂, h₃⟩ := h.body.2 u rfl
      exact ⟨by simp, by simp [hk, h₁.exact 126, h₂.exact 126, h₃.exact 126, hl]⟩
  | llmFailed k errorType errorMessage =>
    have hk := (h.turnId k rfl).exact 126
    exact ⟨by simp, by simp [hk, hl]⟩
  | toolInvoked k toolName toolCallId idempotencyKey input =>
    have hi : input.Exact 126 := hs
    exact Json.exact_setOpt_turnId h.turnId (by simp) ⟨by simp, by simp [hi, hl]⟩
  | toolCompleted k toolCallId output isError =>
    have ho : output.Exact 126 := hs
    exact Json.exact_setOpt_turnId h.turnId (by simp) ⟨by simp, by simp [ho, hl]⟩
  | toolFailed k toolCallId errorType errorMessage =>
    exact Json.exact_setOpt_turnId h.turnId (by simp) ⟨by simp, by simp [hl]⟩

/-- A tool called outside of a turn. -/
def turnlessReport : StepReport :=
  { taskId := "t", stepId := "s", localSeq := 1
    body := .toolInvoked none "fixus_bash" "s" "k" (.obj [("command", .str "ls")]) }

theorem turnlessReport_valid : turnlessReport.Valid where
  taskId := by decide
  stepId := by decide
  localSeq := by decide
  turnId k hk := by cases hk
  body := trivial

theorem turnlessReport_arrives : turnlessReport.Arrives .limited :=
  report_arrives turnlessReport_valid (readsBack_of_shallow .limited turnlessReport_valid
    (Json.exact_obj.mpr ⟨by simp, by simp⟩))

/-- An array in an array, and so on. -/
def nested : Nat → Json
  | 0 => .null
  | n + 1 => .arr [nested n]

theorem nested_exact (n : Nat) : (nested n).Exact n := by
  induction n with
  | zero => trivial
  | succ n ih => exact Json.exact_arr.mpr fun v hv => List.mem_singleton.mp hv ▸ ih

/-- A result that a tool can give and the fixlet can read, one level too deep for the report. -/
def deepReport : StepReport :=
  { taskId := "t", stepId := "s", localSeq := 2, body := .toolCompleted none "s" (nested 127) false }

theorem deepReport_valid : deepReport.Valid where
  taskId := by decide
  stepId := by decide
  localSeq := by decide
  turnId k hk := by cases hk
  body := trivial

theorem deepReport_unread : SerdeJson.limited.fromStr (SerdeJson.limited.toString deepReport.payload) = none := by
  have hexact : deepReport.payload.Exact 128 :=
    Json.exact_obj.mpr ⟨by simp, by simp [deepReport, nested_exact]⟩
  have hlimited : ∀ v : Json, SerdeJson.limited.fromStr (SerdeJson.limited.toString v) =
      (Json.parse (String.ofList v.sorted.print)).filter (Json.nestsWithin 127) := fun _ => rfl
  rw [hlimited, Json.parse_print hexact.sorted, Option.filter_some, if_neg (by decide +kernel)]

/-- **A report that is too deep is lost.** -/
theorem deep_report_lost : ¬ ∀ (serde : SerdeJson) (r : StepReport), r.Valid → r.Arrives serde := by
  intro h
  obtain ⟨o, e, hinstr, -⟩ := h .limited deepReport deepReport_valid
  have hrec : deepReport.record .limited = { eventType := "tool_completed", content := .null } := by
    unfold StepReport.record
    rw [deepReport_unread]
    rfl
  rw [hrec] at hinstr
  cases hinstr

end Fixus