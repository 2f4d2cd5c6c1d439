import Fixus.Orchestrator.Restarts
import Fixus.Orchestrator.TaskEnd

/-!
# Replies in the conversation

The output of a turn goes into its `turn_completed` event. The conversation that later turns get to see is made of the
inputs, the results of the tools and the `llm_completed` events, whose reports say what a reply has cost and not what it
says.

- `Completes`: the report of a turn with its output is handled;
- `llmCompleted_silent`: the event of a report on an LLM call has no message;
- `replyKept_iff`: every later conversation has the reply of a turn exactly if somebody else has put it into the log;
- `reply_lost`: the second turn gets to see the first question without its answer.
-/

namespace Fixus

open Lib Lib.Eff BrokerStore TaskProjection Context

variable {cfg : Config} {o : Orchestrator} {m : OMove} {taskId : String} {turnId : Int} {text : String}
  {render : Json → String}

/-! ## The end of a turn -/

/-- What has just come in can be executed. -/
theorem fetched_enter {x : Instr} {env : Env} (hx : x.isEntry = true) :
    fetched (orchestrate cfg o (.enter x)) (.exec o.pool.length env) = some x := by
  simp [orchestrate, move, hx, fetched]

/-- The move handles the report that the turn is done with the output, and its event is written. -/
structure Completes (cfg : Config) (o : Orchestrator) (m : OMove) (taskId : String) (turnId : Int)
    (finalOutput : String) : Prop where
  handled : fetched o m = some (.turnExecutionDone taskId turnId finalOutput)
  wrote : .wrote taskId .turnCompleted (some turnId) ∈ actsOf cfg o m

/-- The end of a turn writes its `turn_completed` and nothing else. -/
theorem Completes.grows (h : Completes cfg o m taskId turnId text) :
    Grows [(taskId, .turnCompleted, some turnId)] o.shared.store (orchestrate cfg o m).shared.store := by
  cases m with
  | enter x => cases h.handled
  | exec k env =>
    obtain ⟨rest, he⟩ := executes_of_fetched (execWith cfg) Instr.isEntry h.handled
    have hacts : .wrote taskId .turnCompleted (some turnId) ∈
        (execWith cfg env o.shared (.turnExecutionDone taskId turnId text)).acts := he.acts ▸ h.wrote
    have hstep : Step cfg o.shared (.turnExecutionDone taskId turnId text)
        (execWith cfg env o.shared (.turnExecutionDone taskId turnId text)) := exec_step cfg env o.shared _
    have hshared := he.shared
    unfold orchestrate
    rw [hshared]
    generalize execWith cfg env o.shared (.turnExecutionDone taskId turnId text) = out at hacts hstep
    cases hstep with
    | stop _ _ => cases hacts
    | done hgrows => exact hgrows

/-! ## Replies in the log -/

/-- The event says the text, as its content or as its calls of tools. -/
def Answers (render : Json → String) (text : String) (e : AgentEvent) : Prop :=
  e.eventType = .llmCompleted ∧ ((e.payload.get "content").bind Json.asStr = some text ∨
    ∃ call calls, e.payload.get "tool_calls" = some (.arr (call :: calls)) ∧
      "[tool_calls] " ++ render (.arr (call :: calls)) = text)

/-- A reply is an answer of the model. -/
theorem assistant_mem_messagesOf {e : AgentEvent} (hne : text ≠ "") :
    ⟨"assistant", text⟩ ∈ messagesOf render e ↔ Answers render text e := by
  have huser : "assistant" ≠ "user" := by decide
  have htool : "assistant" ≠ "tool" := by decide
  unfold messagesOf Answers
  cases e.eventType with
  | turnStarted =>
    simp only [reduceCtorEq, false_and, iff_false]
    split <;> simp [huser]
  | toolCompleted =>
    simp only [reduceCtorEq, false_and, iff_false]
    split <;> simp [htool]
  | llmCompleted =>
    simp only [true_and, List.mem_append]
    refine or_congr ?_ ?_
    · cases (e.payload.get "content").bind Json.asStr with
      | none => simp
      | some content =>
        by_cases hc : content = text
        · simp [hc, hne]
        · by_cases hempty : content.isEmpty = true <;> simp [hempty, hc, Ne.symm hc]
    · split
      · rename_i call calls heq
        rw [heq]
        simp [eq_comm]
      · rename_i hno
        simp only [List.not_mem_nil, false_iff, not_exists, not_and]
        exact fun call calls heq => absurd heq (hno call calls)
  | _ => simp

/-- The report on an LLM call says nothing. -/
theorem llmCompleted_silent (r : TaskEndRecord) {e : AgentEvent} (he : e.payload = r.llmCompletedPayload)
    (htype : e.eventType = .llmCompleted) : messagesOf render e = [] := by
  unfold messagesOf
  rw [htype, he]
  rfl

/-- The log has an answer of the model in the turn that says the text. -/
def Answered (render : Json → String) (taskId : String) (turnId : Int) (text : String) (log : List Record) : Prop :=
  ∃ e ∈ eventsOf taskId log, e.turnId = some turnId ∧ Answers render text e

/-- The end of a turn is no answer of the model. -/
theorem Completes.answered_iff (h : Completes cfg o m taskId turnId text) :
    Answered render taskId turnId text ((orchestrate cfg o m).shared.store.log taskId) ↔
      Answered render taskId turnId text (o.shared.store.log taskId) := by
  obtain ⟨new, hnew, htypes⟩ := h.grows taskId
  unfold Answered
  constructor
  · rintro ⟨e, he, hturn, hanswers⟩
    rw [hnew, eventsOf, List.filterMap_append] at he
    rcases List.mem_append.mp he with he | he
    · exact ⟨e, he, hturn, hanswers⟩
    · obtain ⟨r, hr, hre⟩ := List.mem_filterMap.mp he
      obtain ⟨et, het, rfl⟩ := Option.map_eq_some_iff.mp hre
      obtain ⟨k, hw, -⟩ := htypes r hr et het
      have hcompleted : et = .turnCompleted := by simpa using congrArg (fun w => w.2.1) (List.mem_singleton.mp hw)
      have hllm : et = .llmCompleted := hanswers.1
      rw [hcompleted] at hllm
      cases hllm
  · rintro ⟨e, he, hanswers⟩
    refine ⟨e, ?_, hanswers⟩
    rw [hnew, eventsOf, List.filterMap_append]
    exact List.mem_append_left _ he

/-! ## Replies in the conversation -/

/-- The events after the boundary of the latest summary, in the order of the log. -/
def pastEvents (taskId : String) (log : List Record) : List AgentEvent :=
  (inSeqOrder (eventsOf taskId log)).filter fun e => summaryBoundary log < e.seq

/-- The reply is in the messages, in the place of its turn: the messages are those of the events after the boundary, one
after the other, and the reply is one of those of an event of the turn. -/
def ReplyInPlace (render : Json → String) (taskId : String) (turnId : Int) (text : String) (log : List Record)
    (messages : List Message) : Prop :=
  ∃ before e after, pastEvents taskId log = before ++ e :: after ∧
    messages = eventsToMessages render before ++ messagesOf render e ++ eventsToMessages render after ∧
    e.turnId = some turnId ∧ ⟨"assistant", text⟩ ∈ messagesOf render e

/-- No summary covers an event of the turn. -/
def Unsummarized (taskId : String) (turnId : Int) (log : List Record) : Prop :=
  ∀ e ∈ eventsOf taskId log, e.turnId = some turnId → summaryBoundary log < e.seq

/-- A context that is built on the store has the reply in its place. -/
def SeesReply (render : Json → String) (taskId : String) (turnId : Int) (text : String) (s : BrokerStore)
    (order : List Int) : Prop :=
  ∃ ctx s', buildLlmContext render (getLatestSummary taskId) (getEventsAfterSeq taskId order) s = (.ok ctx, s') ∧
    ReplyInPlace render taskId turnId text (s.log taskId) ctx.messages

/-- The context is built from an up-to-date projection whose table is walked in ascending order. -/
structure InSequence (taskId : String) (s : BrokerStore) (order : List Int) : Prop where
  upToDate : UpToDate taskId s
  ascends : walk order (s.view taskId).bySeq.keys = ascending (s.view taskId).bySeq.keys

/-- Every later context that is built in sequence has the reply in its place, unless a summary covers the turn; the
process may have been restarted. -/
def ReplyKept (cfg : Config) (render : Json → String) (taskId : String) (turnId : Int) (text : String)
    (o : Orchestrator) : Prop :=
  ∀ later, let s := (run (happen cfg) o later).shared.store
    Unsummarized taskId turnId (s.log taskId) →
      ∀ order, InSequence taskId s order → SeesReply render taskId turnId text s order

variable {s : BrokerStore} {order : List Int}

theorem mem_pastEvents {log : List Record} {e : AgentEvent} :
    e ∈ pastEvents taskId log ↔ e ∈ eventsOf taskId log ∧ summaryBoundary log < e.seq := by
  unfold pastEvents inSeqOrder
  rw [List.mem_filter, (List.perm_insertionSort _ _).mem_iff, decide_eq_true_eq]

/-- A context that is built in sequence has the messages of the past events. -/
theorem messages_of_inSequence (render : Json → String) (h : InSequence taskId s order) :
    ∃ ctx s', buildLlmContext render (getLatestSummary taskId) (getEventsAfterSeq taskId order) s = (.ok ctx, s') ∧
      ctx.messages = eventsToMessages render (pastEvents taskId (s.log taskId)) := by
  obtain ⟨ctx, s', heq, hctx⟩ := wp_total (buildLlmContext_healthy render order h.upToDate.healthy h.upToDate.view)
  have hwalk := h.ascends
  rw [h.upToDate.view] at hwalk
  refine ⟨ctx, s', heq, ?_⟩
  rw [hctx, pastEvents, filter_inSeqOrder h.upToDate.nodup, afterSeq, afterSeq, hwalk, walk_nil]

/-- **A context that is built in sequence has the reply exactly if an answer after the boundary says it.** -/
theorem seesReply_iff (hne : text ≠ "") (hs : InSequence taskId s order) : SeesReply render taskId turnId text s order ↔
    ∃ e ∈ pastEvents taskId (s.log taskId), e.turnId = some turnId ∧ Answers render text e := by
  constructor
  · rintro ⟨ctx, s', -, before, e, after, hsplit, -, hturn, hmem⟩
    exact ⟨e, hsplit ▸ by simp, hturn, (assistant_mem_messagesOf hne).mp hmem⟩
  · rintro ⟨e, he, hturn, hanswers⟩
    obtain ⟨ctx, s', heq, hctx⟩ := messages_of_inSequence render hs
    obtain ⟨before, after, hsplit⟩ := List.append_of_mem he
    refine ⟨ctx, s', heq, before, e, after, hsplit, ?_, hturn, (assistant_mem_messagesOf hne).mpr hanswers⟩
    rw [hctx, hsplit]
    simp [eventsToMessages]

/-- A reply that is kept has been put into the log. -/
theorem ReplyKept.answered (h : ReplyKept cfg render taskId turnId text o) (hne : text ≠ "")
    (ha : Ascending (o.shared.store.log taskId)) (hseq : ∀ r ∈ o.shared.store.log taskId, r.seq < 2 ^ 64)
    (hopen : Unsummarized taskId turnId (o.shared.store.log taskId)) :
    Answered render taskId turnId text (o.shared.store.log taskId) := by
  -- a restart brings the store up to date
  have hsequence : InSequence taskId (run (happen cfg) o [.restart [] [] 1]).shared.store [] :=
    ⟨upToDate_restart ha hseq, walk_nil _⟩
  obtain ⟨e, he, hanswers⟩ := (seesReply_iff hne hsequence).mp (h [.restart [] [] 1] hopen [] hsequence)
  exact ⟨e, (mem_pastEvents.mp he).1, hanswers⟩

/-- A reply in the log is kept. -/
theorem Answered.replyKept (h : Answered render taskId turnId text (o.shared.store.log taskId)) (hne : text ≠ "") :
    ReplyKept cfg render taskId turnId text o := by
  intro later s hopen order hsequence
  obtain ⟨e, he, hturn, hanswers⟩ := h
  have he' := events_subset_run cfg later he
  exact (seesReply_iff hne hsequence).mpr ⟨e, mem_pastEvents.mpr ⟨he', hopen e he' hturn⟩, hturn, hanswers⟩

/-- **The reply of a turn is kept exactly if it is already in the log when the turn ends**, as an answer of the model in
this turn. -/
theorem replyKept_iff (h : Completes cfg o m taskId turnId text) (hne : text ≠ "")
    (ha : Ascending ((orchestrate cfg o m).shared.store.log taskId))
    (hseq : ∀ r ∈ (orchestrate cfg o m).shared.store.log taskId, r.seq < 2 ^ 64)
    (hopen : Unsummarized taskId turnId ((orchestrate cfg o m).shared.store.log taskId)) :
    ReplyKept cfg render taskId turnId text (orchestrate cfg o m) ↔
      Answered render taskId turnId text (o.shared.store.log taskId) := by
  rw [← h.answered_iff]
  exact ⟨fun hkept => hkept.answered hne ha hseq hopen, fun hanswered => hanswered.replyKept hne⟩

/-- The theorem at a turn whose answer has been recorded. -/
theorem replyKept_recorded :
    let o := run (orchestrate {}) (.start (freshStore replyLog) 1) [.enter (.turnExecutionDone "task_1" 1 "hi")]
    ReplyKept {} (fun _ => "") "task_1" 1 "hi" (orchestrate {} o (.exec 0 {})) := by
  intro o
  have hdone : Completes {} o (.exec 0 {}) "task_1" 1 "hi" := ⟨rfl, by decide +kernel⟩
  have hascending : Ascending ((orchestrate {} o (.exec 0 {})).shared.store.log "task_1") := by decide +kernel
  have hfits : ∀ r ∈ (orchestrate {} o (.exec 0 {})).shared.store.log "task_1", r.seq < 2 ^ 64 := by decide +kernel
  have hopen : Unsummarized "task_1" 1 ((orchestrate {} o (.exec 0 {})).shared.store.log "task_1") := by
    unfold Unsummarized
    decide +kernel
  have hanswered : Answered (fun _ => "") "task_1" 1 "hi" (o.shared.store.log "task_1") := by
    have hlog : o.shared.store.log "task_1" = replyLog := rfl
    have hmem : (⟨5, "llm_completed", .obj [("content", .str "hi")],
        ((∅ : Metadata).insert "turn_id" "1").insert "step_id" "a"⟩ : Record) ∈ replyLog := by simp [replyLog]
    rw [hlog]
    have htype : EventType.fromStr "llm_completed" = some .llmCompleted := rfl
    exact ⟨_, List.mem_filterMap.mpr ⟨_, hmem, by rw [htype, Option.map_some]⟩, by decide +kernel, rfl, Or.inl rfl⟩
  exact (replyKept_iff hdone (by decide) hascending hfits hopen).mpr hanswered

/-- A report of the agents comes in and is worked on. -/
def report (r : TaskEndRecord) (k steps : Nat) : List OMove := (r.instr.map fun x => handle x k steps).getD []

/-- The first turn and the reports on its only call of the model. -/
def calledModel : List OMove :=
  let about : List (String × Json) := [("task_id", .str "task_1"), ("turn_id", .int 1), ("step_id", .str "a")]
  firstTurn ++ report ⟨"llm_invoked", .obj (about ++ [("model", .str "m"), ("messages", .arr []),
      ("local_seq", .int 1)])⟩ 3 1 ++
    report ⟨"llm_completed", .obj (about ++ [("model", .str "m"), ("input_tokens", .int 7), ("output_tokens", .int 2),
      ("total_tokens", .int 9), ("local_seq", .int 2)])⟩ 4 1

/-- The agent has said hello, and the next context has the question only. -/
theorem reply_lost :
    let o := orchestrate {} (run (orchestrate {}) (.start BrokerStore.empty 1) calledModel)
      (.enter (.turnExecutionDone "task_1" 1 "hello"))
    let o' := orchestrate {} o (.exec 5 {})
    Completes {} o (.exec 5 {}) "task_1" 1 "hello" ∧
      (buildLlmContext (fun _ => "") (getLatestSummary "task_1") (getEventsAfterSeq "task_1" []) o'.shared.store).1.map
          (fun ctx => ctx.messages.map fun msg => (msg.role, msg.content)) = .ok [("user", "hi")] ∧
      ¬ ReplyKept {} (fun _ => "") "task_1" 1 "hello" o' := by
  intro o o'
  have hpool : (run (orchestrate {}) (.start BrokerStore.empty 1) calledModel).pool.length = 5 := by decide +kernel
  have hfetched : fetched o (.exec 5 {} : OMove) = some (.turnExecutionDone "task_1" 1 "hello") :=
    hpool ▸ fetched_enter rfl
  refine ⟨⟨hfetched, by decide +kernel⟩, by decide +kernel, fun hkept => ?_⟩
  have hascending : Ascending (o'.shared.store.log "task_1") := by decide +kernel
  have hfits : ∀ r ∈ o'.shared.store.log "task_1", r.seq < 2 ^ 64 := by decide +kernel
  have hopen : Unsummarized "task_1" 1 (o'.shared.store.log "task_1") := by
    unfold Unsummarized
    decide +kernel
  have hsilent : ∀ e ∈ eventsOf "task_1" (o'.shared.store.log "task_1"), e.eventType = .llmCompleted →
      (e.payload.get "content").isNone = true ∧ (e.payload.get "tool_calls").isNone = true := by decide +kernel
  obtain ⟨e, he, -, htype, hsays⟩ := hkept.answered (by decide) hascending hfits hopen
  obtain ⟨hcontent, hcalls⟩ := hsilent e he htype
  rw [Option.isNone_iff_eq_none] at hcontent hcalls
  rcases hsays with hsays | ⟨call, calls, hsays, -⟩
  · rw [hcontent] at hsays
    cases hsays
  · rw [hcalls] at hsays
    cases hsays

end Fixus
