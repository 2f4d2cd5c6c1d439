import Fixus.Store.Calls

/-!
# Terminal events are as unique as their writers are careful

The store that writes to the log database checks before every write that no terminal event of the same kind is there
(`checkTerminalUniqueness`). The broker store writes without this check.

- `UniqueTerminals`: at most one terminal event for each turn, and one of each kind for each step;
- `Call.ends`: what a call ends, read off the call;
- `run_endings`: in every run of the broker store the terminal events are as many as the calls that end something;
- `uniqueTerminals_iff`: they are unique exactly if no two calls end the same;
- `complete_then_fail`: a completed turn is failed as well.
-/

namespace Fixus

open Lib Lib.Eff BrokerStore

/-! ## The check of the other store -/

def turnTerminals : List EventType := [.turnCompleted, .turnFailed, .turnCanceled, .turnBlocked]

def llmTerminals : List EventType := [.llmCompleted, .llmFailed]

def toolTerminals : List EventType := [.toolCompleted, .toolFailed]

/-- The terminal events that exclude an event, and the level on which they do; nothing for the other events. -/
def conflictTypes : EventType → Option (List EventType × EventScope)
  | .sessionEnded => some ([.sessionEnded], .session)
  | .taskSucceeded | .taskFailed | .taskCanceled => some ([.taskSucceeded, .taskFailed, .taskCanceled], .task)
  | .turnCompleted | .turnFailed | .turnCanceled | .turnBlocked => some (turnTerminals, .turn)
  | .llmCompleted | .llmFailed => some (llmTerminals, .step)
  | .toolCompleted | .toolFailed => some (toolTerminals, .step)
  | _ => none

/-- The tags of the records that an event is compared with; the stream fixes the session. -/
def scopeTags (e : AgentEvent) : EventScope → Except AppError (List (String × String))
  | .turn =>
    match e.turnId with
    | some tid => .ok [("turn_id", toString tid)]
    | none => .error (.lifecycleInvariant (e.eventType.asStr ++ " 缺 turn_id"))
  | .step =>
    match e.stepId with
    | some sid => .ok [("step_id", sid)]
    | none => .error (.lifecycleInvariant (e.eventType.asStr ++ " 缺 step_id"))
  | _ => .ok []

/-- The records of the given types that carry the tags: the answer that the log database is assumed to give. -/
def query (log : List Record) (types : List EventType) (tags : List (String × String)) : List Record :=
  log.filter fun r => types.any (fun t => r.eventType = t.asStr) && tags.all fun (k, v) => r.metadata.lookup k = some v

/-- The check before a write to the log database: no terminal event of the same kind on the same level. -/
def checkTerminalUniqueness (log : List Record) (e : AgentEvent) : Except AppError Unit :=
  match conflictTypes e.eventType with
  | none => .ok ()
  | some (types, scope) =>
    match scopeTags e scope with
    | .error err => .error err
    | .ok tags =>
      if (query log types tags).length > 0 then
        .error (.lifecycleInvariant (e.eventType.asStr ++ " 已存在同类 terminal 事件(session=" ++ e.taskId ++ ", turn=" ++
          debugOpt (e.turnId.map toString) ++ ", step=" ++ debugOpt (e.stepId.map debugStr) ++ ")"))
      else .ok ()

/-- An event that passes finds no record of its kind. -/
theorem query_eq_nil_of_check {log : List Record} {e : AgentEvent} {types : List EventType} {scope : EventScope}
    {tags : List (String × String)} (h : checkTerminalUniqueness log e = .ok ())
    (hc : conflictTypes e.eventType = some (types, scope)) (ht : scopeTags e scope = .ok tags) :
    query log types tags = [] := by
  unfold checkTerminalUniqueness at h
  simp only [hc, ht] at h
  by_cases hq : (query log types tags).length > 0
  · rw [if_pos hq] at h
    cases h
  · exact List.length_eq_zero_iff.mp (by omega)

/-! ## Unique terminal events -/

/-- At most one terminal event for each turn, and at most one LLM and one tool terminal event for each step. -/
structure UniqueTerminals (log : List Record) : Prop where
  turn : ∀ tid : Int, (query log turnTerminals [("turn_id", toString tid)]).length ≤ 1
  llm : ∀ sid : String, (query log llmTerminals [("step_id", sid)]).length ≤ 1
  tool : ∀ sid : String, (query log toolTerminals [("step_id", sid)]).length ≤ 1

/-! ## What is ended -/

/-- What a terminal event ends: a turn, the LLM call of a step, or the tool call of a step. -/
inductive Work where
  | turn (turnId : Int)
  | llm (stepId : String)
  | tool (stepId : String)
  deriving DecidableEq

namespace Work

/-- The events that end it. -/
def terminals : Work → List EventType
  | turn _ => turnTerminals
  | llm _ => llmTerminals
  | tool _ => toolTerminals

/-- Their tags. -/
def tags : Work → List (String × String)
  | turn k => [("turn_id", toString k)]
  | llm sid | tool sid => [("step_id", sid)]

end Work

/-- What an event ends. -/
def AgentEvent.ends (e : AgentEvent) : Option Work :=
  if e.eventType ∈ turnTerminals then e.turnId.map .turn
  else if e.eventType ∈ llmTerminals then e.stepId.map .llm
  else if e.eventType ∈ toolTerminals then e.stepId.map .tool
  else none

/-- The records that have ended something are found by its terminal events and tags. -/
def endings (log : List Record) (w : Work) : List Record := query log w.terminals w.tags

theorem uniqueTerminals_iff_endings {log : List Record} :
    UniqueTerminals log ↔ ∀ w, (endings log w).length ≤ 1 := by
  constructor
  · intro h w
    cases w with
    | turn k => exact h.turn k
    | llm sid => exact h.llm sid
    | tool sid => exact h.tool sid
  · exact fun h => ⟨fun k => h (.turn k), fun sid => h (.llm sid), fun sid => h (.tool sid)⟩

theorem endings_append (log rs : List Record) (w : Work) : endings (log ++ rs) w = endings log w ++ endings rs w :=
  List.filter_append ..

theorem AgentEvent.ends_turn {e : AgentEvent} {k : Int} :
    e.ends = some (.turn k) ↔ e.eventType ∈ turnTerminals ∧ e.turnId = some k := by
  unfold ends
  cases e.eventType <;> simp [turnTerminals, llmTerminals, toolTerminals]

theorem AgentEvent.ends_llm {e : AgentEvent} {sid : String} :
    e.ends = some (.llm sid) ↔ e.eventType ∈ llmTerminals ∧ e.stepId = some sid := by
  unfold ends
  cases e.eventType <;> simp [turnTerminals, llmTerminals, toolTerminals]

theorem AgentEvent.ends_tool {e : AgentEvent} {sid : String} :
    e.ends = some (.tool sid) ↔ e.eventType ∈ toolTerminals ∧ e.stepId = some sid := by
  unfold ends
  cases e.eventType <;> simp [turnTerminals, llmTerminals, toolTerminals]

/-- The record of an event is found under what the event ends. -/
theorem endings_recordOf (seq : Nat) (e : AgentEvent) (w : Work) :
    (endings [recordOf seq e] w).length = if e.ends = some w then 1 else 0 := by
  have htype : ∀ types : List EventType,
      (types.any fun t => (recordOf seq e).eventType = t.asStr) = decide (e.eventType ∈ types) := by
    intro types
    rw [Bool.eq_iff_iff, List.any_eq_true, decide_eq_true_eq]
    constructor
    · rintro ⟨t, ht, heq⟩
      exact EventType.asStr_inj (of_decide_eq_true heq) ▸ ht
    · exact fun ht => ⟨_, ht, decide_eq_true rfl⟩
  have hturn : ∀ k : Int, (recordOf seq e).metadata.lookup "turn_id" = some (toString k) ↔ e.turnId = some k := by
    intro k
    rw [show (recordOf seq e).metadata.lookup "turn_id" = e.turnId.map toString from eventMeta_turnId e,
      ← Option.map_some,
      (Option.map_injective toString_int_injective).eq_iff]
  have hstep : (recordOf seq e).metadata.lookup "step_id" = e.stepId := eventMeta_stepId e
  have hfound : (w.terminals.any (fun t => (recordOf seq e).eventType = t.asStr) &&
      w.tags.all fun (k, v) => (recordOf seq e).metadata.lookup k = some v) = decide (e.ends = some w) := by
    rw [htype, Bool.eq_iff_iff, Bool.and_eq_true, decide_eq_true_eq, decide_eq_true_eq]
    cases w with
    | turn k =>
      rw [AgentEvent.ends_turn, ← hturn]
      simp [Work.terminals, Work.tags]
    | llm sid =>
      rw [AgentEvent.ends_llm, ← hstep]
      simp [Work.terminals, Work.tags]
    | tool sid =>
      rw [AgentEvent.ends_tool, ← hstep]
      simp [Work.terminals, Work.tags]
  unfold endings query
  rw [List.filter_singleton, hfound]
  by_cases he : e.ends = some w <;> simp [he]

/-- The creation of a task ends nothing. -/
theorem endings_created {r : Record} (hr : r.eventType = EventType.taskCreated.asStr) (w : Work) :
    endings [r] w = [] := by
  have hnot : EventType.taskCreated ∉ w.terminals := by
    cases w <;> simp [Work.terminals, turnTerminals, llmTerminals, toolTerminals]
  refine List.filter_eq_nil_iff.mpr fun r' hr' hp => ?_
  rw [List.mem_singleton.mp hr'] at hp
  obtain ⟨t, ht, heq⟩ := List.any_eq_true.mp (Bool.and_eq_true_iff.mp hp).1
  exact hnot (EventType.asStr_inj (hr.symm.trans (of_decide_eq_true heq)) ▸ ht)

/-! ## What a call ends -/

/-- The event passes the two checks of a write that look at nothing else. -/
def AgentEvent.wellFormed (e : AgentEvent) : Bool :=
  e.validateScope.toBool && (validatePayloadRequiredFields e.eventType e.payload).toBool

theorem AgentEvent.wellFormed_iff {e : AgentEvent} : e.wellFormed = true ↔
    e.validateScope = .ok () ∧ validatePayloadRequiredFields e.eventType e.payload = .ok () := by
  unfold wellFormed
  cases e.validateScope <;> cases validatePayloadRequiredFields e.eventType e.payload <;> simp [Except.toBool]

/-- What a call ends of a task, if its event is well formed. -/
def Call.ends (taskId : String) : Call → Option Work
  | .op o => if o.taskId = taskId ∧ (o.event 0).wellFormed = true then (o.event 0).ends else none
  | .createTask _ _ _ _ _ _ => none
  | .writeEventsBatch _ => none

/-- The broker takes whatever is produced next. -/
def TakesNext (s : BrokerStore) (_ : Call) : Prop := ∀ stream, ∃ seq, s.nextReply stream = .ok seq

/-- What ends something is written without a look at the store. -/
theorem Op.run_of_ends {σ : Type} {store : EventStore σ} {o : Op} {w : Work} (h : (o.event 0).ends = some w) (s : σ) :
    (o.run store s).2 = (store.writeEvent (o.event 0) s).2 := by
  have hwrite : ∀ e, (Op.discard (Service.writeAs store e) s).2 = (store.writeEvent e s).2 := fun e =>
    (state_bind_pure _ _ s).trans (state_bind_pure (store.writeEvent e) _ s)
  cases o with
  | writeEvent e => exact state_bind_pure _ _ s
  | recordEvent t k sid et p => exact state_bind_pure _ _ s
  | markTaskReady | claimTask | blockTask | succeedTask | failTask | cancelTask | startTurn => cases h
  | _ => exact hwrite _

/-- The end of a turn or step does not depend on the state of the task. -/
theorem targetState_of_ends {e : AgentEvent} {w : Work} (h : e.ends = some w) : e.eventType.targetState = none := by
  unfold AgentEvent.ends at h
  cases ht : e.eventType <;> first | rfl | simp [ht, turnTerminals, llmTerminals, toolTerminals] at h

/-- A well-formed event that ends something is appended. -/
theorem log_of_ends {s : BrokerStore} {e : AgentEvent} {w : Work} (h : e.ends = some w) (hwell : e.wellFormed = true)
    (hnext : ∃ seq, s.nextReply e.taskId = .ok seq) :
    ∃ seq, (writeEvent e s).2.log e.taskId = s.log e.taskId ++ [recordOf seq e] := by
  obtain ⟨hscope, hfields⟩ := AgentEvent.wellFormed_iff.mp hwell
  rcases wp_cases (writeEvent_spec e s) with ⟨n, s', heq, -, seq, -, -, hw⟩ | ⟨err, s', heq, -, hnot⟩
  · rw [heq]
    exact ⟨seq, wrote_log hw⟩
  · refine absurd ⟨⟨hscope, hfields, ?_⟩, hnext⟩ hnot
    unfold validateTaskEventTransition
    rw [targetState_of_ends h]

/-- **A call adds a terminal event for what it ends, and no other one.** -/
theorem call_endings {s : BrokerStore} {c : Call} (hsingle : ∀ events, c ≠ .writeEventsBatch events)
    (hnext : TakesNext s c) (taskId : String) (w : Work) :
    (endings ((c.after s).log taskId) w).length =
      (endings (s.log taskId) w).length + if c.ends taskId = some w then 1 else 0 := by
  cases c with
  | op o =>
    by_cases ht : o.taskId = taskId
    · subst ht
      by_cases hends : ∃ w', (o.event 0).wellFormed = true ∧ (o.event 0).ends = some w'
      · obtain ⟨w', hwell, hw'⟩ := hends
        obtain ⟨seq, hlog⟩ := log_of_ends hw' hwell (hnext _)
        have hafter : (Call.op o).after s = (writeEvent (o.event 0) s).2 := Op.run_of_ends hw' s
        rw [Op.event_taskId, ← hafter] at hlog
        have hcall : (Call.op o).ends o.taskId = (o.event 0).ends := if_pos ⟨rfl, hwell⟩
        rw [hlog, endings_append, List.length_append, endings_recordOf, hcall]
      · have hnone : (Call.op o).ends o.taskId = none := by
          refine Option.eq_none_iff_forall_ne_some.mpr fun w' hw' => hends ⟨w', ?_⟩
          simpa [Call.ends] using hw'
        rw [hnone, if_neg (by simp)]
        rcases op_spec o s with ⟨-, hk⟩ | ⟨-, e, seq, s₁, hd, hsame, hacc, -, hwrote⟩
        · exact congrArg (fun log => (endings log w).length) (congrFun hk.streams o.taskId)
        · have hlog := wrote_log hwrote
          have hs₁ : s₁.log o.taskId = s.log o.taskId := congrFun hsame.streams o.taskId
          have hnot : e.ends ≠ some w := by
            intro hw
            obtain ⟨n, rfl⟩ := hd
            have hnum : o.numbersTurn = false := by
              refine Op.numbersTurn_of_eventType fun hstart => ?_
              have hnone := targetState_of_ends hw
              rw [Op.event_eventType, hstart] at hnone
              cases hnone
            rw [Op.event_of_not_numbersTurn hnum n] at hw hacc
            exact hends ⟨w, AgentEvent.wellFormed_iff.mpr ⟨hacc.scope, hacc.fields⟩, hw⟩
          rw [hd.taskId] at hlog
          unfold Call.after Call.run
          rw [hlog, hs₁, endings_append, List.length_append, endings_recordOf, if_neg hnot]
    · have hnone : (Call.op o).ends taskId = none := if_neg fun h => ht h.1
      rw [log_after_of_not_writesTo (show ¬ (Call.op o).WritesTo taskId from ht), hnone, if_neg (by simp)]
      rfl
  | createTask uuid taskType provenance body priority effectivePolicy =>
    have hspec := createTask_spec uuid taskType provenance body priority effectivePolicy s
    show _ = _ + 0
    refine wp_state
      (P := fun s' : BrokerStore => (endings (s'.log taskId) w).length = (endings (s.log taskId) w).length)
      (wp_mono hspec (fun _ s' hs => ?_) fun _ s' hs => ?_)
    · obtain ⟨-, -, r, hr, hs⟩ := hs
      unfold BrokerStore.log
      rw [hs]
      by_cases ht : taskId = createdId uuid
      · rw [ht, Function.update_self, endings_append, endings_created hr, List.append_nil]
      · rw [Function.update_of_ne ht]
    · exact congrArg (fun log => (endings log w).length) (congrFun hs.2.2 taskId)
  | writeEventsBatch events => exact absurd rfl (hsingle events)

/-! ## Runs of the broker store -/

/-- In every run a task has as many terminal events for something as there are calls that end it. -/
theorem run_endings {s : BrokerStore} {calls : List Call} (hsingle : ∀ events, Call.writeEventsBatch events ∉ calls)
    (hm : Meets Call.after TakesNext s calls) (taskId : String) (w : Work) :
    (endings ((run Call.after s calls).log taskId) w).length =
      (endings (s.log taskId) w).length + (calls.filterMap (Call.ends taskId)).count w := by
  induction calls generalizing s with
  | nil => simp
  | cons c calls ih =>
    have hc : ∀ events, c ≠ .writeEventsBatch events := fun events he => hsingle events (he ▸ List.mem_cons_self)
    have hrest : ∀ events, Call.writeEventsBatch events ∉ calls := fun events he =>
      hsingle events (List.mem_cons_of_mem c he)
    rw [run_cons, ih hrest hm.2, call_endings hc hm.1, List.filterMap_cons]
    cases he : c.ends taskId with
    | none => simp
    | some w' =>
      simp only [List.count_cons, Option.some.injEq, beq_iff_eq]
      omega

/-- **A task has unique terminal events exactly if no two calls end the same of it**: the store itself refuses no second
end. The broker takes what is produced, and no call is a batch. -/
theorem uniqueTerminals_iff {s : BrokerStore} {calls : List Call} (hs : ∀ taskId, s.log taskId = [])
    (hsingle : ∀ events, Call.writeEventsBatch events ∉ calls) (hm : Meets Call.after TakesNext s calls)
    (taskId : String) :
    UniqueTerminals ((run Call.after s calls).log taskId) ↔ (calls.filterMap (Call.ends taskId)).Nodup := by
  rw [uniqueTerminals_iff_endings, List.nodup_iff_count_le_one]
  refine forall_congr' fun w => ?_
  rw [run_endings hsingle hm, hs]
  simp [endings, query]

/-- One turn of a task, then its end. -/
def oneTurn (ends : List Op) : List Call :=
  [.createTask "1" "chat" {} none 0 none, .op (.markTaskReady "task_1"), .op (.startTurn "1" "task_1" "hi" none)] ++
    ends.map .op

/-- The theorem at a turn in which a tool is called and answers, and which is completed. -/
theorem uniqueTerminals_iff_completed :
    let calls := oneTurn
      [.recordToolInvoked "task_1" (some 1) "step_1" "fs_read" "call_1" "key_1" (.obj []) none 1 none none,
      .recordToolCompleted "task_1" (some 1) "step_1" "call_1" (.str "text") false 2, .completeTurn "task_1" 1 "done"]
    UniqueTerminals ((run Call.after empty calls).log "task_1") := by
  intro calls
  have hnext : Meets Call.after TakesNext empty calls := by
    have hproduces : Meets Call.after (fun s _ => s.produces = []) empty calls := by
      simp only [calls, oneTurn, List.map_cons, List.map_nil, List.cons_append, List.nil_append, Meets]
      decide +kernel
    rw [meets_iff] at hproduces ⊢
    intro before c rest heq stream
    unfold nextReply
    rw [hproduces before c rest heq]
    exact ⟨_, rfl⟩
  refine (uniqueTerminals_iff (fun _ => rfl) ?_ hnext "task_1").mpr (by decide)
  simp [calls, oneTurn]

/-- A completed turn can be failed as well. -/
theorem complete_then_fail :
    let calls := oneTurn [.completeTurn "task_1" 1 "done", .failTurn "task_1" 1 "application_error" "late" none none]
    Along (fun s c => Call.after s c) (fun s c _ => c.Ok s) empty calls ∧
      ¬ UniqueTerminals ((run (fun s c => Call.after s c) empty calls).log "task_1") := by
  intro calls
  refine ⟨⟨?_, ?_, ?_, ?_, ?_, trivial⟩, fun hu => ?_⟩
  iterate 5
    unfold Call.Ok
    decide +kernel
  · have hlen : (query ((run (fun s c => Call.after s c) empty calls).log "task_1") turnTerminals
        [("turn_id", toString (1 : Int))]).length = 2 := by decide +kernel
    have hle := hu.turn 1
    omega

end Fixus
