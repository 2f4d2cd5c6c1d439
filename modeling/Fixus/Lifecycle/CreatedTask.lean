import Fixus.Lifecycle.BrokerHistory
import Fixus.Policy.Text

/-!
# The task as it was asked for

What the creator of a task has asked for is written once, as the payload of `task_created`. The production store keeps
it in the projection of the task, which is replayed, cached, folded into and thrown away many times.

- `TaskRequest`: type, provenance, body, priority and policy;
- `applyCreated_asked`: they survive the way through the payload;
- `applyHead_asked`: no other event touches them;
- `created_task_reported`: in every run the store reports the task as it was asked for.
-/

namespace Fixus

open Lib Lib.Eff BrokerStore TaskProjection

/-! ## What is asked for -/

/-- What the creator of a task asks for. -/
structure TaskRequest where
  taskType : String
  provenance : Provenance
  body : Option Json
  priority : Int
  effectivePolicy : Option EffectivePolicy

namespace TaskRequest

def payload (q : TaskRequest) : Json := createdPayload q.taskType q.provenance q.body q.priority q.effectivePolicy

def event (q : TaskRequest) (uuid : String) : AgentEvent :=
  createdEvent uuid q.taskType q.provenance q.body q.priority q.effectivePolicy

/-- A body that is null is no body. -/
def stored (q : TaskRequest) : TaskRequest := { q with body := q.body.filter fun v => !v.isNull }

/-- The task that was asked for, in a state. -/
def task (q : TaskRequest) (taskId : String) (state : TaskState) : Task where
  taskId := taskId
  tenantId := q.provenance.sourceTenantId.getD ""
  userId := q.provenance.sourceUserId.getD ""
  taskType := q.taskType
  state := state
  provenance := q.provenance
  body := q.stored.body
  priority := q.priority
  effectivePolicy := q.effectivePolicy

end TaskRequest

/-- What a projection has kept of it. -/
def TaskProjection.asked (p : TaskProjection) : TaskRequest :=
  ⟨p.taskType, p.provenance, p.body, p.priority, p.effectivePolicy⟩

variable {q : TaskRequest}

namespace TaskProjection

/-- **The request survives the way through the payload**, whatever was known before. -/
theorem applyCreated_asked (hq : InI32 q.priority) (p : TaskProjection) :
    (p.applyCreated q.payload).asked = q.stored := by
  have htype : ((q.payload.index "task_type").asStr).getD "?" = q.taskType := rfl
  have hprovenance : ((q.payload.get "provenance").bind Provenance.ofJson).getD p.provenance = q.provenance := by
    have hget : q.payload.get "provenance" = some q.provenance.toJson := rfl
    rw [hget, Option.bind_some, Provenance.ofJson_toJson, Option.getD_some]
  have hbody : (q.payload.get "body").filter (fun v => !v.isNull) = q.body.filter fun v => !v.isNull := by
    have hget : q.payload.get "body" = some (q.body.getD .null) := rfl
    rw [hget]
    cases q.body <;> rfl
  have hpriority : wrapI32 (((q.payload.index "priority").asI64).getD 0) = q.priority := by
    have hasI64 : (q.payload.index "priority").asI64 = some q.priority := by
      have hindex : q.payload.index "priority" = .int q.priority := rfl
      rw [hindex]
      simp [Json.asI64, hq.inI64]
    rw [hasI64, Option.getD_some, wrapI32_of_inI32 hq]
  have hpolicy : ((q.payload.get "effective_policy").filter fun v => !v.isNull).bind EffectivePolicy.ofJson =
      q.effectivePolicy := by
    have hget : q.payload.get "effective_policy" =
        some ((q.effectivePolicy.map EffectivePolicy.toJson).getD .null) := rfl
    rw [hget]
    cases q.effectivePolicy with
    | none => rfl
    | some policy => exact EffectivePolicy.ofJson_toJson policy
  unfold applyCreated asked TaskRequest.stored
  rw [htype, hprovenance, hbody, hpriority, hpolicy]

theorem index_asked (p : TaskProjection) (ae : AgentEvent) : (p.index ae).asked = p.asked := by
  unfold index
  cases ae.turnId <;> rfl

theorem closeStep_asked (p : TaskProjection) (ae : AgentEvent) : (p.closeStep ae).asked = p.asked := by
  unfold closeStep
  split
  · rfl
  · split <;> rfl

theorem addUsage_asked (p : TaskProjection) (v : Json) : (p.addUsage v).asked = p.asked := by
  unfold addUsage
  cases v.get "usage" <;> rfl

/-- Only a creation touches what was asked for. -/
theorem applyHead_asked (p : TaskProjection) {ae : AgentEvent} (h : ae.eventType ≠ .taskCreated) :
    (p.applyHead ae).asked = p.asked := by
  unfold applyHead
  cases ht : ae.eventType <;> first
    | exact absurd ht h
    | rfl
    | (cases ae.stepId <;> rfl)
    | simp [closeStep_asked, addUsage_asked]

end TaskProjection

/-! ## Through the text -/

theorem Provenance.exact_toJson (p : Provenance) (d : Nat) : p.toJson.Exact (d + 1) := by
  obtain ⟨channel, session, user, tenant, message, createdAt, createdBy⟩ := p
  cases session <;> cases user <;> cases tenant <;> cases message <;> simp [toJson, optField]

theorem Provenance.optStr_sorted (v : Json) (key : String) : optStr v.sorted key = optStr v key := by
  unfold optStr
  rw [Json.get_sorted]
  cases v.get key with
  | none => rfl
  | some w => cases w <;> rfl

theorem Provenance.ofJson_sorted (v : Json) : ofJson v.sorted = ofJson v := by
  simp [ofJson, optStr_sorted, Option.bind_map]

/-- The request as it comes back from a text: the keys of the body are in order. -/
def TaskRequest.reread (q : TaskRequest) : TaskRequest := { q.stored with body := q.stored.body.map Json.sorted }

/-- A request whose body is written without floats and within the depth that the reader allows. -/
theorem TaskRequest.exact_payload (hq : InI32 q.priority) (hbody : ∀ v ∈ q.body, v.Exact 126) :
    q.payload.Exact 127 := by
  have hnull : Json.Exact 126 .null := trivial
  have hbody' : (q.body.getD .null).Exact 126 := by
    cases hb : q.body with
    | none => exact hnull
    | some v => exact hbody v hb
  have hpolicy : ((q.effectivePolicy.map EffectivePolicy.toJson).getD .null).Exact 126 := by
    cases q.effectivePolicy with
    | none => exact hnull
    | some policy => exact policy.exact_toJson 121
  have hpriority : Json.Exact 126 (.int q.priority) := by
    obtain ⟨hlo, hhi⟩ := hq
    exact Json.exact_int.mpr ⟨by omega, by omega⟩
  simp [payload, createdPayload, q.provenance.exact_toJson 125, hbody', hpriority, hpolicy]

namespace TaskProjection

/-- A payload with its keys in order says the same. -/
theorem applyCreated_sorted (p : TaskProjection) (v : Json) : (p.applyCreated v.sorted).asked =
    { (p.applyCreated v).asked with body := (p.applyCreated v).asked.body.map Json.sorted } := by
  have hnull : ∀ o : Option Json, (o.map Json.sorted).filter (fun v => !v.isNull) =
      (o.filter fun v => !v.isNull).map Json.sorted := by
    intro o
    cases o with
    | none => rfl
    | some v => cases v <;> rfl
  have hindex : ∀ key, v.sorted.index key = (v.index key).sorted := by
    intro key
    unfold Json.index
    rw [Json.get_sorted]
    cases v.get key <;> rfl
  have hint : ∀ w : Json, w.sorted.asI64 = w.asI64 := fun w => by cases w <;> rfl
  unfold applyCreated asked
  simp only [hindex, Json.asStr_sorted, hint, Json.get_sorted, hnull, Option.bind_map, Function.comp_def,
    Provenance.ofJson_sorted, EffectivePolicy.ofJson_sorted]

/-- **What is read back from the text of a request is the request.** -/
theorem applyCreated_reread (hq : InI32 q.priority) (p : TaskProjection) :
    (p.applyCreated q.payload.sorted).asked = q.reread := by
  rw [applyCreated_sorted, applyCreated_asked hq]
  rfl

end TaskProjection

/-- A record as a consumer reads it: its content is what its text reads back as, or null. -/
def Record.reread (serde : SerdeJson) (r : Record) : Record :=
  { r with content := (serde.fromStr (serde.toString r.content)).getD .null }

/-! ## Along a log -/

variable {taskId : String} {log : List Record} {events : List AgentEvent}

/-- The record has the type of the event, and what a creation carries, if it is one. -/
def Carries (c : Json) (r : Record) (e : AgentEvent) : Prop :=
  EventType.fromStr r.eventType = some e.eventType ∧ (e.eventType = .taskCreated → r.content = c)

/-- After a log with a creation, all of which carry the same, the projection has what that says. -/
theorem foldl_asked {c : Json} {a : TaskRequest} (hc : ∀ p : TaskProjection, (p.applyCreated c).asked = a)
    (h : List.Forall₂ (Carries c) log events) (p : TaskProjection)
    (hp : (∃ e ∈ events, e.eventType = .taskCreated) ∨ p.asked = a) : (log.foldl applyIgnoring p).asked = a := by
  induction h generalizing p with
  | nil =>
    rcases hp with ⟨e, he, -⟩ | hp
    · cases he
    · exact hp
  | @cons r e log events hr _ ih =>
    rw [List.foldl_cons]
    refine ih _ ?_
    rw [applyIgnoring_some hr.1]
    by_cases hcreated : e.eventType = .taskCreated
    · right
      have hhead : ∀ p' : TaskProjection, (p'.applyHead (eventOf p.taskId e.eventType r)).asked = a := by
        intro p'
        have htype : (eventOf p.taskId e.eventType r).eventType = .taskCreated := hcreated
        unfold applyHead
        rw [htype]
        show (p'.applyCreated r.content).asked = a
        rw [hr.2 hcreated, hc]
      exact hhead _
    · rcases hp with ⟨e', he', hc'⟩ | hp
      · rcases List.mem_cons.mp he' with rfl | he'
        · exact absurd hc' hcreated
        · exact Or.inl ⟨e', he', hc'⟩
      · right
        rw [applyHead_asked _ (show (eventOf p.taskId e.eventType r).eventType ≠ .taskCreated from hcreated),
          index_asked,
          hp]

/-- The records of a history carry the request, and so do the texts that they are read from. -/
theorem carries_of_logged (serde : SerdeJson) (hexact : q.payload.Exact 127) (h : Logged taskId log events)
    (honly : ∀ e ∈ events, e.eventType = .taskCreated → e.payload = q.payload) :
    List.Forall₂ (Carries q.payload) log events ∧
      List.Forall₂ (Carries q.payload.sorted) (log.map (Record.reread serde)) events := by
  induction h with
  | nil => exact ⟨.nil, .nil⟩
  | @cons r e log events hr _ ih =>
    obtain ⟨honlyE, honly⟩ := List.forall_mem_cons.mp honly
    have hcontent : e.eventType = .taskCreated → r.content = q.payload := fun hc =>
      (congrArg AgentEvent.payload hr.event).trans (honlyE hc)
    refine ⟨.cons ⟨hr.eventType, hcontent⟩ (ih honly).1, .cons ⟨hr.eventType, fun hc => ?_⟩ (ih honly).2⟩
    show (serde.fromStr (serde.toString r.content)).getD .null = q.payload.sorted
    rw [hcontent hc, serde.fromStr_toString hexact, Option.getD_some]

/-! ## Runs -/

/-- **In every run the production store reports a task as it was asked for**, in the state that its events have led to,
if consumer sessions are healthy and nobody else has written a creation of the task. A body without floats and within
the depth of the reader has also survived the text of its record. -/
theorem created_task_reported (serde : SerdeJson) {replies : List ProduceReply} {calls : List Call}
    (hfits : ∀ c ∈ calls, c.TurnsFit) (hone : ∀ c ∈ calls, c.OneTask)
    (hnew : Meets Call.after CreatesNew (startWith replies) calls)
    (hrecorded : RecordedRun Call.Ok Call.after maxTurn (startWith replies) calls events) {uuid : String}
    (hq : InI32 q.priority) (hbody : ∀ v ∈ q.body, v.Exact 126) (hmem : q.event uuid ∈ events)
    (honly : ∀ e ∈ events, e.taskId = createdId uuid → e.eventType = .taskCreated → e = q.event uuid) :
    Shows (brokerEventStore.getTask (createdId uuid))
        (some (q.task (createdId uuid) (stateFrom (events.filter fun e => e.taskId = createdId uuid))))
        (run Call.after (startWith replies) calls) ∧
      (replay (createdId uuid)
        (((run Call.after (startWith replies) calls).log (createdId uuid)).map (Record.reread serde))).asked =
          q.reread := by
  have hempty : ∀ taskId, (startWith replies).streams taskId = [] := fun _ => rfl
  obtain ⟨events', hrecorded', hlogged⟩ :=
    run_logs (loggedAll_nil hempty) (tracks_start replies) hfits hone hnew
  obtain rfl := hrecorded.unique hrecorded'
  have ht := run_tracks (tracks_start replies) hone hnew (createdId uuid)
  have hlog : Logged (createdId uuid) ((run Call.after (startWith replies) calls).log (createdId uuid))
      (events.filter fun e => e.taskId = createdId uuid) := hlogged (createdId uuid)
  have hcreated : ∃ e ∈ events.filter (fun e => e.taskId = createdId uuid), e.eventType = .taskCreated :=
    ⟨q.event uuid, List.mem_filter.mpr ⟨hmem, decide_eq_true rfl⟩, rfl⟩
  obtain ⟨hcarries, hreread⟩ := carries_of_logged serde (q.exact_payload hq hbody) hlog fun e he hc => by
    obtain ⟨he, htask⟩ := List.mem_filter.mp he
    rw [honly e he (of_decide_eq_true htask) hc]
    rfl
  refine ⟨?_, foldl_asked (applyCreated_reread hq) hreread _ (Or.inl hcreated)⟩
  have hasked : (replay (createdId uuid) ((run Call.after (startWith replies) calls).log (createdId uuid))).asked =
      q.stored := foldl_asked (applyCreated_asked hq) hcarries _ (Or.inl hcreated)
  have hstate : (replay (createdId uuid) ((run Call.after (startWith replies) calls).log (createdId uuid))).state =
      stateFrom (events.filter fun e => e.taskId = createdId uuid) :=
    (replay_state _ _).trans (stateOf_types (hlog.imp fun r e hr => hr.eventType))
  refine wp_mono (getTask_healthy ht.healthy) (fun answer _ hanswer => ?_) fun _ _ hf => hf
  rw [hanswer.1, ht.view]
  generalize replay (createdId uuid) ((run Call.after (startWith replies) calls).log (createdId uuid)) = p
    at hasked hstate
  have htype : p.taskType = q.taskType := congrArg TaskRequest.taskType hasked
  have hprovenance : p.provenance = q.provenance := congrArg TaskRequest.provenance hasked
  have hbody : p.body = q.stored.body := congrArg TaskRequest.body hasked
  have hpriority : p.priority = q.priority := congrArg TaskRequest.priority hasked
  have hpolicy : p.effectivePolicy = q.effectivePolicy := congrArg TaskRequest.effectivePolicy hasked
  unfold taskOf TaskRequest.task
  rw [htype, hprovenance, hbody, hpriority, hpolicy, hstate]

/-- The request that `createTask1` makes. -/
def request1 : TaskRequest where
  taskType := "chat"
  provenance := { sourceChannel := "web", sourceUserId := some "u1", sourceTenantId := some "acme" }
  body := some (.obj [("goal", .str "read the notes")])
  priority := 3
  effectivePolicy :=
    some ⟨⟨[⟨"/data", .workDir⟩], [⟨"/data/out", .workDir⟩]⟩, ⟨[⟨"example.org", [443], some .httpsApi⟩]⟩, .operator⟩

/-- What the calls of `toolTurn` have added. -/
def toolTurnEvents : List AgentEvent :=
  request1.event "1" :: [Op.markTaskReady "task_1", .startTurn "9" "task_1" "hi" none,
    .recordToolInvoked "task_1" (some 1) "step_1" "fs_read" "call_1" "key_1" (.obj [("path", .str "/data/notes")])
      none 1 none none,
    .recordToolCompleted "task_1" (some 1) "step_1" "call_1" (.str "text") false 2,
    .completeTurn "task_1" 1 "done"].map (Op.event 0)

theorem recordedRun_toolTurn : RecordedRun Call.Ok Call.after maxTurn (startWith []) toolTurn toolTurnEvents := by
  refine .cons (.created ?_) (.cons (.of_maxTurn ?_ fun h => ?_)
    (.cons (.refused ?_) (.cons (.of_maxTurn ?_ fun _ => ?_)
    (.cons (.of_maxTurn ?_ fun h => ?_) (.cons (.of_maxTurn ?_ fun h => ?_)
    (.cons (.of_maxTurn ?_ fun h => ?_) .nil))))))
  all_goals first
    | cases h
    | (unfold Call.Ok; decide +kernel)
    | decide +kernel

/-- The theorem at that run. -/
theorem created_task_reported_toolTurn :
    Shows (brokerEventStore.getTask (createdId "1")) (some (request1.task (createdId "1") .executing))
        (run Call.after (startWith []) toolTurn) ∧
      (replay (createdId "1") (((run Call.after (startWith []) toolTurn).log (createdId "1")).map
        (Record.reread SerdeJson.limited))).asked = request1.reread := by
  have hbody : ∀ v ∈ request1.body, v.Exact 126 := by simp [request1]
  have hmem : request1.event "1" ∈ toolTurnEvents := List.mem_cons_self
  have honly : ∀ e ∈ toolTurnEvents, e.taskId = createdId "1" → e.eventType = .taskCreated →
    e = request1.event "1" := by
    intro e he _ hc
    rcases List.mem_cons.mp he with rfl | he
    · rfl
    · obtain ⟨o, ho, rfl⟩ := List.mem_map.mp he
      rw [Op.event_eventType] at hc
      simp only [List.mem_cons, List.not_mem_nil, or_false] at ho
      rcases ho with rfl | rfl | rfl | rfl | rfl <;> cases hc
  have hstate : stateFrom (toolTurnEvents.filter fun e => e.taskId = createdId "1") = .executing := by decide +kernel
  have h := created_task_reported SerdeJson.limited toolTurn_turnsFit toolTurn_oneTask toolTurn_createsNew
    recordedRun_toolTurn (by decide) hbody hmem honly
  rwa [hstate] at h

end Fixus
