import Fixus.Lifecycle.RecoveryReads
import Fixus.Store.Calls

/-!
# The store on the log database

The second implementation of the event store keeps no projection. Every read is a question to the database, and every
write is checked against what the database has.

- `LogdbdStore.AppendRequest`: what is sent to the database;
- `logdbdEventStore`: the store;
- `Issues`: the requests that a call sends, after its checks;
- `call_cases`: a call fails and stores nothing, or its requests are stored one after the other.
-/

namespace Fixus

open Lib Lib.Eff

namespace LogdbdStore

/-! ## Requests -/

/-- A record to be appended to a stream. -/
structure AppendRequest where
  stream : String
  eventType : String
  content : Json
  metadata : Metadata

/-- The tags of a written event. -/
def eventMeta (e : AgentEvent) : Metadata :=
  let m : Metadata := (∅ : Metadata).insert "task_id" e.taskId
  let m := match e.turnId with
    | some tid => m.insert "turn_id" (toString tid)
    | none => m
  let m := match e.stepId with
    | some sid => m.insert "step_id" sid
    | none => m
  m.insert "schema_version" "1"

@[simp] theorem eventMeta_turnId (e : AgentEvent) : (eventMeta e).lookup "turn_id" = e.turnId.map toString := by
  unfold eventMeta
  cases e.turnId <;> cases e.stepId <;> simp [Finmap.lookup_insert_of_ne, Finmap.lookup_insert]

@[simp] theorem eventMeta_stepId (e : AgentEvent) : (eventMeta e).lookup "step_id" = e.stepId := by
  unfold eventMeta
  cases e.turnId <;> cases e.stepId <;> simp [Finmap.lookup_insert_of_ne, Finmap.lookup_insert]

namespace AppendRequest

/-- The request for an event. -/
def ofEvent (e : AgentEvent) : AppendRequest where
  stream := e.taskId
  eventType := e.eventType.asStr
  content := e.payload
  metadata := eventMeta e

/-- The stored record, under its number. -/
def record (q : AppendRequest) (seq : Nat) : Record where
  seq
  eventType := q.eventType
  content := q.content
  metadata := q.metadata

/-- The streams with one more record; the numbers of a stream begin at 1. -/
def appendTo (streams : String → List Record) (q : AppendRequest) : String → List Record :=
  Function.update streams q.stream (streams q.stream ++ [q.record ((streams q.stream).length + 1)])

/-- The numbers that the records of some requests get. -/
def numbers (streams : String → List Record) : List AppendRequest → List Nat
  | [] => []
  | q :: qs => ((streams q.stream).length + 1) :: numbers (appendTo streams q) qs

end AppendRequest

/-- Append one record and return its number. -/
def append (q : AppendRequest) : Eff String LogdbdStore Nat := do
  appendFull q.stream q.eventType q.content q.metadata
  read fun s => (s.streams q.stream).length

/-- Append all records or none. -/
def appendBatch (qs : List AppendRequest) : Eff String LogdbdStore (List Nat) := fun s =>
  let appended := qs.foldl AppendRequest.appendTo s.streams
  let seqs := AppendRequest.numbers s.streams qs
  match s.appends with
  | [] => (.ok seqs, { s with streams := appended })
  | none :: rest => (.ok seqs, { s with streams := appended, appends := rest })
  | some msg :: rest => (.error msg, { s with appends := rest })

/-! ## Writes -/

/-- The request for the creation of a task. -/
def createdRequest (uuid taskType tenantId userId : String) (provenance : Provenance) (body : Option Json)
    (priority : Int) (effectivePolicy : Option EffectivePolicy) : AppendRequest where
  stream := "task_" ++ uuid
  eventType := "task_created"
  content := BrokerStore.createdPayload taskType provenance body priority effectivePolicy
  metadata := ((((∅ : Metadata).insert "task_id" ("task_" ++ uuid)).insert "tenant_id" tenantId).insert
    "user_id" userId).insert "task_type" taskType

def createTask (uuid taskType tenantId userId : String) (provenance : Provenance) (body : Option Json)
    (priority : Int) (effectivePolicy : Option EffectivePolicy) : StoreM LogdbdStore (String × AgentEvent) := do
  let request := createdRequest uuid taskType tenantId userId provenance body priority effectivePolicy
  let seq ← mapErr (fun e => .internal ("logdbd append: " ++ e)) (append request)
  pure (request.stream,
    { taskId := request.stream, seq := wrapI64 seq, turnId := none, stepId := none, eventType := .taskCreated,
      payload := request.content })

/-- The tags are put together before the database is asked; other events ask nothing. -/
def checkTerminalUniqueness (e : AgentEvent) : StoreM LogdbdStore Unit :=
  match conflictTypes e.eventType with
  | none => pure ()
  | some (_, scope) => do
    let _ ← ofExcept (scopeTags e scope)
    let verdict ← runQuery e.taskId fun log => Fixus.checkTerminalUniqueness log e
    ofExcept verdict

/-- The checks of a write. -/
def check (e : AgentEvent) : StoreM LogdbdStore Unit :=
  match e.validateScope with
  | .error msg => fail (.lifecycleInvariant msg)
  | .ok () => do
    ofExcept (validatePayloadRequiredFields e.eventType e.payload)
    checkTerminalUniqueness e

def writeEvent (e : AgentEvent) : StoreM LogdbdStore Int := do
  check e
  let seq ← mapErr (fun e => .internal ("logdbd append: " ++ e)) (append (.ofEvent e))
  pure (wrapI64 seq)

/-- The checks of a batch; each event is compared with what is stored, and not with the batch. -/
def checkEach : List AgentEvent → StoreM LogdbdStore Unit
  | [] => pure ()
  | e :: es => do
    check e
    checkEach es

def writeEventsBatch (events : List AgentEvent) : StoreM LogdbdStore (List Int) :=
  match events with
  | [] => pure []
  | _ :: _ => do
    checkEach events
    let seqs ← mapErr (fun e => .internal ("logdbd append_batch: " ++ e)) (appendBatch (events.map .ofEvent))
    pure (seqs.map fun seq => wrapI64 seq)

/-! ## Reads -/

/-- Where a task comes from when that cannot be read. -/
def unknownProvenance : Provenance := { sourceChannel := "unknown", createdBy := "unknown" }

/-- The report on a task from the record of its creation. -/
def taskOf (taskId : String) (r : Record) (state : TaskState) : Task :=
  let provenance := ((r.content.get "provenance").bind Provenance.ofJson).getD unknownProvenance
  { taskId
    tenantId := ((r.metadata.lookup "tenant_id").or provenance.sourceTenantId).getD "default"
    userId := ((r.metadata.lookup "user_id").or provenance.sourceUserId).getD ""
    taskType := ((r.content.index "task_type").asStr).getD "unknown"
    state
    provenance
    body := (r.content.get "body").filter fun v => !v.isNull
    priority := wrapI32 (((r.content.index "priority").asI64).getD 0)
    effectivePolicy := ((r.content.get "effective_policy").filter fun v => !v.isNull).bind EffectivePolicy.ofJson }

/-- The state from the task events; the database is asked for the turns only if the task is claimed. -/
def deriveState (taskId : String) (records : List Record) : StoreM LogdbdStore TaskState :=
  let base := baseState ((maxBySeq records).map Record.eventType)
  if base = .claimed then runQuery taskId fun log => deriveTaskState log records else pure base

def getTask (taskId : String) : StoreM LogdbdStore (Option Task) := do
  let records ← runQuery taskId readTaskRecords
  match records.find? fun r => r.eventType = "task_created" with
  | none => pure none
  | some r =>
    let state ← deriveState taskId records
    pure (some (taskOf taskId r state))

def getTaskState (taskId : String) : StoreM LogdbdStore (Option TaskState) := do
  let records ← runQuery taskId readTaskRecords
  if records.any fun r => r.eventType = "task_created" then
    let state ← deriveState taskId records
    pure (some state)
  else pure none

def taskExists (taskId : String) : StoreM LogdbdStore Bool :=
  runQuery taskId fun log => !(query log [.taskCreated] []).isEmpty

def isTaskEnded (taskId : String) : StoreM LogdbdStore Bool :=
  runQuery taskId fun log => !(query log [.taskSucceeded, .taskFailed, .taskCanceled] []).isEmpty

def getMaxSeq (taskId : String) : StoreM LogdbdStore Int :=
  runQuery taskId fun log => ((log.map Record.seq).max?.map fun n : Nat => wrapI64 n).getD 0

/-- One record by its number, which is cast to an unsigned one. -/
def getEvent (taskId : String) (seq : Int) : StoreM LogdbdStore (Option AgentEvent) := do
  let log ← mapErr (fun e => .internal ("logdbd read: " ++ e)) (scanAll taskId)
  match log.find? fun r => (r.seq : Int) = seq % 2 ^ 64 with
  | none => pure none
  | some r =>
    let e ← ofExcept (eventFromRecord taskId r)
    pure (some e)

/-- The types that a scan keeps. -/
def keepTypes : List EventType :=
  [.turnStarted, .turnCompleted, .turnFailed, .turnCanceled, .turnBlocked, .llmInvoked, .llmCompleted, .llmFailed,
    .toolInvoked, .toolCompleted, .toolFailed]

def getEventsAfterSeq (taskId : String) (afterSeq : Int) : StoreM LogdbdStore (List AgentEvent) := do
  let log ← mapErr (fun e => .internal ("logdbd scan: " ++ e)) (scanAll taskId)
  ofExcept ((query (since log afterSeq) keepTypes []).mapM (eventFromRecord taskId))

/-- The largest turn tag, as the database computes it. -/
def getMaxTurnId (maxTurnTag : List Record → Option Nat) (taskId : String) : StoreM LogdbdStore Int :=
  runQuery taskId fun log => ((maxTurnTag log).map fun n : Nat => wrapI64 n).getD 0

end LogdbdStore

/-- The store on the log database. It publishes no turns and has nothing to invalidate. -/
def logdbdEventStore (maxTurnTag : List Record → Option Nat) : EventStore LogdbdStore where
  createTask := LogdbdStore.createTask
  writeEvent := LogdbdStore.writeEvent
  writeEventsBatch := LogdbdStore.writeEventsBatch
  getTask := LogdbdStore.getTask
  getTaskState := LogdbdStore.getTaskState
  taskExists := LogdbdStore.taskExists
  isTaskEnded := LogdbdStore.isTaskEnded
  getMaxSeq := LogdbdStore.getMaxSeq
  getMaxTurnId := LogdbdStore.getMaxTurnId maxTurnTag
  getTurnEvents := LogdbdStore.getTurnEvents
  getIncompleteTurns taskId _ := LogdbdStore.getIncompleteTurns taskId
  getIncompleteSteps taskId _ := LogdbdStore.getIncompleteSteps taskId
  publishTurnBegin _ _ _ := pure ()
  invalidateProjection _ := pure ()

/-! ## What the operations do -/

namespace LogdbdStore

variable {α : Type} {s : LogdbdStore} {taskId : String}

/-- The computation leaves the streams alone. -/
abbrev KeepsStreams (m : StoreM LogdbdStore α) : Prop := Keeps (fun s s' : LogdbdStore => s'.streams = s.streams) m

theorem keepsStreams_bind {β : Type} {m : StoreM LogdbdStore α} {f : α → StoreM LogdbdStore β} (hm : KeepsStreams m)
    (hf : ∀ a, KeepsStreams (f a)) : KeepsStreams (m >>= f) := Keeps.bind (fun _ _ _ h h' => h'.trans h) hm hf

theorem keepsStreams_pure (a : α) : KeepsStreams (pure a : StoreM LogdbdStore α) := fun _ => rfl

/-- A question sees the whole stream, and changes no stream. -/
theorem runQuery_spec (ask : List Record → α) :
    wp (runQuery taskId ask) (fun a s' => a = ask (s.streams taskId) ∧ s'.streams = s.streams)
      (fun _ s' => s'.streams = s.streams) s := by
  have hscan : wp (mapErr (fun e => AppError.internal ("logdbd query: " ++ e)) (scanAll taskId))
      (fun log s' => log = s.streams taskId ∧ s'.streams = s.streams) (fun _ s' => s'.streams = s.streams) s := by
    unfold wp mapErr scanAll
    cases s.scans with
    | nil => exact ⟨rfl, rfl⟩
    | cons reply rest => cases reply <;> first | exact ⟨rfl, rfl⟩ | rfl
  unfold runQuery
  rw [wp_bind]
  refine wp_mono hscan (fun log s' h => ?_) fun _ _ h => h
  exact ⟨congrArg ask h.1, h.2⟩

theorem keepsStreams_runQuery (ask : List Record → α) : KeepsStreams (runQuery taskId ask) := fun _ =>
  wp_state (wp_mono (runQuery_spec ask) (fun _ _ h => h.2) fun _ _ h => h)

theorem keepsStreams_deriveState (records : List Record) : KeepsStreams (deriveState taskId records) := by
  unfold deriveState
  dsimp only
  split
  · exact keepsStreams_runQuery _
  · exact keepsStreams_pure _

theorem keepsStreams_getTaskState : KeepsStreams (getTaskState taskId) := by
  refine keepsStreams_bind (keepsStreams_runQuery _) fun records => ?_
  split
  · exact keepsStreams_bind (keepsStreams_deriveState _) fun _ => keepsStreams_pure _
  · exact keepsStreams_pure _

end LogdbdStore

/-- The reads about a task keep the streams. -/
theorem logdbdEventStore_readsOnly (maxTurnTag : List Record → Option Nat) (taskId : String) :
    ReadsOnly (logdbdEventStore maxTurnTag) (fun s s' : LogdbdStore => s'.streams = s.streams) taskId where
  refl _ := rfl
  trans h h' := h'.trans h
  getTaskState := LogdbdStore.keepsStreams_getTaskState
  taskExists := LogdbdStore.keepsStreams_runQuery _
  isTaskEnded := LogdbdStore.keepsStreams_runQuery _
  getMaxTurnId := LogdbdStore.keepsStreams_runQuery _

/-! ## Calls -/

/-- An event that passes the checks of a write, against the records of its task. -/
structure PassesChecks (log : List Record) (e : AgentEvent) : Prop where
  scope : e.validateScope = .ok ()
  payload : validatePayloadRequiredFields e.eventType e.payload = .ok ()
  terminals : checkTerminalUniqueness log e = .ok ()

namespace LogdbdStore

variable {s : LogdbdStore}

theorem mapErr_spec {α : Type} {f : String → AppError} {m : Eff String LogdbdStore α} {Q : α → LogdbdStore → Prop}
    {E : LogdbdStore → Prop} (h : wp m Q (fun _ => E) s) : wp (mapErr f m) Q (fun _ => E) s := by
  unfold wp mapErr at *
  cases hm : m s with
  | mk r s' =>
    rw [hm] at h
    cases r <;> exact h

/-- One record is appended, or none. -/
theorem append_spec (q : AppendRequest) :
    wp (append q) (fun seq s' => seq = (s.streams q.stream).length + 1 ∧ s'.streams = q.appendTo s.streams)
      (fun _ s' => s'.streams = s.streams) s := by
  have hfull : wp (appendFull q.stream q.eventType q.content q.metadata) (fun _ s' => s'.streams = q.appendTo s.streams)
      (fun _ s' => s'.streams = s.streams) s := by
    unfold wp appendFull
    cases s.appends with
    | nil => rfl
    | cons reply rest => cases reply <;> rfl
  unfold append
  rw [wp_bind]
  refine wp_mono hfull (fun _ s' h => ?_) fun _ _ h => h
  rw [wp_read, h]
  exact ⟨by simp [AppendRequest.appendTo], rfl⟩

/-- All records are appended, or none. -/
theorem appendBatch_spec (qs : List AppendRequest) :
    wp (appendBatch qs) (fun _ s' => s'.streams = qs.foldl (fun streams q => q.appendTo streams) s.streams)
      (fun _ s' => s'.streams = s.streams) s := by
  unfold wp appendBatch
  cases s.appends with
  | nil => rfl
  | cons reply rest => cases reply <;> rfl

/-- The check reads, and lets pass what passes it. -/
theorem check_spec (e : AgentEvent) :
    wp (check e) (fun _ s' => PassesChecks (s.streams e.taskId) e ∧ s'.streams = s.streams)
      (fun _ s' => s'.streams = s.streams) s := by
  unfold check
  cases hscope : e.validateScope with
  | error msg => rfl
  | ok =>
    dsimp only
    rw [wp_bind]
    cases hpayload : validatePayloadRequiredFields e.eventType e.payload with
    | error err => rfl
    | ok =>
      rw [wp_ofExcept_ok]
      unfold checkTerminalUniqueness
      cases hconflict : conflictTypes e.eventType with
      | none =>
        refine ⟨⟨hscope, hpayload, ?_⟩, rfl⟩
        unfold Fixus.checkTerminalUniqueness
        rw [hconflict]
      | some types =>
        dsimp only
        rw [wp_bind]
        cases scopeTags e types.2 with
        | error err => rfl
        | ok tags =>
          rw [wp_ofExcept_ok, wp_bind]
          refine wp_mono (runQuery_spec _) (fun verdict s' h => ?_) fun _ _ h => h
          obtain ⟨rfl, hstreams⟩ := h
          cases hverdict : Fixus.checkTerminalUniqueness (s.streams e.taskId) e with
          | error err => exact hstreams
          | ok => exact ⟨⟨hscope, hpayload, hverdict⟩, hstreams⟩

/-- A checked event is appended, or nothing. -/
theorem writeEvent_spec (e : AgentEvent) :
    wp (writeEvent e) (fun _ s' => PassesChecks (s.streams e.taskId) e ∧
        s'.streams = (AppendRequest.ofEvent e).appendTo s.streams)
      (fun _ s' => s'.streams = s.streams) s := by
  unfold writeEvent
  rw [wp_bind]
  refine wp_mono (check_spec e) (fun _ s₁ h₁ => ?_) fun _ _ h => h
  rw [wp_bind]
  refine wp_mono (mapErr_spec (append_spec _)) (fun seq s₂ h₂ => ?_) fun _ _ h => h.trans h₁.2
  exact ⟨h₁.1, by rw [h₂.2, h₁.2]⟩

theorem checkEach_spec (events : List AgentEvent) :
    wp (checkEach events) (fun _ s' => (∀ e ∈ events, PassesChecks (s.streams e.taskId) e) ∧ s'.streams = s.streams)
      (fun _ s' => s'.streams = s.streams) s := by
  induction events generalizing s with
  | nil => exact ⟨by simp, rfl⟩
  | cons e es ih =>
    unfold checkEach
    rw [wp_bind]
    refine wp_mono (check_spec e) (fun _ s₁ h₁ => ?_) fun _ _ h => h
    refine wp_mono ih (fun _ s₂ h₂ => ?_) fun _ _ h => h.trans h₁.2
    refine ⟨List.forall_mem_cons.mpr ⟨h₁.1, fun e' he' => ?_⟩, h₂.2.trans h₁.2⟩
    rw [← h₁.2]
    exact h₂.1 e' he'

/-- The greatest turn of a task, as the database gives it. -/
def maxTurn (maxTurnTag : List Record → Option Nat) (s : LogdbdStore) (taskId : String) : Int :=
  ((maxTurnTag (s.streams taskId)).map fun n : Nat => wrapI64 n).getD 0

/-- The event of an operation on the database. -/
def eventFor (maxTurnTag : List Record → Option Nat) (s : LogdbdStore) (o : Op) : AgentEvent :=
  o.event (maxTurn maxTurnTag s o.taskId)

/-- The requests that a call sends: an operation one for its event, the creation of a task its own, a batch one for each
event. -/
def Issues (maxTurnTag : List Record → Option Nat) (s : LogdbdStore) : Call → List AppendRequest → Prop
  | .op o, qs => PassesChecks (s.streams o.taskId) (eventFor maxTurnTag s o) ∧ qs = [.ofEvent (eventFor maxTurnTag s o)]
  | .createTask uuid taskType provenance body priority effectivePolicy, qs =>
    qs = [createdRequest uuid taskType (provenance.sourceTenantId.getD "default") (provenance.sourceUserId.getD "")
      provenance body priority effectivePolicy]
  | .writeEventsBatch events, qs => (∀ e ∈ events, PassesChecks (s.streams e.taskId) e) ∧ qs = events.map .ofEvent

/-- The store after a call. -/
def after (maxTurnTag : List Record → Option Nat) (s : LogdbdStore) (c : Call) : LogdbdStore :=
  (c.run (logdbdEventStore maxTurnTag) s).2

/-- The call succeeds. -/
def Accepts (maxTurnTag : List Record → Option Nat) (s : LogdbdStore) (c : Call) : Prop :=
  (c.run (logdbdEventStore maxTurnTag) s).1 = .ok ()

/-- The database gives the greatest turn of the streams as they are. -/
theorem getMaxTurnId_eq {maxTurnTag : List Record → Option Nat} {m : Int}
    (h : (getMaxTurnId maxTurnTag taskId s).1 = .ok m) : m = maxTurn maxTurnTag s taskId := by
  unfold getMaxTurnId at h
  cases hrun : runQuery taskId (fun log => ((maxTurnTag log).map fun n : Nat => wrapI64 n).getD 0) s with
  | mk r s' =>
    rw [hrun] at h
    subst h
    exact (wp_ok (runQuery_spec _) hrun).1

/-- An operation on a task fails and stores nothing, or stores its event. -/
theorem op_spec (maxTurnTag : List Record → Option Nat) (s : LogdbdStore) (o : Op) :
    wp (o.run (logdbdEventStore maxTurnTag))
      (fun _ s' => ∃ qs, Issues maxTurnTag s (.op o) qs ∧
        s'.streams = qs.foldl (fun streams q => q.appendTo streams) s.streams)
      (fun _ s' => s'.streams = s.streams) s := by
  obtain ⟨s₁, hR, hcase⟩ := o.writesFrom (logdbdEventStore_readsOnly maxTurnTag o.taskId) s
  unfold wp
  cases hrun : o.run (logdbdEventStore maxTurnTag) s with
  | mk r s' =>
    rw [hrun] at hcase
    rcases hcase with ⟨err, herr⟩ | ⟨e, ⟨m, rfl, hmax⟩, hs, hok⟩
    · obtain ⟨rfl, rfl⟩ := Prod.mk.inj herr
      exact hR
    · have hevent : o.event m = eventFor maxTurnTag s o := by
        refine Op.event_congr fun hnum => ?_
        obtain ⟨s₂, hs₂, hm⟩ := hmax hnum
        have hm' := getMaxTurnId_eq hm
        unfold maxTurn at hm' ⊢
        rwa [hs₂] at hm'
      rw [hevent] at hs hok
      have hs' : s' = (LogdbdStore.writeEvent (eventFor maxTurnTag s o) s₁).2 := hs
      have hok' : (∃ u, r = .ok u) ↔ ∃ seq, (LogdbdStore.writeEvent (eventFor maxTurnTag s o) s₁).1 = .ok seq := hok
      have htask : (eventFor maxTurnTag s o).taskId = o.taskId := o.event_taskId _
      rcases wp_cases (writeEvent_spec (s := s₁) (eventFor maxTurnTag s o)) with
        ⟨seq, s₂, heq, hchecked, hstored⟩ | ⟨err, s₂, heq, hsame⟩
      · rw [heq] at hs' hok'
        obtain ⟨u, rfl⟩ := hok'.mpr ⟨seq, rfl⟩
        rw [hR] at hchecked hstored
        exact ⟨_, ⟨htask ▸ hchecked, rfl⟩, hs' ▸ hstored⟩
      · rw [heq] at hs' hok'
        cases r with
        | error err' => exact hs' ▸ hsame.trans hR
        | ok u =>
          obtain ⟨seq, hseq⟩ := hok'.mp ⟨u, rfl⟩
          cases hseq

/-- **A call fails and stores nothing, or its requests are stored one after the other.** -/
theorem call_cases (maxTurnTag : List Record → Option Nat) (s : LogdbdStore) (c : Call) :
    (¬ Accepts maxTurnTag s c ∧ (after maxTurnTag s c).streams = s.streams) ∨
      (Accepts maxTurnTag s c ∧ ∃ qs, Issues maxTurnTag s c qs ∧
        (after maxTurnTag s c).streams = qs.foldl (fun streams q => q.appendTo streams) s.streams) := by
  have hcall : wp (c.run (logdbdEventStore maxTurnTag))
      (fun _ s' => ∃ qs, Issues maxTurnTag s c qs ∧
        s'.streams = qs.foldl (fun streams q => q.appendTo streams) s.streams)
      (fun _ s' => s'.streams = s.streams) s := by
    cases c with
    | op o => exact op_spec maxTurnTag s o
    | createTask uuid taskType provenance body priority effectivePolicy =>
      unfold Call.run Op.discard
      rw [wp_bind]
      show wp (LogdbdStore.createTask _ _ _ _ _ _ _ _) _ _ s
      unfold LogdbdStore.createTask
      dsimp only
      rw [wp_bind]
      exact wp_mono (mapErr_spec (append_spec _)) (fun _ _ h => ⟨_, rfl, h.2⟩) fun _ _ h => h
    | writeEventsBatch events =>
      unfold Call.run Op.discard
      rw [wp_bind]
      show wp (LogdbdStore.writeEventsBatch events) _ _ s
      cases events with
      | nil => exact ⟨[], ⟨by simp, rfl⟩, rfl⟩
      | cons e es =>
        unfold LogdbdStore.writeEventsBatch
        dsimp only
        rw [wp_bind]
        refine wp_mono (checkEach_spec (e :: es)) (fun _ s₁ h₁ => ?_) fun _ _ h => h
        rw [wp_bind]
        refine wp_mono (mapErr_spec (appendBatch_spec _)) (fun _ s₂ h₂ => ?_) fun _ _ h => h.trans h₁.2
        exact ⟨_, ⟨h₁.1, rfl⟩, by rw [h₂, h₁.2]⟩
  unfold Accepts after
  rcases wp_cases hcall with ⟨u, s', heq, hqs⟩ | ⟨err, s', heq, hsame⟩
  · rw [heq]
    exact Or.inr ⟨rfl, hqs⟩
  · rw [heq]
    exact Or.inl ⟨by simp, hsame⟩

end LogdbdStore

end Fixus
