import Fixus.Store.Interface

/-!
# The broker-backed store

Writes go to the broker, one stream for each task; reads go through an LRU cache of projections, filled by consuming
the stream (`catchUp`). What the broker does is a script: the outcomes of the next `produce` calls and of the next
consumer sessions. When a script has run out the broker is healthy: it appends the record, and a session delivers
the whole stream and reports it caught up.

- `writeEvent_spec`: what an accepted and what a rejected write does to the streams and to the cache;
- `keeps_withProjection`, `keeps_taskExists`: reads leave the streams alone and never change a cached projection of
  the task they are about;
- `brokerEventStore_readsOnly`: the reads keep `SameTask`.
-/

namespace Fixus

open Lib Lib.Eff

/-! ## The projection cache -/

/-- The cached projections and their order of use. -/
structure LruMap where
  map : Finmap fun _ : String => TaskProjection := ∅
  order : List String := []
  cap : Nat := 1000

namespace LruMap

/-- A hit moves the entry to the back of the order. -/
def get (m : LruMap) (taskId : String) : Option TaskProjection × LruMap :=
  match m.map.lookup taskId with
  | some p => (some p, { m with order := m.order.filter (· ≠ taskId) ++ [taskId] })
  | none => (none, m)

/-- Replace the projection of a cached task. -/
def put (m : LruMap) (taskId : String) (p : TaskProjection) : LruMap := { m with map := m.map.insert taskId p }

def invalidate (m : LruMap) (taskId : String) : LruMap :=
  { m with map := m.map.erase taskId, order := m.order.filter (· ≠ taskId) }

/-- Drop the least recently used entries beyond the capacity. -/
def evict (cap : Nat) : List String → (Finmap fun _ : String => TaskProjection) →
    List String × Finmap fun _ : String => TaskProjection
  | [], map => ([], map)
  | old :: rest, map => if (old :: rest).length > cap then evict cap rest (map.erase old) else (old :: rest, map)

/-- The end of a load: the task is the most recently used one. -/
def touch (m : LruMap) (taskId : String) : LruMap :=
  let (order, map) := evict m.cap (m.order ++ [taskId]) m.map
  { m with order, map }

/-- Every task in the order of use is there once and has a cached projection. -/
structure Ok (m : LruMap) : Prop where
  nodup : m.order.Nodup
  cached : ∀ taskId ∈ m.order, m.map.lookup taskId ≠ none
  cap : 1 ≤ m.cap

theorem Ok.get {m : LruMap} (h : m.Ok) (taskId : String) : (m.get taskId).2.Ok := by
  unfold LruMap.get
  cases hl : m.map.lookup taskId with
  | none => exact h
  | some p =>
    refine ⟨?_, fun k hk => ?_, h.cap⟩
    · refine List.Nodup.append (h.nodup.filter _) (List.nodup_singleton _) ?_
      rw [List.disjoint_singleton]
      simp
    · rcases List.mem_append.mp hk with hk | hk
      · exact h.cached k (List.mem_of_mem_filter hk)
      · rw [List.mem_singleton.mp hk, hl]
        exact Option.some_ne_none _

/-- More cached projections are fine. -/
theorem Ok.put {m : LruMap} (h : m.Ok) (taskId : String) (p : TaskProjection) : (m.put taskId p).Ok := by
  refine ⟨h.nodup, fun k hk => ?_, h.cap⟩
  by_cases hkt : k = taskId
  · subst hkt
    simp [LruMap.put, Finmap.lookup_insert]
  · simp only [LruMap.put, Finmap.lookup_insert_of_ne _ hkt]
    exact h.cached k hk

/-- A consistent cache stays consistent without one of its entries. -/
theorem Ok.invalidate {m : LruMap} (h : m.Ok) (taskId : String) : (m.invalidate taskId).Ok := by
  refine ⟨h.nodup.filter _, fun k hk => ?_, h.cap⟩
  obtain ⟨hk, hne⟩ := List.mem_filter.mp hk
  simp only [LruMap.invalidate, Finmap.lookup_erase_ne (of_decide_eq_true hne)]
  exact h.cached k hk

end LruMap

/-! ## The broker -/

/-- The outcome of a `produce` call. -/
inductive ProduceReply where
  | ok (seq : Nat)
  | err (msg : String)
  deriving DecidableEq, Repr

/-- A frame of a consumer session. -/
inductive Frame where
  | record (r : Record)
  | caughtUp (shard : Nat)
  /-- Rebalance and assignment notices. -/
  | notice
  | err (msg : String)

/-- A consumer session: joining or consuming fails, or frames arrive until the stream ends or the deadline. -/
inductive Session where
  | refused (msg : String)
  | open_ (shards : Finset Nat) (frames : List Frame) (leaveErr : Option String)

/-- The state of the broker and of the store on top of it. -/
structure BrokerStore where
  streams : String → List Record
  cache : LruMap := {}
  produces : List ProduceReply := []
  sessions : List Session := []

namespace BrokerStore

/-- The log of a task. -/
def log (s : BrokerStore) (taskId : String) : List Record := s.streams taskId

/-- The store at start, over an empty broker. -/
def empty : BrokerStore := { streams := fun _ => [] }

/-- Append a record to a stream. -/
def append (s : BrokerStore) (stream : String) (r : Record) : BrokerStore :=
  { s with streams := Function.update s.streams stream (s.streams stream ++ [r]) }

/-- One `produce` call: the broker numbers the record and appends it, or fails. A call that fails is assumed to have
stored nothing. -/
def produce (stream eventType : String) (content : Json) (metadata : Metadata) : Eff String BrokerStore Nat := fun s =>
  match s.produces with
  | [] =>
    let seq := (s.streams stream).length + 1
    (.ok seq, s.append stream { seq, eventType, content, metadata })
  | .ok seq :: rest => (.ok seq, { s with produces := rest }.append stream { seq, eventType, content, metadata })
  | .err msg :: rest => (.error msg, { s with produces := rest })

/-- The session of a healthy broker: the whole stream, then the end of its only shard. -/
def healthySession (log : List Record) : Session := .open_ {0} (log.map .record ++ [.caughtUp 0]) none

/-- The session that the next load gets. -/
def nextSession (taskId : String) : Eff String BrokerStore Session := fun s =>
  match s.sessions with
  | [] => (.ok (healthySession (s.streams taskId)), s)
  | session :: rest => (.ok session, { s with sessions := rest })

/-- The loop over the frames of a session: the projection reached, and the error that broke it off. -/
def consume (shards : Finset Nat) : List Frame → TaskProjection → Finset Nat → TaskProjection × Option String
  | [], p, _ => (p, none)
  | .err msg :: _, p, _ => (p, some msg)
  | .record r :: frames, p, caughtUp =>
    if caughtUp = shards then (p.applyIgnoring r, none) else consume shards frames (p.applyIgnoring r) caughtUp
  | .caughtUp shard :: frames, p, caughtUp =>
    if insert shard caughtUp = shards then (p, none) else consume shards frames p (insert shard caughtUp)
  | .notice :: frames, p, caughtUp => if caughtUp = shards then (p, none) else consume shards frames p caughtUp

/-- Fill the projection of a task from a session. A stream error leaves the entry behind, without a place in the
order. -/
def loadFrom (taskId : String) : Session → Eff String BrokerStore Unit
  | .refused msg => fail msg
  | .open_ shards frames leaveErr => do
    let entry ← read fun s => (s.cache.map.lookup taskId).getD (TaskProjection.new taskId)
    update fun s => { s with cache := s.cache.put taskId (consume shards frames entry ∅).1 }
    match (consume shards frames entry ∅).2, leaveErr with
    | some msg, _ => fail msg
    | none, some msg => fail msg
    | none, none => update fun s => { s with cache := s.cache.touch taskId }

/-- Load the projection of a task from its stream. -/
def catchUp (taskId : String) : Eff String BrokerStore Unit := do
  let session ← nextSession taskId
  loadFrom taskId session

/-- A cache access. -/
def cacheGet (taskId : String) : StoreM BrokerStore (Option TaskProjection) := fun s =>
  (.ok (s.cache.get taskId).1, { s with cache := (s.cache.get taskId).2 })

/-- Report an error of the broker under a heading. -/
def mapErr {α : Type} (f : String → AppError) (m : Eff String BrokerStore α) : StoreM BrokerStore α := fun s =>
  match m s with
  | (.ok a, s') => (.ok a, s')
  | (.error msg, s') => (.error (f msg), s')

def ensureProjection (taskId : String) : StoreM BrokerStore Unit := do
  match ← cacheGet taskId with
  | some _ => pure ()
  | none => mapErr (fun e => .internal ("broker: " ++ e)) (catchUp taskId)

/-- Read from the projection; the entry is expected to be there after it has been loaded. -/
def withProjection {α : Type} (taskId : String) (f : TaskProjection → α) : StoreM BrokerStore α := do
  ensureProjection taskId
  match ← cacheGet taskId with
  | some p => pure (f p)
  | none => fail (.panicked "called `Option::unwrap()` on a `None` value")

/-- The tags that a written event gets. -/
def eventMeta (e : AgentEvent) : Metadata :=
  let m : Metadata := (∅ : Metadata).insert "task_id" e.taskId
  let m := match e.turnId with
    | some tid => m.insert "turn_id" (toString tid)
    | none => m
  let m := match e.stepId with
    | some sid => m.insert "step_id" sid
    | none => m
  m.insert "event_type" e.eventType.asStr

/-- The record of a written event. -/
def recordOf (seq : Nat) (e : AgentEvent) : Record :=
  { seq, eventType := e.eventType.asStr, content := e.payload, metadata := eventMeta e }

@[simp] theorem eventMeta_turnId (e : AgentEvent) : (eventMeta e).lookup "turn_id" = e.turnId.map toString := by
  unfold eventMeta
  cases e.turnId <;> cases e.stepId <;> simp [Finmap.lookup_insert_of_ne, Finmap.lookup_insert]

@[simp] theorem eventMeta_stepId (e : AgentEvent) : (eventMeta e).lookup "step_id" = e.stepId := by
  unfold eventMeta
  cases e.turnId <;> cases e.stepId <;> simp [Finmap.lookup_insert_of_ne, Finmap.lookup_insert]

/-! ## Writes -/

/-- The payload of `task_created`; that its text reads back is assumed with `Record`. -/
def createdPayload (taskType : String) (provenance : Provenance) (body : Option Json) (priority : Int)
    (effectivePolicy : Option EffectivePolicy) : Json :=
  .obj [("task_type", .str taskType), ("provenance", provenance.toJson), ("body", body.getD .null),
    ("priority", .int priority), ("effective_policy", (effectivePolicy.map EffectivePolicy.toJson).getD .null)]

/-- Create a task under a new identifier; the projection is loaded later. -/
def createTask (uuid taskType tenantId userId : String) (provenance : Provenance) (body : Option Json)
    (priority : Int) (effectivePolicy : Option EffectivePolicy) : StoreM BrokerStore (String × AgentEvent) := do
  let taskId := "task_" ++ uuid
  let payload := createdPayload taskType provenance body priority effectivePolicy
  let metadata : Metadata := ((((∅ : Metadata).insert "task_id" taskId).insert "tenant_id" tenantId).insert
    "user_id" userId).insert "task_type" taskType
  let seq ← mapErr (fun e => .internal ("broker produce: " ++ e)) (produce taskId "task_created" payload metadata)
  pure (taskId, { taskId, seq := wrapI64 seq, turnId := none, stepId := none, eventType := .taskCreated, payload })

/-- Fold a record that was just produced into the cached projection, if there is one. -/
def applyCached (taskId : String) (r : Record) : StoreM BrokerStore Unit := do
  match ← cacheGet taskId with
  | some p => update fun s => { s with cache := s.cache.put taskId (p.applyIgnoring r) }
  | none => pure ()

/-- The write of one event: the three checks, the record, the cached projection. -/
def writeEvent (e : AgentEvent) : StoreM BrokerStore Int := do
  match e.validateScope with
  | .error msg => fail (.lifecycleInvariant msg)
  | .ok () =>
    ofExcept (validatePayloadRequiredFields e.eventType e.payload)
    let current ← cacheGet e.taskId
    ofExcept (validateTaskEventTransition (current.map TaskProjection.state) e.eventType)
    let seq ← mapErr (fun msg => .internal ("broker produce: " ++ msg))
      (produce e.taskId e.eventType.asStr e.payload (eventMeta e))
    applyCached e.taskId (recordOf seq e)
    pure (wrapI64 seq)

/-- Produce the records of a batch; the broker takes all of them or none. -/
def batchProduce : List AgentEvent → Eff String BrokerStore (List Nat)
  | [] => pure []
  | e :: es => do
    let seq ← produce e.taskId e.eventType.asStr e.payload (eventMeta e)
    let seqs ← batchProduce es
    pure (seq :: seqs)

/-- All or nothing: an error takes the streams back. -/
def atomically {α : Type} (m : Eff String BrokerStore α) : Eff String BrokerStore α := fun s =>
  match m s with
  | (.ok a, s') => (.ok a, s')
  | (.error msg, s') => (.error msg, { s' with streams := s.streams })

/-- The write of a batch: no checks; the records go into the projection of the first event's task. -/
def writeEventsBatch (events : List AgentEvent) : StoreM BrokerStore (List Int) :=
  match events with
  | [] => pure []
  | first :: _ => do
    let seqs ← mapErr (fun msg => .internal ("broker batch: " ++ msg)) (atomically (batchProduce events))
    match ← cacheGet first.taskId with
    | some p =>
      let p := (events.zip seqs).foldl (fun p (e, seq) => p.applyIgnoring (recordOf seq e)) p
      update fun s => { s with cache := s.cache.put first.taskId p }
    | none => pure ()
    pure (seqs.map fun seq => wrapI64 seq)

/-! ## Reads -/

/-- The report on a task from its projection. -/
def taskOf (taskId : String) (p : TaskProjection) : Task :=
  { taskId
    tenantId := p.provenance.sourceTenantId.getD ""
    userId := p.provenance.sourceUserId.getD ""
    taskType := p.taskType
    state := p.state
    provenance := p.provenance
    body := p.body
    priority := p.priority
    effectivePolicy := p.effectivePolicy }

def getTask (taskId : String) : StoreM BrokerStore (Option Task) := do
  match ← attempt (ensureProjection taskId) with
  | .error _ => pure none
  | .ok () => withProjection taskId fun p => some (taskOf taskId p)

def getTaskState (taskId : String) : StoreM BrokerStore (Option TaskState) :=
  withProjection taskId fun p => some p.state

def taskExists (taskId : String) : StoreM BrokerStore Bool := do
  match ← cacheGet taskId with
  | some _ => pure true
  | none =>
    match ← attempt (ensureProjection taskId) with
    | .ok () => pure true
    | .error _ => pure false

/-- The stream that the agents of a task type listen to. -/
def taskBeginStream (taskType : String) : String :=
  "task-begin-" ++ String.ofList (taskType.toList.map fun c => if c = '.' then '-' else c)

/-- Offer a turn to the agents. -/
def publishTurnBegin (taskId taskType : String) (payload : Json) : StoreM BrokerStore Unit := do
  let metadata : Metadata := ((∅ : Metadata).insert "task_id" taskId).insert "event_type" "execute_turn"
  let _ ← mapErr (fun e => .internal ("publish_turn_begin: " ++ e))
    (produce (taskBeginStream taskType) "execute_turn" payload metadata)

def invalidateProjection (taskId : String) : StoreM BrokerStore Unit :=
  update fun s => { s with cache := s.cache.invalidate taskId }

/-! ## What the operations do -/

/-- The coming sessions are those of a healthy broker, and the cache is consistent. -/
structure Healthy (s : BrokerStore) : Prop where
  sessions : s.sessions = []
  ok : s.cache.Ok

/-- The streams, the sessions to come and the cached projections are the same; the order of use may differ. -/
structure Untouched (s s' : BrokerStore) : Prop where
  streams : s'.streams = s.streams
  map : s'.cache.map = s.cache.map
  sessions : s'.sessions = s.sessions
  ok : s.cache.Ok → s'.cache.Ok

namespace Untouched

theorem refl (s : BrokerStore) : Untouched s s := ⟨rfl, rfl, rfl, id⟩

theorem trans {s t u : BrokerStore} (h₁ : Untouched s t) (h₂ : Untouched t u) : Untouched s u :=
  ⟨h₂.streams.trans h₁.streams, h₂.map.trans h₁.map, h₂.sessions.trans h₁.sessions, h₂.ok ∘ h₁.ok⟩

theorem healthy {s s' : BrokerStore} (h : Untouched s s') (hs : Healthy s) : Healthy s' :=
  ⟨h.sessions.trans hs.sessions, h.ok hs.ok⟩

end Untouched

/-- A cache access finds what the map has and changes the order only. -/
theorem cacheGet_spec (taskId : String) (s : BrokerStore) :
    ∃ s', cacheGet taskId s = (.ok (s.cache.map.lookup taskId), s') ∧
    Untouched s s' ∧ s'.produces = s.produces := by
  have hok : s.cache.Ok → (s.cache.get taskId).2.Ok := fun h => h.get taskId
  refine ⟨{ s with cache := (s.cache.get taskId).2 }, ?_⟩
  unfold cacheGet LruMap.get at *
  cases hl : s.cache.map.lookup taskId with
  | none => exact ⟨rfl, ⟨rfl, rfl, rfl, id⟩, rfl⟩
  | some p => exact ⟨rfl, ⟨rfl, rfl, rfl, by rw [hl] at hok; exact hok⟩, rfl⟩

theorem wp_cacheGet {taskId : String} {Q : Option TaskProjection → BrokerStore → Prop}
    {E : AppError → BrokerStore → Prop} {s : BrokerStore}
    (h : ∀ s', Untouched s s' → s'.produces = s.produces → Q (s.cache.map.lookup taskId) s') :
    wp (cacheGet taskId) Q E s := by
  obtain ⟨s', he, hu, hp⟩ := cacheGet_spec taskId s
  unfold wp
  rw [he]
  exact h s' hu hp

/-- The rule of renaming errors. -/
theorem wp_mapErr {α : Type} {f : String → AppError} {m : Eff String BrokerStore α} {Q : α → BrokerStore → Prop}
    {E : AppError → BrokerStore → Prop} {s : BrokerStore} :
    wp (mapErr f m) Q E s ↔ wp m Q (fun msg => E (f msg)) s := by
  unfold wp mapErr
  cases m s with
  | mk r s' => cases r <;> rfl

/-- The rule of all or nothing. -/
theorem wp_atomically {α : Type} {m : Eff String BrokerStore α} {Q : α → BrokerStore → Prop}
    {E : String → BrokerStore → Prop} {s : BrokerStore} :
    wp (atomically m) Q E s ↔ wp m Q (fun msg s' => E msg { s' with streams := s.streams }) s := by
  unfold wp atomically
  cases m s with
  | mk r s' => cases r <;> rfl

/-- The number or the error that the next `produce` call gets. -/
def nextReply (s : BrokerStore) (stream : String) : Except String Nat :=
  match s.produces with
  | [] => .ok ((s.streams stream).length + 1)
  | .ok seq :: _ => .ok seq
  | .err msg :: _ => .error msg

/-- A `produce` call appends one record, or fails and appends nothing. -/
theorem wp_produce {stream eventType : String} {content : Json} {metadata : Metadata}
    {Q : Nat → BrokerStore → Prop} {E : String → BrokerStore → Prop} {s : BrokerStore}
    (hok : ∀ seq s', s.nextReply stream = .ok seq →
      s'.streams = Function.update s.streams stream (s.streams stream ++ [⟨seq, eventType, content, metadata⟩]) →
      s'.cache = s.cache → s'.sessions = s.sessions → s'.produces = s.produces.tail → Q seq s')
    (herr : ∀ msg s', s.nextReply stream = .error msg → s'.streams = s.streams → s'.cache = s.cache →
      s'.sessions = s.sessions → E msg s') :
    wp (produce stream eventType content metadata) Q E s := by
  unfold wp produce nextReply at *
  cases hp : s.produces with
  | nil =>
    rw [hp] at hok
    exact hok _ _ rfl rfl rfl rfl hp
  | cons r rest =>
    rw [hp] at hok herr
    cases r with
    | ok seq => exact hok _ _ rfl rfl rfl rfl rfl
    | err msg => exact herr _ _ rfl rfl rfl rfl

/-- The three checks of a write. -/
structure Accepted (e : AgentEvent) (s : BrokerStore) : Prop where
  scope : e.validateScope = .ok ()
  fields : validatePayloadRequiredFields e.eventType e.payload = .ok ()
  transition : validateTaskEventTransition ((s.cache.map.lookup e.taskId).map TaskProjection.state) e.eventType = .ok ()

/-- What an accepted write changes: one record on the task's stream, folded into the cached projection. -/
structure Wrote (e : AgentEvent) (seq : Nat) (s s' : BrokerStore) : Prop where
  streams : s'.streams = Function.update s.streams e.taskId (s.streams e.taskId ++ [recordOf seq e])
  map : s'.cache.map = match s.cache.map.lookup e.taskId with
    | some p => s.cache.map.insert e.taskId (p.applyIgnoring (recordOf seq e))
    | none => s.cache.map
  sessions : s'.sessions = s.sessions
  produces : s'.produces = s.produces.tail
  ok : s.cache.Ok → s'.cache.Ok

theorem Wrote.healthy {e : AgentEvent} {seq : Nat} {s s' : BrokerStore} (h : Wrote e seq s s') (hs : Healthy s) :
    Healthy s' := ⟨h.sessions.trans hs.sessions, h.ok hs.ok⟩

/-- **A write is accepted exactly when it passes the checks and the broker takes the record.** -/
theorem writeEvent_spec (e : AgentEvent) (s : BrokerStore) : wp (writeEvent e)
    (fun n s' => Accepted e s ∧ ∃ seq, s.nextReply e.taskId = .ok seq ∧ n = wrapI64 seq ∧ Wrote e seq s s')
    (fun _ s' => Untouched s s' ∧ ¬ (Accepted e s ∧ ∃ seq, s.nextReply e.taskId = .ok seq)) s := by
  unfold writeEvent
  cases hscope : e.validateScope with
  | error msg =>
    refine ⟨Untouched.refl s, fun h => ?_⟩
    rw [h.1.scope] at hscope
    cases hscope
  | ok u =>
    simp only
    rw [wp_bind]
    cases hfields : validatePayloadRequiredFields e.eventType e.payload with
    | error err =>
      refine ⟨Untouched.refl s, fun h => ?_⟩
      rw [h.1.fields] at hfields
      cases hfields
    | ok u =>
      rw [wp_ofExcept_ok, wp_bind]
      refine wp_cacheGet fun s₁ hu₁ hp₁ => ?_
      rw [wp_bind]
      cases htr : validateTaskEventTransition ((s.cache.map.lookup e.taskId).map TaskProjection.state) e.eventType with
      | error err =>
        refine ⟨hu₁, fun h => ?_⟩
        rw [h.1.transition] at htr
        cases htr
      | ok u =>
        have hreply : s₁.nextReply e.taskId = s.nextReply e.taskId := by
          unfold nextReply
          rw [hp₁, hu₁.streams]
        rw [wp_ofExcept_ok, wp_bind, wp_mapErr]
        refine wp_produce (fun seq s₂ hr hs hc hss hps => ?_) fun msg s₂ hr hs hc hss => ?_
        · rw [wp_bind]
          unfold applyCached
          rw [wp_bind]
          refine wp_cacheGet fun s₃ hu₃ hp₃ => ?_
          have hmap : s₂.cache.map = s.cache.map := by rw [hc, hu₁.map]
          have hok₃ : s.cache.Ok → s₃.cache.Ok := fun h => hu₃.ok (hc ▸ hu₁.ok h)
          have hw : ∀ s₄ : BrokerStore, s₄.streams = s₃.streams → s₄.sessions = s₃.sessions →
              s₄.produces = s₃.produces → (s₃.cache.Ok → s₄.cache.Ok) →
              (s₄.cache.map = match s.cache.map.lookup e.taskId with
                | some p => s.cache.map.insert e.taskId (p.applyIgnoring (recordOf seq e))
                | none => s.cache.map) → Wrote e seq s s₄ := by
            intro s₄ h₁ h₂ h₃ h₄ h₅
            refine ⟨?_, h₅, ?_, ?_, fun h => h₄ (hok₃ h)⟩
            · rw [h₁, hu₃.streams, hs, hu₁.streams]; rfl
            · rw [h₂, hu₃.sessions, hss, hu₁.sessions]
            · rw [h₃, hp₃, hps, hp₁]
          rw [hmap]
          cases hl : s.cache.map.lookup e.taskId with
          | none =>
            refine ⟨⟨hscope, hfields, by rw [hl] at htr ⊢; exact htr⟩, seq, hreply ▸ hr, rfl, ?_⟩
            exact hw _ rfl rfl rfl id (by rw [hu₃.map, hmap, hl])
          | some p =>
            refine ⟨⟨hscope, hfields, by rw [hl] at htr ⊢; exact htr⟩, seq, hreply ▸ hr, rfl, ?_⟩
            refine hw _ rfl rfl rfl (fun h => h.put _ _) ?_
            simp only [LruMap.put, hu₃.map, hmap, hl]
        · refine ⟨⟨by rw [hs, hu₁.streams], by rw [hc, hu₁.map], by rw [hss, hu₁.sessions], fun h => hc ▸ hu₁.ok h⟩, ?_⟩
          rintro ⟨-, seq, hseq⟩
          rw [hreply, hseq] at hr
          cases hr

/-! ## What the reads do -/

/-- The streams and the outcomes of the coming writes are the same, and so is the projection of the task if there is
a cached one. -/
structure SameTask (taskId : String) (s s' : BrokerStore) : Prop where
  streams : s'.streams = s.streams
  produces : s'.produces = s.produces
  cached : ∀ p, s.cache.map.lookup taskId = some p → s'.cache.map.lookup taskId = some p

namespace SameTask

variable {taskId : String}

theorem refl (s : BrokerStore) : SameTask taskId s s := ⟨rfl, rfl, fun _ h => h⟩

theorem trans {s t u : BrokerStore} (h₁ : SameTask taskId s t) (h₂ : SameTask taskId t u) : SameTask taskId s u :=
  ⟨h₂.streams.trans h₁.streams, h₂.produces.trans h₁.produces, fun p hp => h₂.cached p (h₁.cached p hp)⟩

theorem of_untouched {s s' : BrokerStore} (h : Untouched s s') (hp : s'.produces = s.produces) :
    SameTask taskId s s' := ⟨h.streams, hp, fun p hl => by rw [h.map, hl]⟩

end SameTask

/-- Filling a projection leaves the streams and the coming writes alone. -/
theorem loadFrom_frame (taskId : String) (session : Session) (s : BrokerStore) :
    (loadFrom taskId session s).2.streams = s.streams ∧ (loadFrom taskId session s).2.produces = s.produces := by
  refine wp_state (P := fun s' : BrokerStore => s'.streams = s.streams ∧ s'.produces = s.produces) ?_
  cases session with
  | refused msg => exact ⟨rfl, rfl⟩
  | open_ shards frames leaveErr =>
    unfold loadFrom
    rw [wp_bind, wp_read, wp_bind, wp_update]
    split
    · exact ⟨rfl, rfl⟩
    · exact ⟨rfl, rfl⟩
    · exact ⟨rfl, rfl⟩

/-- Loading a projection leaves the streams and the coming writes alone. -/
theorem catchUp_frame (taskId : String) (s : BrokerStore) :
    (catchUp taskId s).2.streams = s.streams ∧ (catchUp taskId s).2.produces = s.produces := by
  have hb : catchUp taskId s = Eff.bind (nextSession taskId) (loadFrom taskId) s := rfl
  rw [hb]
  unfold Eff.bind nextSession
  cases s.sessions with
  | nil => exact loadFrom_frame taskId _ s
  | cons session rest => exact loadFrom_frame taskId session { s with sessions := rest }

/-- Reading through the cache leaves the streams, the coming writes and a cached projection of the task alone. -/
theorem keeps_ensureProjection (taskId : String) : Keeps (SameTask taskId) (ensureProjection taskId) := by
  intro s
  obtain ⟨s₁, hget, hu, hp⟩ := cacheGet_spec taskId s
  have hb : ensureProjection taskId s = Eff.bind (cacheGet taskId) (fun found =>
      match found with
      | some _ => Eff.ret ()
      | none => mapErr (fun e => .internal ("broker: " ++ e)) (catchUp taskId)) s := rfl
  rw [hb, Eff.bind, hget]
  cases hl : s.cache.map.lookup taskId with
  | some p => exact SameTask.of_untouched hu hp
  | none =>
    have hf := catchUp_frame taskId s₁
    have hm : (mapErr (fun e => AppError.internal ("broker: " ++ e)) (catchUp taskId) s₁).2 =
      (catchUp taskId s₁).2 := by
      unfold mapErr
      cases catchUp taskId s₁ with
      | mk r s₂ => cases r <;> rfl
    refine ⟨?_, ?_, fun p hp => by rw [hl] at hp; cases hp⟩
    · simp only [hm, hf.1, hu.streams]
    · simp only [hm, hf.2, hp]

theorem keeps_cacheGet (taskId taskId' : String) : Keeps (SameTask taskId) (cacheGet taskId') := by
  intro s
  obtain ⟨s₁, hget, hu, hp⟩ := cacheGet_spec taskId' s
  rw [hget]
  exact SameTask.of_untouched hu hp

theorem keeps_withProjection {α : Type} (taskId : String) (f : TaskProjection → α) :
    Keeps (SameTask taskId) (withProjection taskId f) := by
  refine Keeps.bind (R := SameTask taskId) (fun _ _ _ => SameTask.trans) (keeps_ensureProjection taskId) fun _ => ?_
  refine Keeps.bind (R := SameTask taskId) (fun _ _ _ => SameTask.trans) (keeps_cacheGet taskId taskId) fun found => ?_
  cases found with
  | none => exact fun s => SameTask.refl s
  | some p => exact fun s => SameTask.refl s

theorem keeps_taskExists (taskId : String) : Keeps (SameTask taskId) (taskExists taskId) := by
  refine Keeps.bind (R := SameTask taskId) (fun _ _ _ => SameTask.trans) (keeps_cacheGet taskId taskId) fun found => ?_
  cases found with
  | some p => exact fun s => SameTask.refl s
  | none =>
    refine Keeps.bind (R := SameTask taskId) (fun _ _ _ => SameTask.trans)
      (keeps_ensureProjection taskId).attempt fun r => ?_
    cases r with
    | ok u => exact fun s => SameTask.refl s
    | error err => exact fun s => SameTask.refl s

/-- The computation leaves the streams alone. -/
abbrev KeepsStreams {α : Type} (m : StoreM BrokerStore α) : Prop :=
  Keeps (fun s s' : BrokerStore => s'.streams = s.streams) m

theorem keepsStreams_bind {α β : Type} {m : StoreM BrokerStore α} {f : α → StoreM BrokerStore β} (hm : KeepsStreams m)
    (hf : ∀ a, KeepsStreams (f a)) : KeepsStreams (m >>= f) := Keeps.bind (fun _ _ _ h h' => h'.trans h) hm hf

theorem keepsStreams_withProjection {α : Type} (taskId : String) (f : TaskProjection → α) :
    KeepsStreams (withProjection taskId f) := fun s => (keeps_withProjection taskId f s).streams

theorem keepsStreams_cacheGet (taskId : String) : KeepsStreams (cacheGet taskId) := fun s =>
  (keeps_cacheGet taskId taskId s).streams

theorem keepsStreams_ensureProjection (taskId : String) : KeepsStreams (ensureProjection taskId) := fun s =>
  (keeps_ensureProjection taskId s).streams

end BrokerStore

/-- The store of the production deployment. -/
def brokerEventStore : EventStore BrokerStore where
  createTask := BrokerStore.createTask
  writeEvent := BrokerStore.writeEvent
  writeEventsBatch := BrokerStore.writeEventsBatch
  getTask := BrokerStore.getTask
  getTaskState := BrokerStore.getTaskState
  taskExists := BrokerStore.taskExists
  isTaskEnded taskId := BrokerStore.withProjection taskId fun p => p.state.isTerminal
  getMaxSeq taskId := BrokerStore.withProjection taskId TaskProjection.maxSeq
  getMaxTurnId taskId := BrokerStore.withProjection taskId TaskProjection.maxTurnId
  getTurnEvents taskId turnId := BrokerStore.withProjection taskId fun p => p.turnEvents turnId
  getIncompleteTurns taskId order := BrokerStore.withProjection taskId fun p => p.incompleteTurns order
  getIncompleteSteps taskId order := BrokerStore.withProjection taskId fun p => p.incompleteSteps order
  publishTurnBegin := BrokerStore.publishTurnBegin
  invalidateProjection := BrokerStore.invalidateProjection

/-- The reads about a task keep its log and its cached projection. -/
theorem brokerEventStore_readsOnly (taskId : String) :
    ReadsOnly brokerEventStore (BrokerStore.SameTask taskId) taskId where
  refl := BrokerStore.SameTask.refl
  trans := BrokerStore.SameTask.trans
  getTaskState := BrokerStore.keeps_withProjection taskId _
  taskExists := BrokerStore.keeps_taskExists taskId
  isTaskEnded := BrokerStore.keeps_withProjection taskId _
  getMaxTurnId := BrokerStore.keeps_withProjection taskId _

end Fixus
