import Fixus.Orchestrator.Machine
import Fixus.Store.Healthy

/-!
# What the handlers keep of the store

A relation between stores that the cache accesses and the loads move along is one that all reads of the handlers move
along (`QuietKeep`, with the publications `ReadsKeep`); if the calls do so too, every instruction does (`exec_keeps`).

`Orderly` is such a relation: a consistent cache stays consistent, and a broker that has nothing odd to come stays so.
-/

namespace Fixus

open Lib Lib.Eff BrokerStore

/-- What the reads of projections are made of moves the store along the relation. -/
structure QuietKeep (R : BrokerStore → BrokerStore → Prop) : Prop where
  refl : ∀ s, R s s
  trans : ∀ s t u, R s t → R t u → R s u
  cacheGet : ∀ taskId, Keeps R (cacheGet taskId)
  ensureProjection : ∀ taskId, Keeps R (ensureProjection taskId)
  invalidateProjection : ∀ taskId, Keeps R (invalidateProjection taskId)

/-- So does a publication, whatever is published. -/
structure ReadsKeep (R : BrokerStore → BrokerStore → Prop) : Prop extends QuietKeep R where
  publishTurnBegin : ∀ taskId taskType payload, Keeps R (publishTurnBegin taskId taskType payload)

namespace QuietKeep

variable {R : BrokerStore → BrokerStore → Prop} (hR : QuietKeep R)

include hR

theorem bind {α β : Type} {m : StoreM BrokerStore α} {f : α → StoreM BrokerStore β} (hm : Keeps R m)
    (hf : ∀ a, Keeps R (f a)) : Keeps R (m >>= f) := Keeps.bind hR.trans hm hf

theorem pure {α : Type} (a : α) : Keeps R (pure a : StoreM BrokerStore α) := Keeps.pure hR.refl a

theorem fail {α : Type} (err : AppError) : Keeps R (fail err : StoreM BrokerStore α) := fun s => hR.refl s

/-! ## Reads of the store -/

theorem withProjection {α : Type} (taskId : String) (f : TaskProjection → α) : Keeps R (withProjection taskId f) := by
  refine hR.bind (hR.ensureProjection taskId) fun _ => hR.bind (hR.cacheGet taskId) fun found => ?_
  cases found with
  | none => exact hR.fail _
  | some p => exact hR.pure _

theorem taskExists (taskId : String) : Keeps R (BrokerStore.taskExists taskId) := by
  refine hR.bind (hR.cacheGet taskId) fun found => ?_
  cases found with
  | some p => exact hR.pure true
  | none =>
    refine hR.bind (hR.ensureProjection taskId).attempt fun r => ?_
    cases r with
    | ok u => exact hR.pure true
    | error err => exact hR.pure false

theorem readsOnly (taskId : String) : ReadsOnly brokerEventStore R taskId where
  refl := hR.refl
  trans := hR.trans _ _ _
  getTaskState := hR.withProjection taskId _
  taskExists := hR.taskExists taskId
  isTaskEnded := hR.withProjection taskId _
  getMaxTurnId := hR.withProjection taskId _

theorem getTask (taskId : String) : Keeps R (brokerEventStore.getTask taskId) := by
  refine hR.bind (hR.ensureProjection taskId).attempt fun r => ?_
  cases r with
  | error err => exact hR.pure none
  | ok u => exact hR.withProjection taskId _

/-! ## Reads of the handlers -/

theorem resolveTaskTypeIn (taskId : String) (n : Nat) : Keeps R (resolveTaskTypeIn brokerEventStore taskId n) := by
  induction n with
  | zero => exact hR.fail _
  | succ n ih =>
    refine hR.bind (hR.getTask taskId) fun task => ?_
    cases task with
    | none => exact hR.fail _
    | some task =>
      by_cases ht : task.taskType.isEmpty = true
      · simp only [ht, if_true]
        exact hR.bind (hR.invalidateProjection taskId) fun _ => ih
      · simp only [ht, Bool.false_eq_true, if_false]
        exact hR.pure _

theorem resolveTaskType (taskId : String) : Keeps R (resolveTaskType brokerEventStore taskId) :=
  hR.resolveTaskTypeIn taskId 10

theorem typeAndPriority (taskId : String) : Keeps R (typeAndPriority brokerEventStore taskId) :=
  hR.bind (hR.resolveTaskType taskId) fun _ => hR.bind (hR.getTask taskId) fun _ => hR.pure _

theorem nextTurnId (taskId : String) : Keeps R (nextTurnId brokerEventStore taskId) := by
  refine hR.bind (keeps_pollExists (hR.readsOnly taskId) 30) fun found => ?_
  cases found with
  | false => exact hR.fail _
  | true =>
    refine hR.bind (hR.withProjection taskId _) fun ended => ?_
    cases ended with
    | true => exact hR.fail _
    | false => exact hR.bind (hR.withProjection taskId _) fun k => hR.pure _

theorem recoverTurn (taskId : String) (turn : IncompleteTurn) (order : List String) :
    Keeps R (recoverTurn brokerEventStore taskId turn order) := by
  have hdecide : Keeps R (decideTurnRecovery brokerEventStore taskId turn order) :=
    hR.bind (hR.withProjection _ _) fun _ => hR.bind (hR.withProjection _ _) fun _ => hR.pure _
  refine hR.bind hdecide fun decision => ?_
  cases decision with
  | safeToRedo k group count steps =>
    exact hR.bind (hR.bind (hR.withProjection _ _) fun _ => hR.pure _) fun _ => hR.pure _
  | requiresHumanIntervention k group blocking => exact hR.pure _

theorem readPolicy (taskId : String) : Keeps R (readPolicy brokerEventStore taskId) := by
  refine hR.bind (hR.getTask taskId).attempt fun r => ?_
  cases r with
  | error err => exact hR.pure none
  | ok task => cases task <;> exact hR.pure _

end QuietKeep

theorem ReadsKeep.dispatchExecuteTurn {R : BrokerStore → BrokerStore → Prop} (hR : ReadsKeep R) (d : Dispatch)
    (context : Except AppError LlmContext) : Keeps R (dispatchExecuteTurn brokerEventStore d context) := by
  have hctx : Keeps R (ofExcept context : StoreM BrokerStore LlmContext) := by
    intro s
    cases context <;> exact hR.refl s
  refine hR.bind hctx fun ctx => hR.bind (hR.readPolicy d.taskId) fun policy =>
    hR.bind (hR.resolveTaskType d.taskId) fun taskType =>
      hR.bind (hR.publishTurnBegin d.taskId taskType _).attempt fun r => ?_
  cases r with
  | error err => exact hR.fail _
  | ok u => exact hR.pure _

/-! ## Instructions -/

section Instructions

variable {R : BrokerStore → BrokerStore → Prop} {cfg : Config} {env : Env} {s : Shared}

/-- What comes after a computation leaves the store alone. -/
theorem keeps_on {α : Type} {m : StoreM BrokerStore α} {k : Except AppError α → Shared → Out} (hm : Keeps R m)
    (hk : ∀ r t, (k r t).shared.store = t.store) : R s.store (s.on m k).shared.store := by
  unfold Shared.on
  rw [hk]
  exact hm s.store

/-- A call changes the store, and then it goes on with the result. -/
theorem calling_shared (c : Call) (k : Except AppError Unit → Shared → Out) : (s.calling c k).shared =
    (k (c.run brokerEventStore s.store).1 { s with store := c.after s.store }).shared := by
  unfold Shared.calling Call.after
  simp only
  split <;> rfl

theorem calling_next (c : Call) (k : Except AppError Unit → Shared → Out) : (s.calling c k).next =
    (k (c.run brokerEventStore s.store).1 { s with store := c.after s.store }).next := by
  unfold Shared.calling Call.after
  simp only
  split <;> rfl

theorem keeps_calling {c : Call} {k : Except AppError Unit → Shared → Out} (hc : R s.store (c.after s.store))
    (hk : ∀ r t, (k r t).shared.store = t.store) : R s.store (s.calling c k).shared.store := by
  rw [calling_shared, hk]
  exact hc

theorem dispatchFailed_store (d : Dispatch) (e : AppError) : (s.dispatchFailed cfg d e).shared.store = s.store := by
  unfold Shared.dispatchFailed
  cases d.slot <;> rfl

theorem extendRedo_store (t : String) (k : Int) (chan n : Nat) (redo : List RedoContext) :
    (s.extendRedo cfg t k chan n redo).shared.store = s.store := by
  unfold Shared.extendRedo
  split <;> rfl

/-- What the reads, the operations, the publication and the call of an instruction move along, it moves along. The
handlers do not create tasks. -/
theorem exec_moves {x : Instr} (hR : QuietKeep R)
    (hdispatch : ∀ d n context, x = .dispatchAttempt d n → Keeps R (dispatchExecuteTurn brokerEventStore d context))
    (hop : ∀ o s, o.eventType ≠ .taskCreated → R s (Call.after s (.op o)))
    (hcall : ∀ c s, x = .call c → R s (Call.after s c)) (cfg : Config) (env : Env) (s : Shared) :
    R s.store (s.exec cfg env x).shared.store := by
  have hc : ∀ o : Op, o.eventType ≠ .taskCreated → R s.store (Call.after s.store (.op o)) := fun o => hop o s.store
  cases x with
  | executeTurn t i rg =>
    refine keeps_on (hR.withProjection t _) fun r u => ?_
    rcases r with err | (_ | ⟨turn, turns⟩) <;> rfl
  | startTurn t i rg => exact keeps_on (hR.nextTurnId t) fun r u => by cases r <;> rfl
  | writeTurnStarted t k i rg => exact keeps_calling (hc _ fun h => by cases h) fun r u => by cases r <;> rfl
  | runTurnToCompletion t k i rg => exact keeps_on (hR.resolveTaskType t) fun r u => by cases r <;> rfl
  | enqueueTurn t k i rg chan => exact keeps_on (hR.typeAndPriority t) fun r u => by cases r <;> rfl
  | awaitTurn t k chan n =>
    show R s.store (s.awaitTurn cfg env t k chan n).shared.store
    unfold Shared.awaitTurn
    split
    · exact hR.refl _
    · exact hR.refl _
    · split <;> exact hR.refl _
    · exact hR.refl _
  | dispatchPending tt =>
    show R s.store (s.dispatchPending tt).shared.store
    unfold Shared.dispatchPending
    split <;> exact hR.refl _
  | dispatchAttempt d n =>
    refine keeps_on (hdispatch d n _ rfl) fun r u => ?_
    cases r with
    | ok _ => rfl
    | error e =>
      simp only
      split
      · rfl
      · exact dispatchFailed_store d e
  | releaseSlotAndRedispatch t => exact keeps_on (hR.resolveTaskType t) fun r u => by cases r <;> rfl
  | writeTurnFailed t k et em reason => exact keeps_calling (hc _ fun h => by cases h) fun r u => rfl
  | writeTaskFailed t et reason => exact keeps_calling (hc _ fun h => by cases h) fun r u => rfl
  | turnExecutionDone t k out => exact keeps_calling (hc _ fun h => by cases h) fun r u => by cases r <;> rfl
  | countTurnEvents t k out => exact keeps_on (hR.withProjection t _) fun r u => by cases r <;> rfl
  | turnExecutionError t k et em =>
    refine keeps_on (hR.withProjection t _) fun r u => ?_
    cases r with
    | error err => rfl
    | ok events =>
      simp only
      split <;> rfl
  | decideRetry t k et em i rg =>
    show R s.store (s.decideRetry cfg t k et em i rg).shared.store
    unfold Shared.decideRetry
    dsimp only
    split <;> exact hR.refl _
  | redispatch d => exact keeps_on (hR.withProjection _ _) fun r u => rfl
  | recoverTask t => exact keeps_on (hR.withProjection t _) fun r u => by cases r <;> rfl
  | recoverTurns t turns redo =>
    cases turns with
    | nil => exact hR.refl _
    | cons turn turns =>
      refine keeps_on (hR.recoverTurn t turn _) fun r u => ?_
      rcases r with err | ⟨decision, ctx⟩
      · rfl
      · cases decision <;> rfl
  | skipSteps t k steps n turns redo =>
    cases steps with
    | nil => exact hR.refl _
    | cons step steps => exact keeps_calling (hc _ fun h => by cases h) fun r u => by cases r <;> rfl
  | failBlocked t k n turns redo => exact keeps_calling (hc _ fun h => by cases h) fun r u => by cases r <;> rfl
  | redoAll t redo =>
    show R s.store (s.redoAll t redo).shared.store
    unfold Shared.redoAll
    split
    · exact hR.refl _
    · exact keeps_on (hR.resolveTaskType t) fun r u => by cases r <;> rfl
  | redoTurns t redo => cases redo <;> exact hR.refl _
  | redoCached t r chan redo => exact keeps_on (hR.withProjection _ _) fun r u => rfl
  | enqueueRedo t r cached chan redo => exact keeps_on (hR.typeAndPriority t) fun r u => by cases r <;> rfl
  | awaitRedo t k chan n redo =>
    show R s.store (s.awaitRedo cfg env t k chan n redo).shared.store
    unfold Shared.awaitRedo
    split
    · rw [extendRedo_store]
      exact hR.refl _
    · exact hR.refl _
    · exact hR.refl _
    · rw [extendRedo_store]
      exact hR.refl _
    · exact hR.refl _
  | reclaim keys => cases keys <;> exact hR.refl _
  | call c => exact keeps_calling (hcall c _ rfl) fun r u => by cases r <;> rfl
  | registerTurn _ _ _ _ | dispatchPopped _ | onTurnTerminal _ | clearRetry _ _ | clearDispatchTime _ _
  | completePendingTurn _ _ | giveUpRedo _ _ _ _ _ | watchdog => exact hR.refl _

/-- **What the reads and the calls move along, every instruction moves along.** -/
theorem exec_keeps (hR : ReadsKeep R) (hcall : ∀ c s, R s (Call.after s c)) (cfg : Config) (env : Env) (s : Shared)
    (x : Instr) : R s.store (s.exec cfg env x).shared.store :=
  exec_moves hR.toQuietKeep (fun d _ context _ => hR.dispatchExecuteTurn d context) (fun o s _ => hcall (.op o) s)
    (fun c s _ => hcall c s) cfg env s

end Instructions

/-! ## Orderly stores -/

/-- A consistent cache stays consistent, and a broker that will answer as a healthy one stays so. -/
structure Orderly (s s' : BrokerStore) : Prop where
  ok : s.cache.Ok → s'.cache.Ok
  produces : s.produces = [] → s'.produces = []
  sessions : s.sessions = [] → s'.sessions = []

namespace Orderly

theorem refl (s : BrokerStore) : Orderly s s := ⟨id, id, id⟩

theorem trans {s t u : BrokerStore} (h₁ : Orderly s t) (h₂ : Orderly t u) : Orderly s u :=
  ⟨h₂.ok ∘ h₁.ok, h₂.produces ∘ h₁.produces, h₂.sessions ∘ h₁.sessions⟩

theorem of_untouched {s s' : BrokerStore} (h : Untouched s s') (hp : s'.produces = s.produces) : Orderly s s' :=
  ⟨h.ok, fun h₀ => hp.trans h₀, fun h₀ => h.sessions.trans h₀⟩

theorem cacheGet (taskId : String) : Keeps Orderly (cacheGet taskId) := by
  intro s
  obtain ⟨s₁, hget, hu, hp⟩ := cacheGet_spec taskId s
  rw [hget]
  exact of_untouched hu hp

/-- A load of a projection that is not there. -/
theorem loadFrom {taskId : String} (session : Session) {s : BrokerStore} (hl : s.cache.map.lookup taskId = none) :
    Orderly s (loadFrom taskId session s).2 := by
  refine wp_state (P := Orderly s) ?_
  cases session with
  | refused msg => exact refl s
  | open_ shards frames leaveErr =>
    unfold BrokerStore.loadFrom
    rw [wp_bind, wp_read, wp_bind, wp_update]
    split
    · exact ⟨fun h => h.put _ _, id, id⟩
    · exact ⟨fun h => h.put _ _, id, id⟩
    · exact ⟨fun h => (LruMap.touch_spec h hl).1, id, id⟩

theorem ensureProjection (taskId : String) : Keeps Orderly (ensureProjection taskId) := by
  intro s
  refine wp_state (P := Orderly s) ?_
  unfold BrokerStore.ensureProjection
  rw [wp_bind]
  refine wp_cacheGet fun s₁ hu hp => ?_
  have h₁ := of_untouched hu hp
  cases hl : s.cache.map.lookup taskId with
  | some p => exact h₁
  | none =>
    have hl₁ : s₁.cache.map.lookup taskId = none := by rw [hu.map, hl]
    show wp (mapErr _ (catchUp taskId)) _ _ s₁
    rw [wp_mapErr]
    unfold catchUp
    rw [wp_bind]
    cases hs : s₁.sessions with
    | nil =>
      have hnext : nextSession taskId s₁ = (.ok (healthySession (s₁.streams taskId)), s₁) := by
        unfold nextSession
        rw [hs]
      unfold wp
      rw [hnext]
      exact wp_of_state (P := Orderly s) (h₁.trans (loadFrom _ hl₁))
    | cons session rest =>
      have hnext : nextSession taskId s₁ = (.ok session, { s₁ with sessions := rest }) := by
        unfold nextSession
        rw [hs]
      -- there was a session to come
      have hload := loadFrom session (s := { s₁ with sessions := rest }) hl₁
      have hne : s.sessions ≠ [] := by
        rw [← hu.sessions, hs]
        exact List.cons_ne_nil _ _
      unfold wp
      rw [hnext]
      exact wp_of_state (P := Orderly s)
        ⟨fun h => hload.ok (h₁.ok h), fun h => hload.produces (h₁.produces h), fun h => absurd h hne⟩

theorem invalidateProjection (taskId : String) : Keeps Orderly (invalidateProjection taskId) :=
  fun _ => ⟨fun h => h.invalidate taskId, id, id⟩

/-- A broker that has nothing odd to come takes every record. -/
theorem wp_produce_orderly {stream eventType : String} {content : Json} {metadata : Metadata} {s : BrokerStore}
    {Q : Nat → BrokerStore → Prop} {E : String → BrokerStore → Prop} (hok : ∀ seq s', Orderly s s' → Q seq s')
    (herr : ∀ msg s', Orderly s s' → E msg s') : wp (produce stream eventType content metadata) Q E s := by
  refine wp_produce (fun seq s' _ _ hc hss hp => hok seq s' ?_) fun msg s' hr _ hc hss => herr msg s' ?_
  · exact ⟨fun h => hc ▸ h, fun h => by rw [hp, h]; rfl, fun h => hss.trans h⟩
  · refine ⟨fun h => hc ▸ h, fun h => ?_, fun h => hss.trans h⟩
    unfold nextReply at hr
    rw [h] at hr
    cases hr

theorem publishTurnBegin (taskId taskType : String) (payload : Json) :
    Keeps Orderly (publishTurnBegin taskId taskType payload) := by
  intro s
  refine wp_state (P := Orderly s) ?_
  unfold BrokerStore.publishTurnBegin
  rw [wp_bind, wp_mapErr]
  exact wp_produce_orderly (fun _ _ h => h) fun _ _ h => h

theorem readsKeep : ReadsKeep Orderly where
  refl := refl
  trans := fun _ _ _ => trans
  cacheGet := cacheGet
  ensureProjection := ensureProjection
  invalidateProjection := invalidateProjection
  publishTurnBegin := publishTurnBegin

theorem writeEvent (e : AgentEvent) : Keeps Orderly (writeEvent e) := by
  intro s
  refine wp_state (P := Orderly s) ?_
  unfold BrokerStore.writeEvent
  cases e.validateScope with
  | error msg => exact refl s
  | ok u =>
    simp only
    rw [wp_bind]
    cases validatePayloadRequiredFields e.eventType e.payload with
    | error err => exact refl s
    | ok u =>
      rw [wp_ofExcept_ok, wp_bind]
      refine wp_cacheGet fun s₁ hu hp => ?_
      have h₁ := of_untouched hu hp
      rw [wp_bind]
      cases validateTaskEventTransition ((s.cache.map.lookup e.taskId).map TaskProjection.state) e.eventType with
      | error err => exact h₁
      | ok u =>
        rw [wp_ofExcept_ok, wp_bind, wp_mapErr]
        refine wp_produce_orderly (fun seq s₂ h₂ => ?_) fun msg s₂ h₂ => h₁.trans h₂
        rw [wp_bind]
        unfold applyCached
        rw [wp_bind]
        refine wp_cacheGet fun s₃ hu₃ hp₃ => ?_
        have h₃ := (h₁.trans h₂).trans (of_untouched hu₃ hp₃)
        split
        · exact h₃.trans ⟨fun h => h.put _ _, id, id⟩
        · exact h₃

/-- An operation reads, and writes through `writeEvent`. -/
theorem op (o : Op) : Keeps Orderly (o.run brokerEventStore) := by
  intro s
  obtain ⟨s₁, h₁, hcase⟩ := o.writesAtMostOnce (readsKeep.readsOnly o.taskId) s
  rcases hcase with ⟨err, herr⟩ | ⟨e, -, hs, -⟩
  · rw [herr]
    exact h₁
  · rw [hs]
    exact h₁.trans (writeEvent e s₁)

/-- The records of a batch. -/
theorem batchProduce (events : List AgentEvent) (s : BrokerStore) : Orderly s (batchProduce events s).2 := by
  refine wp_state (P := Orderly s) ?_
  induction events generalizing s with
  | nil => exact refl s
  | cons e es ih =>
    unfold BrokerStore.batchProduce
    rw [wp_bind]
    refine wp_produce_orderly (fun seq s₁ h₁ => ?_) fun msg s₁ h₁ => h₁
    rw [wp_bind]
    exact wp_mono (ih s₁) (fun seqs s₂ h₂ => h₁.trans h₂) fun _ s₂ h₂ => h₁.trans h₂

theorem writeEventsBatch (events : List AgentEvent) : Keeps Orderly (writeEventsBatch events) := by
  intro s
  refine wp_state (P := Orderly s) ?_
  cases events with
  | nil => exact refl s
  | cons first rest =>
    unfold BrokerStore.writeEventsBatch
    simp only
    rw [wp_bind, wp_mapErr, wp_atomically]
    refine wp_mono (wp_of_state (P := Orderly s) (batchProduce (first :: rest) s)) (fun seqs s₁ h₁ => ?_)
      fun msg s₁ h₁ => ⟨h₁.ok, h₁.produces, h₁.sessions⟩
    rw [wp_bind]
    refine wp_cacheGet fun s₂ hu hp => ?_
    have h₂ := h₁.trans (of_untouched hu hp)
    split
    · exact h₂.trans ⟨fun h => h.put _ _, id, id⟩
    · exact h₂

theorem createTask (uuid taskType tenantId userId : String) (provenance : Provenance) (body : Option Json)
    (priority : Int) (effectivePolicy : Option EffectivePolicy) :
    Keeps Orderly (createTask uuid taskType tenantId userId provenance body priority effectivePolicy) := by
  intro s
  refine wp_state (P := Orderly s) ?_
  unfold BrokerStore.createTask
  simp only
  rw [wp_bind, wp_mapErr]
  exact wp_produce_orderly (fun _ _ h => h) fun _ _ h => h

theorem discard {α : Type} {m : StoreM BrokerStore α} (h : Keeps Orderly m) : Keeps Orderly (Op.discard m) :=
  readsKeep.bind h fun _ => readsKeep.pure ()

/-- **The calls keep the store orderly.** -/
theorem call (c : Call) (s : BrokerStore) : Orderly s (c.after s) := by
  cases c with
  | op o => exact op o s
  | createTask uuid taskType provenance body priority effectivePolicy =>
    exact discard (createTask uuid taskType _ _ provenance body priority effectivePolicy) s
  | writeEventsBatch events => exact discard (writeEventsBatch events) s

/-- **Every instruction keeps the store orderly.** -/
theorem exec (cfg : Config) (env : Env) (s : Shared) (x : Instr) : Orderly s.store (s.exec cfg env x).shared.store :=
  exec_keeps readsKeep call cfg env s x

end Orderly

/-- A move of the orchestrator keeps the store orderly. -/
theorem orderly_move (cfg : Config) (o : Orchestrator) (m : OMove) :
    Orderly o.shared.store (orchestrate cfg o m).shared.store := by
  unfold orchestrate
  rcases move_cases (execWith cfg) Instr.isEntry o m with ⟨heq, -⟩ | ⟨x, -, heq, -⟩ | ⟨k, env, x, rest, he⟩
  · rw [heq]
    exact Orderly.refl _
  · rw [heq]
    exact Orderly.refl _
  · rw [he.shared]
    exact Orderly.exec cfg env o.shared x

/-- So does a run. -/
theorem orderly_run (cfg : Config) (o : Orchestrator) (moves : List OMove) :
    Orderly o.shared.store (run (orchestrate cfg) o moves).shared.store :=
  run_relation (C := fun _ _ => True) (fun _ => True) (fun o o' => Orderly o.shared.store o'.shared.store)
    (fun _ => Orderly.refl _) (fun _ _ _ => Orderly.trans) (fun _ _ _ _ => trivial)
    (fun o m _ _ => orderly_move cfg o m)
    trivial meets_true

end Fixus
