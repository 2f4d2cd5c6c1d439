import Fixus.Lib.Run
import Fixus.Service
import Fixus.Store.Broker

/-!
# Calls on the broker store

The calls that reach the store one at a time: an operation on a task, the creation of a task, a batch.

- `op_cases`, `op_spec`: an operation is rejected and changes nothing of its task, or it writes the one event it
  describes;
- `createTask_spec`, `batch_spec`: the same for the other two calls;
- `wrote_log`, `Warm.wrote`: an accepted write appends one record and keeps the cached projection equal to the replay
  of the log.
-/

namespace Fixus

open Lib Lib.Eff BrokerStore

/-- A call on the store. -/
inductive Call where
  | op (o : Op)
  | createTask (uuid taskType : String) (provenance : Provenance) (body : Option Json) (priority : Int)
      (effectivePolicy : Option EffectivePolicy)
  | writeEventsBatch (events : List AgentEvent)

namespace Call

/-- Run a call. -/
def run {σ : Type} (store : EventStore σ) : Call → StoreM σ Unit
  | op o => o.run store
  | createTask uuid taskType provenance body priority effectivePolicy =>
    Op.discard (Service.createTask store uuid taskType provenance body priority effectivePolicy)
  | writeEventsBatch events => Op.discard (Service.writeEventsBatch store events)

/-- The store after a call. -/
def after (s : BrokerStore) (c : Call) : BrokerStore := (c.run brokerEventStore s).2

/-- The call succeeded. -/
def Ok (s : BrokerStore) (c : Call) : Prop := (c.run brokerEventStore s).1 = .ok ()

end Call

/-- The identifier of a created task. -/
def createdId (uuid : String) : String := "task_" ++ uuid

/-! ## Projections that are up to date -/

/-- The cached projection of the task is the replay of its log. -/
def Warm (taskId : String) (s : BrokerStore) : Prop :=
  s.cache.map.lookup taskId = some (TaskProjection.replay taskId (s.log taskId))

/-- The streams are the same, and so is the projection of the task if there is a cached one. -/
structure Kept (taskId : String) (s s' : BrokerStore) : Prop where
  streams : s'.streams = s.streams
  cached : ∀ p, s.cache.map.lookup taskId = some p → s'.cache.map.lookup taskId = some p

theorem Kept.of_sameTask {taskId : String} {s s' : BrokerStore} (h : SameTask taskId s s') : Kept taskId s s' :=
  ⟨h.streams, h.cached⟩

theorem Kept.of_untouched {taskId : String} {s s' : BrokerStore} (h : Untouched s s') : Kept taskId s s' :=
  ⟨h.streams, fun p hl => by rw [h.map, hl]⟩

theorem Kept.trans {taskId : String} {s t u : BrokerStore} (h₁ : Kept taskId s t) (h₂ : Kept taskId t u) :
    Kept taskId s u :=
  ⟨h₂.streams.trans h₁.streams, fun p hp => h₂.cached p (h₁.cached p hp)⟩

/-- What leaves the log and the projection alone leaves the projection up to date. -/
theorem Warm.kept {taskId : String} {s s' : BrokerStore} (hw : Warm taskId s) (h : Kept taskId s s') :
    Warm taskId s' := by
  unfold Warm BrokerStore.log
  rw [h.streams]
  exact h.cached _ hw

/-- An accepted write appends one record to the log of its task. -/
theorem wrote_log {e : AgentEvent} {seq : Nat} {s s' : BrokerStore} (h : Wrote e seq s s') :
    s'.log e.taskId = s.log e.taskId ++ [recordOf seq e] := by
  unfold BrokerStore.log
  rw [h.streams, Function.update_self]

/-- The state after the record of an event. -/
theorem stateOf_recordOf (log : List Record) (seq : Nat) (e : AgentEvent) :
    stateOf (log ++ [recordOf seq e]) = stateAfter (stateOf log) e.eventType := by
  have he : EventType.fromStr (recordOf seq e).eventType = some e.eventType := EventType.fromStr_asStr _
  rw [stateOf_append, stateStep, he]

/-- An accepted write leaves the other streams alone. -/
theorem wrote_log_of_ne {e : AgentEvent} {seq : Nat} {s s' : BrokerStore} (h : Wrote e seq s s') {taskId : String}
    (hne : taskId ≠ e.taskId) : s'.log taskId = s.log taskId := by
  unfold BrokerStore.log
  rw [h.streams, Function.update_of_ne hne]

/-- It keeps an up-to-date projection up to date. -/
theorem Warm.wrote {e : AgentEvent} {seq : Nat} {s s' : BrokerStore} (hw : Warm e.taskId s) (h : Wrote e seq s s') :
    Warm e.taskId s' := by
  unfold Warm at *
  rw [wrote_log h, TaskProjection.replay_append, h.map, hw]
  exact Finmap.lookup_insert _

/-! ## Operations on one task -/

/-- An operation that was rejected: its task is as it was. -/
def OpRejected (op : Op) (s : BrokerStore) : Prop :=
  (∃ err, (op.run brokerEventStore s).1 = .error err) ∧ Kept op.taskId s (op.run brokerEventStore s).2

/-- An operation that wrote its event, after reads that changed nothing of the task. -/
def OpWrote (op : Op) (s : BrokerStore) : Prop :=
  (op.run brokerEventStore s).1 = .ok () ∧ ∃ e seq s₁, op.Describes e ∧ SameTask op.taskId s s₁ ∧ Accepted e s₁ ∧
    s₁.nextReply e.taskId = .ok seq ∧ Wrote e seq s₁ (op.run brokerEventStore s).2

/-- Whatever relation its reads keep: an operation moves along it, and then fails or writes the one event it
describes. -/
theorem op_cases {R : BrokerStore → BrokerStore → Prop} {op : Op}
    (hop : WritesAtMostOnce brokerEventStore R op.Describes (op.run brokerEventStore)) (s : BrokerStore) :
    (∃ s₁, R s s₁ ∧ Untouched s₁ (op.run brokerEventStore s).2 ∧ ∃ err, (op.run brokerEventStore s).1 = .error err) ∨
      ((op.run brokerEventStore s).1 = .ok () ∧ ∃ e seq s₁, op.Describes e ∧ R s s₁ ∧ Accepted e s₁ ∧
        s₁.nextReply e.taskId = .ok seq ∧ Wrote e seq s₁ (op.run brokerEventStore s).2) := by
  obtain ⟨s₁, hR, hcase⟩ := hop s
  rcases hcase with ⟨err, herr⟩ | ⟨e, hd, hs, hok⟩
  · exact Or.inl ⟨s₁, hR, by rw [herr]; exact Untouched.refl s₁, err, by rw [herr]⟩
  · have hspec := writeEvent_spec e s₁
    have hw : brokerEventStore.writeEvent e = writeEvent e := rfl
    rw [hw] at hs hok
    cases hres : writeEvent e s₁ with
    | mk r s₂ =>
      rw [hres] at hs hok
      cases r with
      | error err =>
        obtain ⟨hu, -⟩ := wp_error hspec hres
        refine Or.inl ⟨s₁, hR, by rw [hs]; exact hu, ?_⟩
        cases hr : (op.run brokerEventStore s).1 with
        | error err' => exact ⟨err', rfl⟩
        | ok a =>
          obtain ⟨seq, hseq⟩ := hok.mp ⟨a, hr⟩
          cases hseq
      | ok n =>
        obtain ⟨hacc, seq, hseq, -, hwrote⟩ := wp_ok hspec hres
        obtain ⟨a, ha⟩ := hok.mpr ⟨n, rfl⟩
        exact Or.inr ⟨ha, e, seq, s₁, hd, hR, hacc, hseq, by rw [hs]; exact hwrote⟩

/-- **An operation is rejected and changes nothing of its task, or writes the one event it describes.** -/
theorem op_spec (op : Op) (s : BrokerStore) : OpRejected op s ∨ OpWrote op s := by
  rcases op_cases (op.writesAtMostOnce (brokerEventStore_readsOnly op.taskId)) s with ⟨s₁, hR, hu, herr⟩ | hwrote
  · exact Or.inl ⟨herr, (Kept.of_sameTask hR).trans (Kept.of_untouched hu)⟩
  · exact Or.inr hwrote

/-! ## Creating tasks -/

theorem wp_discard {α : Type} {m : StoreM BrokerStore α} {Q : Unit → BrokerStore → Prop}
    {E : AppError → BrokerStore → Prop} {s : BrokerStore} :
    wp (Op.discard m) Q E s ↔ wp m (fun _ => Q ()) E s := wp_bind

/-- Creating a task appends one `task_created` to the stream of the new identifier and touches no projection; a
failure changes nothing. -/
theorem createTask_spec (uuid taskType : String) (provenance : Provenance) (body : Option Json) (priority : Int)
    (effectivePolicy : Option EffectivePolicy) (s : BrokerStore) :
    wp ((Call.createTask uuid taskType provenance body priority effectivePolicy).run brokerEventStore)
      (fun _ s' => s'.cache = s.cache ∧ s'.sessions = s.sessions ∧
        ∃ r : Record, r.eventType = EventType.taskCreated.asStr ∧
          s'.streams = Function.update s.streams (createdId uuid) (s.streams (createdId uuid) ++ [r]))
      (fun _ s' => s'.cache = s.cache ∧ s'.sessions = s.sessions ∧ s'.streams = s.streams) s := by
  unfold Call.run
  rw [wp_discard]
  show wp (BrokerStore.createTask _ _ _ _ _ _ _ _) _ _ s
  unfold BrokerStore.createTask
  simp only
  rw [wp_bind, wp_mapErr]
  refine wp_produce (fun seq s' _ hs hc hss _ => ?_) fun msg s' _ hs hc hss => ⟨hc, hss, hs⟩
  exact ⟨hc, hss, _, rfl, hs⟩

/-! ## Batches -/

/-- The streams after the records of a batch. -/
def appendAll (streams : String → List Record) (written : List (AgentEvent × Nat)) : String → List Record :=
  written.foldl (fun st w => Function.update st w.1.taskId (st w.1.taskId ++ [recordOf w.2 w.1])) streams

/-- The records of a batch, as they lie on a stream. -/
def batchRecords (written : List (AgentEvent × Nat)) : List Record := written.map fun w => recordOf w.2 w.1

/-- The broker takes every record of a batch, in order. -/
theorem batchProduce_spec (events : List AgentEvent) (s : BrokerStore) : wp (batchProduce events)
    (fun seqs s' => seqs.length = events.length ∧ s'.cache = s.cache ∧ s'.sessions = s.sessions ∧
      s'.streams = appendAll s.streams (events.zip seqs))
    (fun _ s' => s'.cache = s.cache ∧ s'.sessions = s.sessions) s := by
  induction events generalizing s with
  | nil => exact ⟨rfl, rfl, rfl, rfl⟩
  | cons e es ih =>
    unfold batchProduce
    rw [wp_bind]
    refine wp_produce (fun seq s₁ _ hs hc hss _ => ?_) fun msg s₁ _ _ hc hss => ⟨hc, hss⟩
    rw [wp_bind]
    refine wp_mono (ih s₁) (fun seqs s₂ h => ?_) fun _ s₂ h => ⟨h.1.trans hc, h.2.trans hss⟩
    obtain ⟨hlen, hc₂, hss₂, hs₂⟩ := h
    refine ⟨by simp [hlen], hc₂.trans hc, hss₂.trans hss, ?_⟩
    rw [hs₂, hs]
    rfl

/-- A batch is appended as a whole and folded into the projection of its first event's task, or changes nothing. -/
theorem batch_spec (events : List AgentEvent) (s : BrokerStore) :
    wp ((Call.writeEventsBatch events).run brokerEventStore)
      (fun _ s' => (Healthy s → Healthy s') ∧ ∃ seqs : List Nat, seqs.length = events.length ∧
        s'.streams = appendAll s.streams (events.zip seqs) ∧
        s'.cache.map = match events with
          | [] => s.cache.map
          | first :: _ => match s.cache.map.lookup first.taskId with
            | some p => s.cache.map.insert first.taskId
                ((batchRecords (events.zip seqs)).foldl TaskProjection.applyIgnoring p)
            | none => s.cache.map)
      (fun _ s' => (Healthy s → Healthy s') ∧ s'.streams = s.streams ∧ s'.cache.map = s.cache.map) s := by
  unfold Call.run
  rw [wp_discard]
  show wp (BrokerStore.writeEventsBatch events) _ _ s
  cases events with
  | nil => exact ⟨id, [], rfl, rfl, rfl⟩
  | cons first rest =>
    unfold BrokerStore.writeEventsBatch
    simp only
    rw [wp_bind, wp_mapErr, wp_atomically]
    refine wp_mono (batchProduce_spec (first :: rest) s) (fun seqs s₁ h => ?_) fun msg s₁ h => ?_
    · obtain ⟨hlen, hc, hss, hs⟩ := h
      have hh : Healthy s → Healthy s₁ := fun h => ⟨hss.trans h.sessions, hc ▸ h.ok⟩
      rw [wp_bind]
      refine wp_cacheGet fun s₂ hu _ => ?_
      have hmap : s₁.cache.map = s.cache.map := congrArg LruMap.map hc
      rw [hmap]
      cases hl : s.cache.map.lookup first.taskId with
      | none =>
        refine ⟨fun h => hu.healthy (hh h), seqs, hlen, by rw [hu.streams, hs], ?_⟩
        simp only [hu.map, hmap]
      | some p =>
        refine ⟨fun h => ?_, seqs, hlen, by simp only [hu.streams, hs], ?_⟩
        · have h₂ := hu.healthy (hh h)
          exact ⟨h₂.sessions, h₂.ok.put _ _⟩
        · simp only [hu.map, hmap, LruMap.put]
          rw [batchRecords, List.foldl_map]
    · obtain ⟨hc, hss⟩ := h
      exact ⟨fun h => ⟨hss.trans h.sessions, hc ▸ h.ok⟩, rfl, congrArg LruMap.map hc⟩

/-! ## The log of one task -/

/-- The call writes to the stream of the task. -/
def Call.WritesTo (taskId : String) : Call → Prop
  | .op o => o.taskId = taskId
  | .createTask uuid _ _ _ _ _ => createdId uuid = taskId
  | .writeEventsBatch events => ∃ e ∈ events, e.taskId = taskId

/-- On each stream a batch puts the records of that task, in order. -/
theorem appendAll_apply (written : List (AgentEvent × Nat)) (streams : String → List Record) (taskId : String) :
    appendAll streams written taskId =
      streams taskId ++ batchRecords (written.filter fun w => w.1.taskId = taskId) := by
  induction written generalizing streams with
  | nil => simp [appendAll, batchRecords]
  | cons w ws ih =>
    have hrest := ih (Function.update streams w.1.taskId (streams w.1.taskId ++ [recordOf w.2 w.1]))
    unfold appendAll at *
    rw [List.foldl_cons, hrest]
    by_cases hw : w.1.taskId = taskId
    · subst hw
      simp [batchRecords]
    · rw [Function.update_of_ne (Ne.symm hw)]
      simp [hw]

/-- A call leaves the logs of the other tasks alone. -/
theorem log_after_of_not_writesTo {taskId : String} {s : BrokerStore} {c : Call} (h : ¬ c.WritesTo taskId) :
    (c.after s).log taskId = s.log taskId := by
  have hstate : ∀ {E : AppError → BrokerStore → Prop},
      wp (c.run brokerEventStore) (fun _ s' => s'.log taskId = s.log taskId) E s →
      (∀ err s', E err s' → s'.log taskId = s.log taskId) → (c.after s).log taskId = s.log taskId := fun h hE =>
    wp_state (P := fun s' : BrokerStore => s'.log taskId = s.log taskId) (wp_mono h (fun _ _ h => h) hE)
  cases c with
  | op o =>
    have ht : taskId ≠ o.taskId := fun he => h he.symm
    rcases op_spec o s with ⟨-, hk⟩ | ⟨-, e, seq, s₁, hd, hsame, -, -, hwrote⟩
    · exact congrFun hk.streams taskId
    · exact (wrote_log_of_ne hwrote (by rw [hd.taskId]; exact ht)).trans (congrFun hsame.streams taskId)
  | createTask uuid taskType provenance body priority effectivePolicy =>
    have ht : taskId ≠ createdId uuid := fun he => h he.symm
    refine hstate (wp_mono (createTask_spec uuid taskType provenance body priority effectivePolicy s)
      (fun _ s' hs => ?_) fun _ _ hs => hs) fun _ _ hs => congrFun hs.2.2 taskId
    obtain ⟨-, -, r, -, hs⟩ := hs
    unfold BrokerStore.log
    rw [hs, Function.update_of_ne ht]
  | writeEventsBatch events =>
    refine hstate (wp_mono (batch_spec events s) (fun _ s' hs => ?_) fun _ _ hs => hs)
      fun _ _ hs => congrFun hs.2.1 taskId
    obtain ⟨-, seqs, -, hs, -⟩ := hs
    have hnone : (events.zip seqs).filter (fun w => w.1.taskId = taskId) = [] :=
      List.filter_eq_nil_iff.mpr fun w hw htask => h ⟨w.1, (List.of_mem_zip hw).1, of_decide_eq_true htask⟩
    unfold BrokerStore.log
    rw [hs, appendAll_apply, hnone]
    simp [batchRecords]

/-- On the stream of its own task a batch puts all its records. -/
theorem appendAll_self {taskId : String} {written : List (AgentEvent × Nat)} (h : ∀ w ∈ written, w.1.taskId = taskId)
    (streams : String → List Record) :
    appendAll streams written taskId = streams taskId ++ batchRecords written := by
  rw [appendAll_apply, List.filter_eq_self.mpr fun w hw => by simpa using h w hw]

end Fixus
