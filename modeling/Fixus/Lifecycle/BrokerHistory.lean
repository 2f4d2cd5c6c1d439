import Fixus.Lifecycle.History
import Fixus.Lifecycle.SummaryTrigger
import Fixus.Store.Tracking

/-!
# The production store as a history of events

The broker store answers from projections that it keeps in a cache. In a run of calls against a broker whose sessions
are healthy, each task's projection is that of its whole stream, and so the reads see the events that the calls added.

- `BrokerAnswers`: what the reads of a task say about its events;
- `call_logs`: a call adds the events that it records;
- `call_tracks`: a call leaves the projections of all tasks up to date;
- `broker_history`: in every run, the reads of every task are answered from the events that the calls added.
-/

namespace Fixus

open Lib Lib.Eff BrokerStore TaskProjection

/-- One event by its number. -/
def BrokerStore.getEvent (taskId : String) (seq : Int) : StoreM BrokerStore (Option AgentEvent) :=
  withProjection taskId fun p => p.bySeq.lookup seq

/-! ## Answers -/

/-- The read succeeds with the answer. -/
def Shows {α : Type} (m : StoreM BrokerStore α) (a : α) (s : BrokerStore) : Prop :=
  wp m (fun answer _ => answer = a) (fun _ _ => False) s

/-- The state of a task with the events. -/
def stateFrom (events : List AgentEvent) : TaskState :=
  events.foldl (fun state e => stateAfter state e.eventType) .created

variable {taskId : String} {log : List Record} {events : List AgentEvent} {e : AgentEvent} {s s' : BrokerStore}

/-- The record of an event reads as the event. -/
theorem decodes_recordOf (hfits : ∀ k, e.turnId = some k → InI64 k) (seq : Nat) :
    Decodes e.taskId (recordOf seq e) { e with seq := wrapI64 (recordOf seq e).seq } :=
  decodes_ofEvent rfl rfl (eventMeta_turnId e) (eventMeta_stepId e) hfits

/-- A written record adds its event. -/
theorem LoggedAll.wrote {seq : Nat} (h : LoggedAll s.streams events) (hw : Wrote e seq s s')
    (hfits : ∀ k, e.turnId = some k → InI64 k) : LoggedAll s'.streams (events ++ [e]) := by
  rw [hw.streams]
  exact h.snoc (decodes_recordOf hfits seq)

/-- The records of a batch add its events. -/
theorem LoggedAll.appendAll {streams : String → List Record} (h : LoggedAll streams events) {added : List AgentEvent}
    {seqs : List Nat} (hlen : seqs.length = added.length) (hfits : ∀ e ∈ added, ∀ k, e.turnId = some k → InI64 k) :
    LoggedAll (appendAll streams (added.zip seqs)) (events ++ added) := by
  induction added generalizing streams events seqs with
  | nil => simpa [Fixus.appendAll] using h
  | cons e added ih =>
    obtain ⟨hfit, hfits⟩ := List.forall_mem_cons.mp hfits
    cases seqs with
    | nil => cases hlen
    | cons seq seqs =>
      have hall := ih (h.snoc (decodes_recordOf hfit seq)) (Nat.succ.inj hlen) hfits
      rwa [List.append_assoc] at hall

/-- An operation that fails leaves the streams alone, and one that succeeds writes its event. -/
theorem op_writes (o : Op) (s : BrokerStore) :
    (¬ Call.Ok s (.op o) ∧ ∃ s₁, Seen o.taskId s s₁ ∧ Untouched s₁ (Call.after s (.op o))) ∨
      (Call.Ok s (.op o) ∧ ∃ e seq s₁, o.DescribesFrom brokerEventStore (Seen o.taskId) s e ∧ Seen o.taskId s s₁ ∧
        Wrote e seq s₁ (Call.after s (.op o))) := by
  obtain ⟨s₁, hseen, hcase⟩ := o.writesFrom (brokerEventStore_sees o.taskId) s
  have hrun : (Call.op o).run brokerEventStore = o.run brokerEventStore := rfl
  unfold Call.Ok Call.after
  rw [hrun]
  rcases hcase with ⟨err, herr⟩ | ⟨e, hd, hs, hok⟩
  · rw [herr]
    exact Or.inl ⟨by simp, s₁, hseen, Untouched.refl s₁⟩
  · have hs' : (o.run brokerEventStore s).2 = (writeEvent e s₁).2 := hs
    have hok' : (∃ u, (o.run brokerEventStore s).1 = .ok u) ↔ ∃ seq, (writeEvent e s₁).1 = .ok seq := hok
    rw [hs']
    rcases wp_cases (writeEvent_spec e s₁) with ⟨n, s₂, heq, -, seq, -, -, hw⟩ | ⟨err, s₂, heq, hu, -⟩
    · rw [heq] at hok' ⊢
      obtain ⟨u, hu⟩ := hok'.mpr ⟨n, rfl⟩
      exact Or.inr ⟨hu, e, seq, s₁, hd, hseen, hw⟩
    · rw [heq] at hok' ⊢
      refine Or.inl ⟨fun hrunOk => ?_, s₁, hseen, hu⟩
      obtain ⟨seq, hseq⟩ := hok'.mp ⟨(), hrunOk⟩
      cases hseq

/-! ## Projections stay up to date -/

/-- The reads of an operation. -/
theorem Tracks.seen {k : String} (h : Tracks taskId s) (hs : Seen k s s') : Tracks taskId s' := by
  refine h.of_cached (hs.healthy h.healthy) (congrArg _ (congrFun hs.streams taskId)) fun p hp => ?_
  rcases hs.others h.healthy taskId p hp with hl | ⟨rfl, rfl⟩
  · exact view_of_lookup hl
  · rfl

/-- The events of a batch are all about one task. -/
def Call.OneTask : Call → Prop
  | .writeEventsBatch events => ∃ taskId, ∀ e ∈ events, e.taskId = taskId
  | _ => True

/-- A task that is created is new: nothing has been read of it. -/
def CreatesNew (s : BrokerStore) : Call → Prop
  | .createTask uuid _ _ _ _ _ => s.cache.map.lookup (createdId uuid) = none
  | _ => True

/-- A task whose projection is not cached is tracked. -/
theorem tracks_of_lookup_none (hs : Healthy s) (hl : s.cache.map.lookup taskId = none) : Tracks taskId s where
  healthy := hs
  view := by unfold BrokerStore.view; rw [hl, Option.getD_none]

/-- More records, folded into the projection if one is cached. -/
theorem Tracks.folded {rs : List Record} (h : Tracks taskId s) (hs : Healthy s')
    (hlog : s'.log taskId = s.log taskId ++ rs)
    (hcached : ∀ p, s'.cache.map.lookup taskId = some p → p = rs.foldl applyIgnoring (s.view taskId)) :
    Tracks taskId s' := by
  cases hl : s'.cache.map.lookup taskId with
  | none => exact tracks_of_lookup_none hs hl
  | some p =>
    refine ⟨hs, ?_⟩
    rw [view_of_lookup hl, hcached p hl, h.view, hlog]
    unfold replay
    rw [List.foldl_append]

/-- A batch about one task is folded into the projection of the task, if it is cached. -/
theorem Tracks.batch {k : String} {first : AgentEvent} {rest : List AgentEvent} {seqs : List Nat} (h : Tracks taskId s)
    (hs : Healthy s') (hk : ∀ e ∈ first :: rest, e.taskId = k)
    (hstreams : s'.streams = appendAll s.streams ((first :: rest).zip seqs))
    (hcached : ∀ q, s.cache.map.lookup k = some q →
      s'.cache.map = s.cache.map.insert k ((batchRecords ((first :: rest).zip seqs)).foldl applyIgnoring q))
    (hnone : s.cache.map.lookup k = none → s'.cache.map = s.cache.map) : Tracks taskId s' := by
  have hwritten : ∀ w ∈ (first :: rest).zip seqs, w.1.taskId = k := fun w hw => hk _ (List.of_mem_zip hw).1
  have hlog : s'.log taskId = s.log taskId ++
      batchRecords (((first :: rest).zip seqs).filter fun w => w.1.taskId = taskId) := by
    unfold BrokerStore.log
    rw [hstreams, appendAll_apply]
  refine h.folded hs hlog fun p hp => ?_
  by_cases ht : taskId = k
  · have hall : ((first :: rest).zip seqs).filter (fun w => w.1.taskId = taskId) = (first :: rest).zip seqs :=
      List.filter_eq_self.mpr fun w hw => by simpa [hwritten w hw] using ht.symm
    rw [hall]
    cases hl : s.cache.map.lookup k with
    | none =>
      rw [hnone hl, ht, hl] at hp
      cases hp
    | some q =>
      rw [hcached q hl, ht, Finmap.lookup_insert] at hp
      rw [ht, view_of_lookup hl]
      exact (Option.some.inj hp).symm
  · -- the stream and the projection of another task are not touched
    have hnil : ((first :: rest).zip seqs).filter (fun w => w.1.taskId = taskId) = [] :=
      List.filter_eq_nil_iff.mpr fun w hw => by simpa [hwritten w hw] using Ne.symm ht
    rw [hnil]
    refine (view_of_lookup ?_).symm
    rw [← hp]
    cases hl : s.cache.map.lookup k with
    | none => rw [hnone hl]
    | some q => rw [hcached q hl, Finmap.lookup_insert_of_ne _ ht]

/-- **A call leaves the projections of all tasks up to date.** -/
theorem call_tracks (h : ∀ taskId, Tracks taskId s) {c : Call} (hc : c.OneTask) (hn : CreatesNew s c)
    (taskId : String) :
    Tracks taskId (c.after s) := by
  have hhealthy := (h taskId).healthy
  cases c with
  | op o =>
    rcases op_writes o s with ⟨-, s₁, hseen, hu⟩ | ⟨-, e, seq, s₁, -, hseen, hw⟩
    · exact ((h taskId).seen hseen).untouched hu
    · exact ((h taskId).seen hseen).wrote hw
  | createTask uuid taskType provenance body priority effectivePolicy =>
    have hafter := Call.healthy hhealthy (.createTask uuid taskType provenance body priority effectivePolicy)
    have hspec := createTask_spec uuid taskType provenance body priority effectivePolicy s
    unfold Call.after at hafter ⊢
    rcases wp_cases hspec with ⟨u, s', heq, hcache, -, r, -, hstreams⟩ | ⟨err, s', heq, hcache, -, hstreams⟩
    · rw [heq] at hafter ⊢
      by_cases hk : taskId = createdId uuid
      · exact tracks_of_lookup_none hafter (by rw [hcache, hk]; exact hn)
      · have hlog : s'.log taskId = s.log taskId := by
          unfold BrokerStore.log
          rw [hstreams, Function.update_of_ne hk]
        exact (h taskId).of_cached hafter (congrArg _ hlog) fun p hp => view_of_lookup (hcache ▸ hp)
    · rw [heq] at hafter ⊢
      exact (h taskId).of_cached hafter (congrArg _ (congrFun hstreams taskId)) fun p hp => view_of_lookup (hcache ▸ hp)
  | writeEventsBatch added =>
    have hafter := Call.healthy hhealthy (.writeEventsBatch added)
    unfold Call.after at hafter ⊢
    rcases wp_cases (batch_spec added s) with
      ⟨u, s', heq, -, seqs, -, hstreams, hmap⟩ | ⟨err, s', heq, -, hstreams, hmap⟩
    · rw [heq] at hafter ⊢
      cases added with
      | nil =>
        dsimp only at hmap
        exact (h taskId).of_cached hafter (congrArg _ (congrFun hstreams taskId)) fun p hp => view_of_lookup (hmap ▸ hp)
      | cons first rest =>
        obtain ⟨k, hk⟩ := hc
        dsimp only at hmap
        rw [hk first List.mem_cons_self] at hmap
        exact (h taskId).batch hafter hk hstreams (fun q hl => by rw [hmap, hl]) fun hl => by rw [hmap, hl]
    · rw [heq] at hafter ⊢
      exact (h taskId).of_cached hafter (congrArg _ (congrFun hstreams taskId)) fun p hp => view_of_lookup (hmap ▸ hp)

/-! ## What a call adds -/

/-- The greatest turn of the log of a task. -/
def BrokerStore.maxTurn (s : BrokerStore) (taskId : String) : Int :=
  ((eventsOf taskId (s.log taskId)).filterMap AgentEvent.turnId).foldl max 0

/-- The largest turn number of a log. -/
theorem replay_maxTurnId (taskId : String) (log : List Record) :
    (replay taskId log).maxTurnId = ((eventsOf taskId log).filterMap AgentEvent.turnId).foldl max 0 := by
  induction log using List.reverseRecOn with
  | nil => rfl
  | append_singleton log r ih =>
    rw [replay_append]
    cases he : EventType.fromStr r.eventType with
    | none =>
      have hsame : eventsOf taskId (log ++ [r]) = eventsOf taskId log := by simp [eventsOf, he]
      rw [applyIgnoring_none he, hsame, ih]
    | some et =>
      have hmore : eventsOf taskId (log ++ [r]) = eventsOf taskId log ++ [eventOf taskId et r] := by simp [eventsOf, he]
      have hturn : (eventOf taskId et r).turnId = r.turnId := rfl
      rw [applyIgnoring_maxTurnId he, hmore, List.filterMap_append, List.foldl_append, ih, List.filterMap_cons, hturn]
      cases r.turnId <;> rfl

/-- The store gives the greatest turn of the log. -/
theorem getMaxTurnId_eq (ht : Tracks taskId s) {m : Int} (h : (brokerEventStore.getMaxTurnId taskId s).1 = .ok m) :
    m = s.maxTurn taskId := by
  have hread : wp (brokerEventStore.getMaxTurnId taskId)
      (fun a s' => a = (s.view taskId).maxTurnId ∧ Loaded taskId s s')
      (fun _ _ => False) s := withProjection_healthy ht.healthy TaskProjection.maxTurnId
  cases hrun : brokerEventStore.getMaxTurnId taskId s with
  | mk r s' =>
    rw [hrun] at h
    subst h
    rw [(wp_ok hread hrun).1, ht.view, replay_maxTurnId]
    rfl

/-- The event that an operation describes has the number after the greatest turn of the log. -/
theorem event_of_describesFrom {o : Op} (ht : Tracks o.taskId s)
    (h : o.DescribesFrom brokerEventStore (Seen o.taskId) s e) : e = o.event (s.maxTurn o.taskId) := by
  obtain ⟨m, rfl, hmax⟩ := h
  refine Op.event_congr fun hnum => ?_
  obtain ⟨s', hs', hm⟩ := hmax hnum
  have hlog : s'.log o.taskId = s.log o.taskId := congrFun hs'.streams o.taskId
  rw [getMaxTurnId_eq (ht.seen hs') hm]
  unfold BrokerStore.maxTurn
  rw [hlog]

/-- **A call adds the events that it records.** -/
theorem call_logs (h : LoggedAll s.streams events) (ht : ∀ taskId, Tracks taskId s) {c : Call} (hfits : c.TurnsFit) :
    ∃ added, Recorded Call.Ok maxTurn s c added ∧ LoggedAll (c.after s).streams (events ++ added) := by
  have hnone : (c.after s).streams = s.streams → LoggedAll (c.after s).streams (events ++ []) := fun hsame => by
    rwa [hsame, List.append_nil]
  cases c with
  | op o =>
    rcases op_writes o s with ⟨hrefused, s₁, hseen, hu⟩ | ⟨hok, e, seq, s₁, hd, hseen, hw⟩
    · exact ⟨[], .refused hrefused, hnone (hu.streams.trans hseen.streams)⟩
    · refine ⟨[o.event (s.maxTurn o.taskId)], .op hok, ?_⟩
      rw [← event_of_describesFrom (ht o.taskId) hd]
      refine LoggedAll.wrote ?_ hw (hd.describes.fits hfits)
      rwa [hseen.streams]
  | createTask uuid taskType provenance body priority effectivePolicy =>
    have hspec : wp ((Call.createTask uuid taskType provenance body priority effectivePolicy).run brokerEventStore)
        (fun _ s' => LoggedAll s'.streams (events ++
          [createdEvent uuid taskType provenance body priority effectivePolicy]))
        (fun _ s' => s'.streams = s.streams) s := by
      unfold Call.run
      rw [wp_discard]
      show wp (BrokerStore.createTask _ _ _ _ _ _ _ _) _ _ s
      unfold BrokerStore.createTask
      simp only
      rw [wp_bind, wp_mapErr]
      refine wp_produce (fun seq s' _ hs _ _ _ => ?_) fun msg s' _ hs _ _ => hs
      rw [wp_pure, hs]
      refine h.snoc (e := createdEvent uuid taskType provenance body priority effectivePolicy)
        (decodes_created rfl rfl ?_ ?_) <;> simp [Finmap.lookup_insert_of_ne]
    unfold Call.after
    rcases wp_cases hspec with ⟨u, s', heq, hlogged⟩ | ⟨err, s', heq, hsame⟩
    · exact ⟨_, .created (show _ = _ by rw [heq]), by rw [heq]; exact hlogged⟩
    · exact ⟨[], .refused (show ¬ _ = _ by simp [heq]), hnone (by unfold Call.after; rw [heq]; exact hsame)⟩
  | writeEventsBatch added =>
    unfold Call.after
    rcases wp_cases (batch_spec added s) with ⟨u, s', heq, -, seqs, hlen, hstreams, -⟩ | ⟨err, s', heq, -, hsame, -⟩
    · refine ⟨added, .batch (show _ = _ by rw [heq]), ?_⟩
      rw [heq, hstreams]
      exact h.appendAll hlen hfits
    · exact ⟨[], .refused (show ¬ _ = _ by simp [heq]), hnone (by unfold Call.after; rw [heq]; exact hsame)⟩

/-! ## What the reads see -/

/-- The state of a log whose records have the types of the events. -/
theorem stateOf_types (h : List.Forall₂ (fun r e => EventType.fromStr r.eventType = some e.eventType) log events) :
    stateOf log = stateFrom events := by
  unfold stateOf stateFrom
  generalize TaskState.created = state
  induction h generalizing state with
  | nil => rfl
  | cons hr _ ih => rw [List.foldl_cons, List.foldl_cons, ih, stateStep, hr]

section Answers

variable (ht : Tracks taskId s) (hreads : List.Forall₂ (Decodes taskId) (s.log taskId) events)

include ht

include hreads

variable (hnumbers : (s.log taskId).map Record.seq = List.range' 1 (s.log taskId).length)
  (hlength : (s.log taskId).length < 2 ^ 63)

include hnumbers hlength

end Answers

/-! ## Runs -/

/-- The projections stay up to date. -/
theorem run_tracks (h : ∀ taskId, Tracks taskId s) {calls : List Call} (hone : ∀ c ∈ calls, c.OneTask)
    (hnew : Meets Call.after CreatesNew s calls) (taskId : String) : Tracks taskId (run Call.after s calls) := by
  have hmeets : Meets Call.after (fun s c => CreatesNew s c ∧ c.OneTask) s calls := by
    rw [meets_iff] at hnew ⊢
    exact fun pre c post heq => ⟨hnew pre c post heq, hone c (by rw [heq]; simp)⟩
  exact run_invariant (fun s => ∀ taskId, Tracks taskId s) (fun s c hs hc => call_tracks hs hc.2 hc.1) h hmeets taskId

/-- In every run the streams read as the events that the calls record. -/
theorem run_logs (h : LoggedAll s.streams events) (ht : ∀ taskId, Tracks taskId s) {calls : List Call}
    (hfits : ∀ c ∈ calls, c.TurnsFit) (hone : ∀ c ∈ calls, c.OneTask) (hnew : Meets Call.after CreatesNew s calls) :
    ∃ added, RecordedRun Call.Ok Call.after maxTurn s calls added ∧
      LoggedAll (run Call.after s calls).streams (events ++ added) := by
  induction calls generalizing s events with
  | nil => exact ⟨[], .nil, by rwa [List.append_nil]⟩
  | cons c calls ih =>
    obtain ⟨hfit, hfits⟩ := List.forall_mem_cons.mp hfits
    obtain ⟨honeC, hone⟩ := List.forall_mem_cons.mp hone
    obtain ⟨added, hrecorded, hlogged⟩ := call_logs h ht hfit
    obtain ⟨rest, hrest, hall⟩ := ih hlogged (call_tracks ht honeC hnew.1) hfits hone hnew.2
    exact ⟨added ++ rest, .cons hrecorded hrest, by rwa [List.append_assoc] at hall⟩

/-- The store at start, with what the broker will answer to the first `produce` calls. -/
def startWith (replies : List ProduceReply) : BrokerStore := { BrokerStore.empty with produces := replies }

/-- Nothing is cached at start. -/
theorem tracks_start (replies : List ProduceReply) (taskId : String) : Tracks taskId (startWith replies) := by
  have hcap : 1 ≤ BrokerStore.empty.cache.cap := by decide
  exact tracks_of_lookup_none ⟨rfl, List.nodup_nil, by simp [startWith, BrokerStore.empty], hcap⟩ rfl

theorem toolTurn_oneTask : ∀ c ∈ toolTurn, c.OneTask := by simp [toolTurn, createTask1, Call.OneTask]

theorem toolTurn_createsNew : Meets Call.after CreatesNew (startWith []) toolTurn :=
  ⟨rfl, trivial, trivial, trivial, trivial, trivial, trivial, trivial⟩

end Fixus
