import Fixus.Lifecycle.History

/-!
# The log database as a history of events

The store on the log database keeps the events that it has accepted, in order, and answers from them.

- `AnswersFrom`: the reads of a task are answered from its events;
- `Holds`: the stream of a task holds events that were checked, under the numbers from 1 on;
- `HoldsAll.after`: a call adds the events that it records;
- `logdbd_history`: in every run, the reads of every task are answered from the events that the calls added.
-/

namespace Fixus

open Lib Lib.Eff TaskProjection LogdbdStore

/-! ## Answers -/

/-- The read gives the answer, unless the database fails. -/
def Gives {α : Type} (m : StoreM LogdbdStore α) (a : α) (s : LogdbdStore) : Prop :=
  wp m (fun answer _ => answer = a) (fun err _ => ∃ msg, err = .internal msg) s

/-- The reads of a task are answered from its events, all of which passed the checks of a write. -/
structure AnswersFrom (taskId : String) (events : List AgentEvent) (s : LogdbdStore) : Prop where
  checked : ∀ e ∈ events, e.validateScope = .ok () ∧ validatePayloadRequiredFields e.eventType e.payload = .ok ()
  event : ∀ seq, InI64 seq → Gives (getEvent taskId seq) (events.find? fun e => e.seq = seq) s
  turnEvents : ∀ k, Gives (getTurnEvents taskId k) (events.filter fun e => e.turnId = some k) s
  eventsAfterSeq : ∀ n, InI64 (n + 1) →
    Gives (getEventsAfterSeq taskId n) (events.filter fun e => n < e.seq && e.eventType ∈ keepTypes) s
  maxSeq : Gives (getMaxSeq taskId) events.length s
  taskExists : Gives (LogdbdStore.taskExists taskId) (events.any fun e => e.eventType = .taskCreated) s
  isTaskEnded : Gives (LogdbdStore.isTaskEnded taskId)
    (events.any fun e => e.eventType ∈ [.taskSucceeded, .taskFailed, .taskCanceled]) s

/-! ## What is stored -/

/-- The event passed the checks of a write. -/
def WellScoped (e : AgentEvent) : Prop :=
  e.validateScope = .ok () ∧ validatePayloadRequiredFields e.eventType e.payload = .ok ()

theorem PassesChecks.checked {log : List Record} {e : AgentEvent} (h : PassesChecks log e) : WellScoped e :=
  ⟨h.scope, h.payload⟩

/-- The number of an event is not checked. -/
theorem WellScoped.withSeq {e : AgentEvent} (h : WellScoped e) (seq : Int) : WellScoped { e with seq } := h

/-- Every stream reads as the events of its task, is numbered from 1 on, and all events were checked. -/
structure HoldsAll (streams : String → List Record) (events : List AgentEvent) : Prop where
  reads : LoggedAll streams events
  numbers : ∀ taskId, (streams taskId).map Record.seq = List.range' 1 (streams taskId).length
  checked : ∀ e ∈ events, WellScoped e

variable {taskId : String} {log : List Record} {events : List AgentEvent} {e : AgentEvent}

/-- A stored request adds its event. -/
theorem HoldsAll.appendTo {streams : String → List Record} (h : HoldsAll streams events) {q : AppendRequest}
    (htask : q.stream = e.taskId) (hdecodes : ∀ seq, Decodes e.taskId (q.record seq) { e with seq := wrapI64 seq })
    (hchecked : WellScoped e) : HoldsAll (q.appendTo streams) (events ++ [e]) where
  reads := by
    unfold AppendRequest.appendTo
    rw [htask]
    exact h.reads.snoc (hdecodes _)
  numbers taskId := by
    unfold AppendRequest.appendTo
    by_cases ht : taskId = q.stream
    · subst ht
      rw [Function.update_self, List.map_append, h.numbers, List.length_append, List.length_singleton,
        List.range'_concat, List.map_singleton]
      simp [AppendRequest.record, Nat.add_comm]
    · rw [Function.update_of_ne ht]
      exact h.numbers taskId
  checked e' he' := by
    rcases List.mem_append.mp he' with he' | he'
    · exact h.checked e' he'
    · exact List.mem_singleton.mp he' ▸ hchecked

/-- Stored events are added one after the other. -/
theorem HoldsAll.appendEvents {streams : String → List Record} (h : HoldsAll streams events) (added : List AgentEvent)
    (hfits : ∀ e ∈ added, ∀ k, e.turnId = some k → InI64 k) (hchecked : ∀ e ∈ added, WellScoped e) :
    HoldsAll ((added.map AppendRequest.ofEvent).foldl (fun streams q => q.appendTo streams) streams)
      (events ++ added) := by
  induction added generalizing streams events with
  | nil => simpa using h
  | cons e added ih =>
    obtain ⟨hfit, hfits⟩ := List.forall_mem_cons.mp hfits
    obtain ⟨hcheck, hchecked⟩ := List.forall_mem_cons.mp hchecked
    have hone : HoldsAll ((AppendRequest.ofEvent e).appendTo streams) (events ++ [e]) :=
      h.appendTo rfl (fun _ => decodes_ofEvent rfl rfl (LogdbdStore.eventMeta_turnId e)
        (LogdbdStore.eventMeta_stepId e) hfit)
        hcheck
    have hall := ih hone hfits hchecked
    rwa [List.append_assoc] at hall

/-- **A call adds the events that it records.** -/
theorem HoldsAll.after {s : LogdbdStore} (h : HoldsAll s.streams events) (maxTurnTag : List Record → Option Nat)
    {c : Call} (hfits : c.TurnsFit) :
    ∃ added, Recorded (Accepts maxTurnTag) (maxTurn maxTurnTag) s c added ∧
      HoldsAll (after maxTurnTag s c).streams (events ++ added) := by
  rcases call_cases maxTurnTag s c with ⟨hrefused, hsame⟩ | ⟨haccepted, qs, hissues, hstored⟩
  · exact ⟨[], .refused hrefused, by rwa [hsame, List.append_nil]⟩
  · rw [hstored]
    cases c with
    | op o =>
      obtain ⟨hchecked, rfl⟩ := hissues
      have hd : o.Describes (eventFor maxTurnTag s o) := ⟨_, rfl⟩
      refine ⟨[eventFor maxTurnTag s o], .op haccepted, h.appendEvents [eventFor maxTurnTag s o] ?_ ?_⟩
      · exact fun e he => List.mem_singleton.mp he ▸ hd.fits hfits
      · exact fun e he => List.mem_singleton.mp he ▸ hchecked.checked
    | createTask uuid taskType provenance body priority effectivePolicy =>
      subst hissues
      refine ⟨_, .created haccepted, ?_⟩
      refine h.appendTo rfl (fun seq => decodes_created rfl rfl ?_ ?_) ⟨rfl, rfl⟩
      · simp [AppendRequest.record, createdRequest, Finmap.lookup_insert_of_ne]
      · simp [AppendRequest.record, createdRequest, Finmap.lookup_insert_of_ne]
    | writeEventsBatch added =>
      obtain ⟨hchecked, rfl⟩ := hissues
      exact ⟨added, .batch haccepted, h.appendEvents added hfits fun e he => (hchecked e he).checked⟩

/-- In every run the tasks have the events that the calls record. -/
theorem HoldsAll.run {s : LogdbdStore} (h : HoldsAll s.streams events) (maxTurnTag : List Record → Option Nat)
    {calls : List Call} (hfits : ∀ c ∈ calls, c.TurnsFit) :
    ∃ added, RecordedRun (Accepts maxTurnTag) (LogdbdStore.after maxTurnTag) (maxTurn maxTurnTag) s calls added ∧
      HoldsAll (run (LogdbdStore.after maxTurnTag) s calls).streams (events ++ added) := by
  induction calls generalizing s events with
  | nil => exact ⟨[], .nil, by rwa [List.append_nil]⟩
  | cons c calls ih =>
    obtain ⟨hfit, hfits⟩ := List.forall_mem_cons.mp hfits
    obtain ⟨added, hrecorded, hholds⟩ := h.after maxTurnTag hfit
    obtain ⟨rest, hrest, hall⟩ := ih hholds hfits
    exact ⟨added ++ rest, .cons hrecorded hrest, by rwa [List.append_assoc] at hall⟩

/-! ## What the reads find -/

section Found

variable {s : LogdbdStore}

theorem Decodes.fromRecord {r : Record} (h : Decodes taskId r e) : eventFromRecord taskId r = .ok e := by
  unfold eventFromRecord
  rw [h.eventType]
  exact congrArg Except.ok h.event

/-- Records that decode are read one by one. -/
theorem mapM_decodes (h : List.Forall₂ (Decodes taskId) log events) :
    log.mapM (eventFromRecord taskId) = .ok events := by
  induction h with
  | nil => rfl
  | cons hr _ ih =>
    rw [List.mapM_cons, hr.fromRecord, ih]
    rfl

/-- A scan finds the whole stream, or the database fails. -/
theorem gives_scan {α : Type} (heading : String → String) {f : List Record → StoreM LogdbdStore α} {a : α}
    (hf : ∀ s' : LogdbdStore, Gives (f (s.streams taskId)) a s') :
    Gives (mapErr (fun e => .internal (heading e)) (scanAll taskId) >>= f) a s := by
  unfold Gives
  rw [wp_bind]
  unfold wp mapErr scanAll
  cases s.scans with
  | nil => exact hf _
  | cons reply rest =>
    cases reply with
    | none => exact hf _
    | some msg => exact ⟨_, rfl⟩

theorem gives_pure {α : Type} (a : α) : Gives (pure a) a s := rfl

theorem gives_query {α β : Type} {ask : List Record → β} {f : β → StoreM LogdbdStore α} {a : α}
    (hf : ∀ s' : LogdbdStore, Gives (f (ask (s.streams taskId))) a s') : Gives (runQuery taskId ask >>= f) a s := by
  unfold runQuery
  rw [bind_assoc]
  exact gives_scan _ hf

/-- A question is answered from the stream. -/
theorem gives_runQuery {α : Type} {ask : List Record → α} {a : α} (h : ask (s.streams taskId) = a) :
    Gives (runQuery taskId ask) a s := by
  unfold runQuery
  exact gives_scan _ fun _ => h ▸ gives_pure _

variable (h : List.Forall₂ (Decodes taskId) (s.streams taskId) events)
  (hnumbers : (s.streams taskId).map Record.seq = List.range' 1 (s.streams taskId).length)
  (hlength : (s.streams taskId).length < 2 ^ 63)

include h

/-- The records of some types are those of the events of these types. -/
theorem filter_types (types : List EventType) :
    List.Forall₂ (Decodes taskId) (query (s.streams taskId) types []) (events.filter fun e => e.eventType ∈ types) := by
  refine filter_decodes h fun r e _ hd => ?_
  rw [any_asStr hd.eventType]
  exact Bool.and_true _

theorem any_eq (types : List EventType) :
    (!(query (s.streams taskId) types []).isEmpty) = events.any fun e => e.eventType ∈ types := by
  have hfound := (filter_types h types).length_eq
  rw [Bool.eq_iff_iff, List.any_eq_true]
  constructor
  · intro hne
    have hpos : 0 < (events.filter fun e => e.eventType ∈ types).length := by
      rw [← hfound]
      exact List.length_pos_iff.mpr (by simpa using hne)
    obtain ⟨e, he⟩ := List.exists_mem_of_length_pos hpos
    exact ⟨e, List.mem_filter.mp he⟩
  · rintro ⟨e, he, ht⟩
    have hpos : 0 < (query (s.streams taskId) types []).length := by
      rw [hfound]
      exact List.length_pos_of_mem (List.mem_filter.mpr ⟨he, ht⟩)
    simpa using List.length_pos_iff.mp hpos

theorem gives_getTurnEvents (k : Int) :
    Gives (getTurnEvents taskId k) (events.filter fun e => e.turnId = some k) s := by
  unfold LogdbdStore.getTurnEvents
  have hrecords : List.Forall₂ (Decodes taskId)
      ((s.streams taskId).filter fun r => r.metadata.lookup "turn_id" = some (toString k))
      (events.filter fun e => e.turnId = some k) := by
    refine filter_decodes h fun r e _ hd => decide_eq_decide.mpr ?_
    rw [hd.turn, ← Option.map_some, (Option.map_injective toString_int_injective).eq_iff]
  refine gives_query fun s' => ?_
  rw [mapM_decodes hrecords]
  exact gives_pure _

include hnumbers hlength

theorem gives_getEvent {seq : Int} (hk : InI64 seq) :
    Gives (getEvent taskId seq) (events.find? fun e => e.seq = seq) s := by
  have hrecords : List.Forall₂ (Decodes taskId) ((s.streams taskId).filter fun r => (r.seq : Int) = seq % 2 ^ 64)
      (events.filter fun e => e.seq = seq) := by
    refine filter_decodes h fun r e hr hd => decide_eq_decide.mpr ?_
    obtain ⟨hseq, hpos, hlt⟩ := hd.seq_eq hnumbers hlength hr
    obtain ⟨hlo, hhi⟩ := hk
    rw [hseq]
    omega
  unfold LogdbdStore.getEvent
  refine gives_scan _ fun s' => ?_
  rw [← List.head?_filter, ← List.head?_filter]
  generalize (s.streams taskId).filter (fun r => (r.seq : Int) = seq % 2 ^ 64) = records at hrecords ⊢
  generalize events.filter (fun e => e.seq = seq) = found at hrecords ⊢
  cases hrecords with
  | nil => exact gives_pure _
  | cons hd _ =>
    rw [List.head?_cons, List.head?_cons]
    dsimp only
    rw [hd.fromRecord]
    exact gives_pure _

theorem gives_getEventsAfterSeq {n : Int} (hn : InI64 (n + 1)) :
    Gives (getEventsAfterSeq taskId n) (events.filter fun e => n < e.seq && e.eventType ∈ keepTypes) s := by
  have hrecords : List.Forall₂ (Decodes taskId) (query (since (s.streams taskId) n) keepTypes [])
      (events.filter fun e => n < e.seq && e.eventType ∈ keepTypes) := by
    unfold query since
    rw [List.filter_filter]
    refine filter_decodes h fun r e hr hd => ?_
    obtain ⟨hseq, hpos, -⟩ := hd.seq_eq hnumbers hlength hr
    have hsince : (fromSeq n ≤ r.seq) ↔ n < e.seq := by
      unfold fromSeq
      rw [wrapI64_of_inI64 hn, hseq]
      omega
    rw [any_asStr hd.eventType, List.all_nil, Bool.and_true, Bool.and_comm, decide_eq_decide.mpr hsince]
  refine gives_scan _ fun s' => ?_
  rw [mapM_decodes hrecords]
  exact gives_pure _

theorem gives_getMaxSeq : Gives (getMaxSeq taskId) (events.length : Int) s := by
  refine gives_runQuery ?_
  rw [hnumbers, ← h.length_eq]
  generalize (s.streams taskId).length = n at hlength
  cases n with
  | zero => rfl
  | succ m =>
    have hmax : (List.range' 1 (m + 1)).max? = some (m + 1) := by
      refine List.max?_eq_some_iff.mpr ⟨List.mem_range'_1.mpr ⟨by omega, by omega⟩, fun n hn => ?_⟩
      have := (List.mem_range'_1.mp hn).2
      omega
    rw [hmax, Option.map_some, Option.getD_some]
    exact wrapI64_of_inI64 ⟨by omega, by omega⟩

/-- **The reads of a task whose stream reads as the events are answered from them.** -/
theorem answersFrom (hchecked : ∀ e ∈ events, WellScoped e) : AnswersFrom taskId events s where
  checked := hchecked
  event _ := gives_getEvent h hnumbers hlength
  turnEvents := gives_getTurnEvents h
  eventsAfterSeq _ := gives_getEventsAfterSeq h hnumbers hlength
  maxSeq := gives_getMaxSeq h hnumbers hlength
  taskExists := gives_runQuery ((any_eq h _).trans (by simp))
  isTaskEnded := gives_runQuery (any_eq h _)

end Found

/-! ## Runs -/

/-- **In every run the store on the log database answers from the events that the calls have added**: each call that is
accepted adds the event it describes, the creation of its task or its whole batch, each call that fails adds nothing,
and whatever is read about a task afterwards is what its events say, in the order in which they came. -/
theorem logdbd_history (maxTurnTag : List Record → Option Nat) {s : LogdbdStore}
    (hempty : ∀ taskId, s.streams taskId = [])
    {calls : List Call} (hfits : ∀ c ∈ calls, c.TurnsFit)
    (hlength : ∀ taskId, ((run (LogdbdStore.after maxTurnTag) s calls).streams taskId).length < 2 ^ 63) :
    ∃ events,
      RecordedRun (Accepts maxTurnTag) (LogdbdStore.after maxTurnTag) (maxTurn maxTurnTag) s calls events ∧
      ∀ taskId, AnswersFrom taskId (numbered (events.filter fun e => e.taskId = taskId))
        (run (LogdbdStore.after maxTurnTag) s calls) := by
  have hnone : HoldsAll s.streams [] := ⟨loggedAll_nil hempty, fun taskId => by rw [hempty]; rfl, by simp⟩
  obtain ⟨events, hrecorded, hholds⟩ := hnone.run maxTurnTag hfits
  refine ⟨events, hrecorded, fun taskId => ?_⟩
  have hreads := (hholds.reads taskId).numbered (hholds.numbers taskId)
  refine answersFrom hreads (hholds.numbers taskId) (hlength taskId) fun e he => ?_
  obtain ⟨i, hi, rfl⟩ := List.mem_mapIdx.mp he
  have hmem := List.mem_of_mem_filter (List.getElem_mem hi)
  exact (hholds.checked _ hmem).withSeq _

/-- The largest turn tag of a log, as a number. -/
def numericMaxTag (log : List Record) : Option Nat :=
  (log.filterMap fun r => (r.metadata.lookup "turn_id").bind String.toNat?).max?

/-- The theorem at the turn that calls a tool. -/
theorem logdbd_history_toolTurn :
    ∃ events, RecordedRun (Accepts numericMaxTag) (LogdbdStore.after numericMaxTag) (maxTurn numericMaxTag)
      { streams := fun _ => [] } toolTurn events ∧
    ∀ taskId, AnswersFrom taskId (numbered (events.filter fun e => e.taskId = taskId))
      (run (LogdbdStore.after numericMaxTag) { streams := fun _ => [] } toolTurn) := by
  refine logdbd_history numericMaxTag (fun _ => rfl) toolTurn_turnsFit fun taskId => ?_
  have hnone : HoldsAll (fun _ => []) [] := ⟨loggedAll_nil fun _ => rfl, fun _ => rfl, by simp⟩
  obtain ⟨added, hrecorded, hholds⟩ := HoldsAll.run
    (s := { streams := fun _ => [] }) hnone numericMaxTag toolTurn_turnsFit
  have hlength := (hholds.reads.length_le taskId).trans hrecorded.length_le
  exact hlength.trans_lt (by decide)

end Fixus
