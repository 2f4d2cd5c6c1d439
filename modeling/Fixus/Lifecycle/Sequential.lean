import Fixus.Store.Calls

/-!
# The life of a task, one call at a time

- `Lawful`: records that follow the edges of the task's state graph, or do not concern the state;
- `Lawful.ended`, `Lawful.terminal_le_one`: after the end of a task nothing changes its state, so it ends once;
- `call_safe`: what one call on a task with an up-to-date projection does;
- `sequential_lifecycle`: every run of such calls, batches being checked as single writes are;
- `batch_revives_canceled_task`: without that check a batch brings an ended task back.
-/

namespace Fixus

open Lib Lib.Eff BrokerStore

/-! ## Lawful extensions of a log -/

/-- The record moves the task along an edge, or leaves its state alone. -/
def StepLawful (log : List Record) (r : Record) : Prop :=
  ∃ e, EventType.fromStr r.eventType = some e ∧
    ((e.targetState = none ∧ stateOf (log ++ [r]) = stateOf log) ∨
      ∃ t, e.targetState = some t ∧ Edge (stateOf log) t ∧ stateOf (log ++ [r]) = t)

/-- Each of the records is lawful after the ones before it. -/
inductive Lawful : List Record → List Record → Prop
  | nil (log : List Record) : Lawful log []
  | cons {log rs : List Record} {r : Record} : StepLawful log r → Lawful (log ++ [r]) rs → Lawful log (r :: rs)

/-- The record ends the task. -/
def endsTask (r : Record) : Bool := ((EventType.fromStr r.eventType).map EventType.isTaskTerminal).getD false

/-- The record changes the state of the task. -/
def changesState (r : Record) : Bool := ((EventType.fromStr r.eventType).bind EventType.targetState).isSome

/-- Lawful extensions compose. -/
theorem Lawful.append {log rs rs' : List Record} (h : Lawful log rs) (h' : Lawful (log ++ rs) rs') :
    Lawful log (rs ++ rs') := by
  induction h with
  | nil log => simpa using h'
  | cons hr _ ih => exact .cons hr (ih (by simpa using h'))

/-- A record that the guard admits is lawful. -/
theorem stepLawful_of_valid {log : List Record} {r : Record} {e : EventType}
    (he : EventType.fromStr r.eventType = some e)
    (h : validateTaskEventTransition (some (stateOf log)) e = .ok ()) : StepLawful log r := by
  refine ⟨e, he, ?_⟩
  have hstep : stateOf (log ++ [r]) = stateAfter (stateOf log) e := by rw [stateOf_append, stateStep, he]
  rw [hstep]
  have hlegal := validateTaskEventTransition_some.mp h
  cases ht : e.targetState with
  | none =>
    refine Or.inl ⟨rfl, ?_⟩
    cases e <;> simp_all [stateAfter, EventType.targetState]
  | some t =>
    have hl := hlegal t ht
    refine Or.inr ⟨t, rfl, edge_of_legalFrom ht hl, ?_⟩
    by_cases hts : e = .turnStarted
    · rw [hts] at ht hl ⊢
      cases Option.some.inj ht
      cases hs : stateOf log <;> simp_all [legalFrom, stateAfter]
    · cases e <;> simp_all [stateAfter, EventType.targetState]

/-- An event that the guard admits is lawful. -/
theorem stepLawful_recordOf {log : List Record} {e : AgentEvent} (seq : Nat)
    (h : validateTaskEventTransition (some (stateOf log)) e.eventType = .ok ()) :
    StepLawful log (recordOf seq e) := stepLawful_of_valid (EventType.fromStr_asStr _) h

/-- An event that ends a task takes it to a final state. -/
theorem isTerminal_of_isTaskTerminal {e : EventType} (h : e.isTaskTerminal = true) :
    ∃ t, e.targetState = some t ∧ t.isTerminal = true := by
  cases e <;> first
    | exact ⟨_, rfl, rfl⟩
    | simp [EventType.isTaskTerminal] at h

/-- **After the end of a task no record changes its state.** -/
theorem Lawful.ended {log rs : List Record} (h : Lawful log rs) (hend : (stateOf log).isTerminal = true) :
    ∀ r ∈ rs, changesState r = false := by
  induction h with
  | nil log => simp
  | @cons log rs r hr _ ih =>
    obtain ⟨e, he, ⟨hnone, hst⟩ | ⟨t, ht, hedge, -⟩⟩ := hr
    · intro r' hr'
      rcases List.mem_cons.mp hr' with rfl | hr'
      · simp [changesState, he, hnone]
      · exact ih (by rw [hst]; exact hend) r' hr'
    · rw [hedge.not_isTerminal] at hend
      cases hend

/-- A record that ends the task changes its state. -/
theorem changesState_of_endsTask {r : Record} (h : endsTask r = true) : changesState r = true := by
  unfold endsTask at h
  cases he : EventType.fromStr r.eventType with
  | none => simp [he] at h
  | some e =>
    obtain ⟨t, ht, -⟩ := isTerminal_of_isTaskTerminal (by simpa [he] using h)
    simp [changesState, he, ht]

/-- **A task ends at most once.** -/
theorem Lawful.terminal_le_one {log rs : List Record} (h : Lawful log rs) : (rs.filter endsTask).length ≤ 1 := by
  induction h with
  | nil log => simp
  | @cons log rs r hr hrs ih =>
    by_cases hend : endsTask r = true
    · -- the task has ended: nothing after this record changes its state
      obtain ⟨e, he, hcase⟩ := hr
      obtain ⟨t, ht, hterm⟩ := isTerminal_of_isTaskTerminal (by simpa [endsTask, he] using hend)
      have hst : (stateOf (log ++ [r])).isTerminal = true := by
        rcases hcase with ⟨hnone, -⟩ | ⟨t', ht', -, hst⟩
        · rw [hnone] at ht; cases ht
        · rw [ht] at ht'
          cases Option.some.inj ht'
          rw [hst]
          exact hterm
      have hrest : rs.filter endsTask = [] := by
        refine List.filter_eq_nil_iff.mpr fun r' hr' hend' => ?_
        have hno := hrs.ended hst r' hr'
        rw [changesState_of_endsTask hend'] at hno
        cases hno
      simp [hend, hrest]
    · simpa [hend] using ih

/-! ## One call -/

/-- The call is about the task, or creates another one. -/
def OnTask (taskId : String) : Call → Prop
  | .op o => o.taskId = taskId
  | .createTask uuid _ _ _ _ _ => createdId uuid ≠ taskId
  | .writeEventsBatch events => ∀ e ∈ events, e.taskId = taskId

/-- Every event of a batch passes the checks of a single write, in the state it finds. -/
def BatchChecked : TaskState → List AgentEvent → Prop
  | _, [] => True
  | st, e :: es => e.validateScope = .ok () ∧ validatePayloadRequiredFields e.eventType e.payload = .ok () ∧
      validateTaskEventTransition (some st) e.eventType = .ok () ∧ BatchChecked (stateAfter st e.eventType) es

/-- The call is about the task, and a batch would pass the checks of single writes. -/
def Checked (taskId : String) (s : BrokerStore) (c : Call) : Prop :=
  OnTask taskId c ∧ match c with
    | .writeEventsBatch events => BatchChecked (stateOf (s.log taskId)) events
    | _ => True

/-- The events that a call on the task writes. -/
def Call.Writes : Call → List AgentEvent → Prop
  | .op o, events => ∃ e, o.Describes e ∧ events = [e]
  | .createTask _ _ _ _ _ _, events => events = []
  | .writeEventsBatch batch, events => events = batch

/-- What a call does to the task: accepted events are appended, each as its own record, along the edges; an error
changes neither the log nor the projection; the projection stays the replay of the log. -/
structure CallSafe (taskId : String) (s : BrokerStore) (c : Call) (s' : BrokerStore) : Prop where
  accepted : c.Ok s → ∃ written, c.Writes (written.map Prod.fst) ∧
    s'.log taskId = s.log taskId ++ batchRecords written ∧ Lawful (s.log taskId) (batchRecords written)
  rejected : ∀ err, (c.run brokerEventStore s).1 = .error err →
    s'.log taskId = s.log taskId ∧ s'.cache.map.lookup taskId = s.cache.map.lookup taskId
  warm : Warm taskId s'

/-- The records of a checked batch are lawful. -/
theorem lawful_batchRecords {written : List (AgentEvent × Nat)} :
    ∀ {log : List Record}, BatchChecked (stateOf log) (written.map Prod.fst) → Lawful log (batchRecords written) := by
  induction written with
  | nil => exact fun _ => .nil _
  | cons w ws ih =>
    intro log h
    obtain ⟨-, -, htr, hrest⟩ := h
    refine .cons (stepLawful_recordOf w.2 htr) (ih ?_)
    rw [stateOf_recordOf]
    exact hrest

/-- An operation on the task is safe. -/
theorem op_safe {taskId : String} {s : BrokerStore} (hw : Warm taskId s) {op : Op} (hop : op.taskId = taskId) :
    CallSafe taskId s (.op op) ((Call.op op).after s) := by
  subst hop
  rcases op_spec op s with ⟨⟨err, herr⟩, hk⟩ | ⟨hok, e, seq, s₁, hd, hsame, hacc, -, hwrote⟩
  · refine ⟨fun hok => ?_, fun _ _ => ⟨?_, ?_⟩, hw.kept hk⟩
    · unfold Call.Ok Call.run at hok
      rw [herr] at hok
      cases hok
    · exact congrFun hk.streams _
    · exact (hk.cached _ hw).trans hw.symm
  · have hw₁ : Warm op.taskId s₁ := hw.kept (Kept.of_sameTask hsame)
    have hlog : s₁.log op.taskId = s.log op.taskId := congrFun hsame.streams _
    have htr := hacc.transition
    rw [hd.taskId] at htr
    rw [hw₁] at htr
    simp only [Option.map_some, TaskProjection.replay_state, hlog] at htr
    refine ⟨fun _ => ⟨[(e, seq)], ⟨e, hd, rfl⟩, ?_, .cons (stepLawful_recordOf seq htr) (.nil _)⟩,
      fun err herr => ?_, ?_⟩
    · have hl := wrote_log hwrote
      rw [hd.taskId] at hl
      exact hl.trans (by rw [hlog]; rfl)
    · unfold Call.run at herr
      rw [hok] at herr
      cases herr
    · have hwarm := Warm.wrote (hd.taskId ▸ hw₁) hwrote
      rw [hd.taskId] at hwarm
      exact hwarm

/-- Creating another task is safe. -/
theorem createTask_safe {taskId : String} {s : BrokerStore} (hw : Warm taskId s) {uuid taskType : String}
    {provenance : Provenance} {body : Option Json} {priority : Int} {effectivePolicy : Option EffectivePolicy}
    (hne : createdId uuid ≠ taskId) :
    CallSafe taskId s (.createTask uuid taskType provenance body priority effectivePolicy)
      ((Call.createTask uuid taskType provenance body priority effectivePolicy).after s) := by
  have hspec := createTask_spec uuid taskType provenance body priority effectivePolicy s
  have hframe : ∀ s' : BrokerStore, s'.cache = s.cache → s'.log taskId = s.log taskId →
      Warm taskId s' ∧ s'.cache.map.lookup taskId = s.cache.map.lookup taskId := by
    intro s' hc hl
    refine ⟨?_, by rw [hc]⟩
    unfold Warm
    rw [hc, hl]
    exact hw
  cases hres : (Call.createTask uuid taskType provenance body priority effectivePolicy).run brokerEventStore s with
  | mk r s' =>
    have hafter : (Call.createTask uuid taskType provenance body priority effectivePolicy).after s = s' := by
      unfold Call.after
      rw [hres]
    rw [hafter]
    cases r with
    | ok u =>
      obtain ⟨hc, -, rec, -, hs⟩ := wp_ok hspec hres
      have hl : s'.log taskId = s.log taskId := by
        unfold BrokerStore.log
        rw [hs, Function.update_of_ne hne.symm]
      obtain ⟨hw', hcached⟩ := hframe s' hc hl
      exact ⟨fun _ => ⟨[], rfl, by simpa [batchRecords] using hl, .nil _⟩, fun _ _ => ⟨hl, hcached⟩, hw'⟩
    | error err =>
      obtain ⟨hc, -, hs⟩ := wp_error hspec hres
      obtain ⟨hw', hcached⟩ := hframe s' hc (congrFun hs taskId)
      refine ⟨fun hok => ?_, fun _ _ => ⟨congrFun hs taskId, hcached⟩, hw'⟩
      unfold Call.Ok at hok
      rw [hres] at hok
      cases hok

/-- A batch on the task is safe when its events would pass the checks of single writes. -/
theorem batch_safe {taskId : String} {s : BrokerStore} (hw : Warm taskId s) {events : List AgentEvent}
    (hon : ∀ e ∈ events, e.taskId = taskId) (hb : BatchChecked (stateOf (s.log taskId)) events) :
    CallSafe taskId s (.writeEventsBatch events) ((Call.writeEventsBatch events).after s) := by
  have hspec := batch_spec events s
  cases hres : (Call.writeEventsBatch events).run brokerEventStore s with
  | mk r s' =>
    have hafter : (Call.writeEventsBatch events).after s = s' := by
      unfold Call.after
      rw [hres]
    rw [hafter]
    cases r with
    | error err =>
      obtain ⟨-, hs, hm⟩ := wp_error hspec hres
      have hl : s'.log taskId = s.log taskId := congrFun hs taskId
      refine ⟨fun hok => ?_, fun _ _ => ⟨hl, by rw [hm]⟩, ?_⟩
      · unfold Call.Ok at hok
        rw [hres] at hok
        cases hok
      · unfold Warm
        rw [hm, hl]
        exact hw
    | ok u =>
      obtain ⟨-, seqs, hlen, hs, hm⟩ := wp_ok hspec hres
      have hfst : (events.zip seqs).map Prod.fst = events := List.map_fst_zip (by omega)
      have hmem : ∀ w ∈ events.zip seqs, w.1.taskId = taskId := fun w hw => hon w.1 (List.of_mem_zip hw).1
      have hl : s'.log taskId = s.log taskId ++ batchRecords (events.zip seqs) := by
        unfold BrokerStore.log
        rw [hs, appendAll_self hmem]
      refine ⟨fun _ => ⟨_, hfst, hl, lawful_batchRecords (by rw [hfst]; exact hb)⟩, fun err herr => ?_, ?_⟩
      · rw [hres] at herr
        cases herr
      · unfold Warm at hw ⊢
        rw [hl, TaskProjection.replay, List.foldl_append, hm]
        cases events with
        | nil => exact hw
        | cons first rest =>
          have hf : first.taskId = taskId := hon first List.mem_cons_self
          subst hf
          simp only [hw]
          exact Finmap.lookup_insert _

/-- **A call on a task with an up-to-date projection is safe.** -/
theorem call_safe {taskId : String} {s : BrokerStore} (hw : Warm taskId s) {c : Call} (hc : Checked taskId s c) :
    CallSafe taskId s c (c.after s) := by
  cases c with
  | op o => exact op_safe hw hc.1
  | createTask uuid taskType provenance body priority effectivePolicy => exact createTask_safe hw hc.1
  | writeEventsBatch events => exact batch_safe hw hc.1 hc.2

/-! ## Runs -/

/-- A safe call extends the log lawfully, whatever its outcome. -/
theorem CallSafe.extends {taskId : String} {s : BrokerStore} {c : Call} (h : CallSafe taskId s c (c.after s)) :
    ∃ rs, (c.after s).log taskId = s.log taskId ++ rs ∧ Lawful (s.log taskId) rs := by
  cases hr : (c.run brokerEventStore s).1 with
  | ok u =>
    obtain ⟨written, -, hl, hlaw⟩ := h.accepted hr
    exact ⟨batchRecords written, hl, hlaw⟩
  | error err => exact ⟨[], by simpa using (h.rejected err hr).1, .nil _⟩

/-- A run extends the log lawfully. -/
theorem run_extends {taskId : String} {calls : List Call} {s : BrokerStore} (hw : Warm taskId s)
    (hm : Meets (fun s c => Call.after s c) (Checked taskId) s calls) :
    ∃ rs, (run (fun s c => Call.after s c) s calls).log taskId = s.log taskId ++ rs ∧ Lawful (s.log taskId) rs := by
  refine run_relation (Warm taskId) (fun s s' => ∃ rs, s'.log taskId = s.log taskId ++ rs ∧ Lawful (s.log taskId) rs)
    (fun s => ⟨[], by simp, .nil _⟩) ?_ (fun s c h hc => (call_safe h hc).warm)
    (fun s c h hc => (call_safe h hc).extends) hw hm
  rintro s t u ⟨rs, hl, hlaw⟩ ⟨rs', hl', hlaw'⟩
  refine ⟨rs ++ rs', ?_, hlaw.append (hl ▸ hlaw')⟩
  rw [hl', hl, List.append_assoc]

/-- **The life of a task under calls made one at a time.** From an up-to-date projection, in every run whose batches
would pass the checks of single writes: every call is safe, the log grows along the edges of the state graph, and the
task ends at most once and stays ended. -/
theorem sequential_lifecycle {taskId : String} {s : BrokerStore} {calls : List Call} (hw : Warm taskId s)
    (hm : Meets (fun s c => Call.after s c) (Checked taskId) s calls) :
    Along (fun s c => Call.after s c) (CallSafe taskId) s calls ∧
    ∃ rs, (run (fun s c => Call.after s c) s calls).log taskId = s.log taskId ++ rs ∧ Lawful (s.log taskId) rs ∧
      (rs.filter endsTask).length ≤ 1 ∧
      ((stateOf (s.log taskId)).isTerminal = true → ∀ r ∈ rs, changesState r = false) ∧
      ((s.log taskId).filter endsTask = [] →
        ((run (fun s c => Call.after s c) s calls).log taskId |>.filter endsTask).length ≤ 1) := by
  refine ⟨along_of_invariant (Warm taskId) (fun s c h hc => (call_safe h hc).warm)
    (fun s c h hc => call_safe h hc) hw hm, ?_⟩
  obtain ⟨rs, hl, hlaw⟩ := run_extends hw hm
  refine ⟨rs, hl, hlaw, hlaw.terminal_le_one, hlaw.ended, fun hnone => ?_⟩
  rw [hl, List.filter_append, hnone, List.nil_append]
  exact hlaw.terminal_le_one

/-- A store that has loaded the projection of one log. -/
def warmStore (taskId : String) (log : List Record) : BrokerStore :=
  { streams := Function.update (fun _ => []) taskId log
    cache := { map := (∅ : Finmap fun _ : String => TaskProjection).insert taskId (TaskProjection.replay taskId log)
               order := [taskId] } }

theorem warm_warmStore (taskId : String) (log : List Record) : Warm taskId (warmStore taskId log) := by
  have hlog : (warmStore taskId log).log taskId = log := by
    simp [warmStore, BrokerStore.log]
  unfold Warm
  rw [hlog]
  exact Finmap.lookup_insert _

/-- A task that is made ready and then claimed by a batch, while another one is created. -/
def readyAndClaim : List Call :=
  [.op (.markTaskReady "task_1"), .createTask "2" "chat" {} none 0 none,
    .writeEventsBatch [AgentEvent.new "task_1" none none .taskClaimed (.obj [("claimant", .str "w")])]]

/-- The theorem at `readyAndClaim`. -/
theorem sequential_lifecycle_readyAndClaim :
    Along (fun s c => Call.after s c) (CallSafe "task_1") (warmStore "task_1" [⟨1, "task_created", .obj [], ∅⟩])
      readyAndClaim := by
  have hm : Meets (fun s c => Call.after s c) (Checked "task_1")
      (warmStore "task_1" [⟨1, "task_created", .obj [], ∅⟩]) readyAndClaim := by
    refine ⟨⟨rfl, trivial⟩, ⟨?_, trivial⟩, ⟨?_, ?_⟩, trivial⟩
    · unfold OnTask
      decide
    · intro e he
      rw [List.mem_singleton.mp he]
      rfl
    · exact ⟨rfl, rfl, by decide +kernel, trivial⟩
  exact (sequential_lifecycle (warm_warmStore _ _) hm).1

/-! ## Unchecked batches -/

/-- The records of a created and then canceled task. -/
def canceledLog : List Record :=
  [⟨1, "task_created", .obj [], ∅⟩, ⟨2, "task_canceled", .obj [], ∅⟩]

/-- A batch brings a canceled task back to `ready`. -/
theorem batch_revives_canceled_task :
    let s := warmStore "task_1" canceledLog
    let c := Call.writeEventsBatch [AgentEvent.new "task_1" none none .taskReady (.obj [])]
    Warm "task_1" s ∧ OnTask "task_1" c ∧ (stateOf (s.log "task_1")).isTerminal = true ∧ c.Ok s ∧
      stateOf ((c.after s).log "task_1") = .ready ∧ ¬ CallSafe "task_1" s c (c.after s) := by
  intro s c
  have hok : c.Ok s := by unfold Call.Ok; decide +kernel
  have hst : stateOf (s.log "task_1") = .canceled := by decide +kernel
  refine ⟨warm_warmStore _ _, ?_, ?_, hok, by decide +kernel, fun hsafe => ?_⟩
  · intro e he
    rw [List.mem_singleton.mp he]
    rfl
  · rw [hst]; rfl
  · obtain ⟨written, -, hl, hlaw⟩ := hsafe.accepted hok
    generalize batchRecords written = rs at hl hlaw
    have hlen : ((c.after s).log "task_1").map Record.eventType =
        ["task_created", "task_canceled", "task_ready"] := by decide +kernel
    have hrs : rs.map Record.eventType = ["task_ready"] := by
      rw [hl, List.map_append] at hlen
      have hcut : ["task_created", "task_canceled"] ++ rs.map Record.eventType =
          ["task_created", "task_canceled"] ++ ["task_ready"] := hlen
      exact List.append_cancel_left hcut
    cases hlaw with
    | nil => cases hrs
    | cons hr _ =>
      obtain ⟨e, he, hcase⟩ := hr
      obtain ⟨htype, -⟩ := List.cons.inj hrs
      rw [htype] at he
      cases Option.some.inj ((EventType.fromStr_asStr .taskReady).symm.trans he)
      rcases hcase with ⟨hnone, -⟩ | ⟨t, -, hedge, -⟩
      · cases hnone
      · have hnot := hedge.not_isTerminal
        rw [hst] at hnot
        cases hnot

end Fixus
