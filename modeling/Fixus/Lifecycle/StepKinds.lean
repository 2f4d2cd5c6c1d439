import Fixus.Lib.Run
import Fixus.Orchestrator.RedoQueue

/-!
# Which events close a step

A step is an LLM call or a tool call, and has an end of its own kind. The store accepts every terminal event, and the
projection closes the step that it names.

- `storeStep`: writes, loads and evictions, one after another;
- `unfinished_iff_last`: an unfinished step, read off the events of the step;
- `steps_closed_by_kind_iff`: along a run every step is closed by its own kind exactly if the logs pair them so;
- `recovery_closes_llm_call`: the recovery closes a call of the LLM as a tool.
-/

namespace Fixus

open Lib Lib.Eff BrokerStore TaskProjection

/-- The terminal event fits the start event. -/
def EventType.matchesStartType (start terminal : EventType) : Bool := start.endedBy terminal

/-! ## Runs of the store -/

/-- What happens to the store: a write, a read of a task, or the loss of a cached projection. -/
inductive StoreInput where
  | write (e : AgentEvent)
  | load (taskId : String)
  | invalidate (taskId : String)

def storeStep (s : BrokerStore) : StoreInput → BrokerStore
  | .write e => (writeEvent e s).2
  | .load taskId => (ensureProjection taskId s).2
  | .invalidate taskId => (invalidateProjection taskId s).2

/-- Every step that is recorded as completed has an end of the kind of its start. -/
def CompletedByKind (p : TaskProjection) : Prop :=
  ∀ sid c, p.completedSteps.lookup sid = some c →
    ∃ t, EventType.fromStr c.terminalType = some t ∧ c.startEvent.eventType.matchesStartType t = true

/-- A terminal event leaves an active step of the task active, unless it is the end of this step and of its kind. -/
def LeavesOthers (taskId : String) (e : AgentEvent) (p p' : TaskProjection) : Prop :=
  e.eventType.isStepTerminal = true → ∀ sid start, p.activeSteps.lookup sid = some start →
    ¬ (e.taskId = taskId ∧ e.stepId = some sid ∧ start.2.eventType.matchesStartType e.eventType = true) →
      p'.activeSteps.lookup sid = some start

/-- Along the run, the projections of all tasks close steps by their own kind. -/
def StepsClosedByKind (s : BrokerStore) (is : List StoreInput) : Prop :=
  Along storeStep (fun s i s' => ∀ taskId, CompletedByKind (s'.view taskId) ∧
    ∀ e, i = .write e → LeavesOthers taskId e (s.view taskId) (s'.view taskId)) s is

/-- The start and terminal events of a step. -/
def stepEvents (events : List AgentEvent) (sid : String) : List AgentEvent :=
  events.filter fun e => e.stepId = some sid && (e.eventType.isStepStart || e.eventType.isStepTerminal)

/-- In the events of every step, a terminal event that comes directly after a start fits it. -/
def Paired (events : List AgentEvent) : Prop :=
  ∀ sid, (stepEvents events sid).IsChain fun e e' => e.eventType.isStepStart = true →
    e'.eventType.isStepTerminal = true → e.eventType.matchesStartType e'.eventType = true

/-- The store before the first event. -/
def untouchedStore (produces : List ProduceReply) : BrokerStore := { streams := fun _ => [], produces }

/-! ## Pairs -/

variable {taskId : String} {events : List AgentEvent} {e e' : AgentEvent}

/-- **A step is unfinished exactly if the last of its events is a start.** -/
theorem unfinished_iff_last {sid : String} : Unfinished events sid e ↔
    (stepEvents events sid).getLast? = some e ∧ e.eventType.isStepStart = true := by
  induction events using List.reverseRecOn generalizing e with
  | nil =>
    constructor
    · rintro ⟨post, ⟨⟨pre, h⟩, -⟩, -⟩
      simp at h
    · rintro ⟨h, -⟩
      cases h
  | append_singleton events ae ih =>
    have hdisjoint : ae.eventType.isStepStart = true → ae.eventType.isStepTerminal = false := by
      cases ae.eventType <;> decide
    rw [unfinished_snoc, stepEvents, List.filter_append]
    by_cases hs : ae.stepId = some sid
    · cases hstart : ae.eventType.isStepStart with
      | true =>
        simp only [hs, hstart, List.filter_cons, List.filter_nil, decide_true, Bool.true_or, Bool.and_self, if_true,
          true_and, List.getLast?_append, List.getLast?_singleton, Option.some_or, Option.some.injEq]
        constructor
        · rintro rfl
          exact ⟨rfl, hstart⟩
        · rintro ⟨rfl, -⟩
          rfl
      | false =>
        cases hend : ae.eventType.isStepTerminal with
        | true =>
          simp only [hs, hstart, hend, List.filter_cons, List.filter_nil, decide_true, Bool.or_true, Bool.and_self,
            if_true, Bool.false_eq_true, and_false, if_false, and_self, List.getLast?_append, List.getLast?_singleton,
            Option.some_or, Option.some.injEq, false_iff, not_and]
          rintro rfl h
          rw [hstart] at h
          cases h
        | false =>
          rw [ih]
          simp [hs, hstart, hend, stepEvents]
    · rw [ih]
      simp [hs, stepEvents]

/-- One more event keeps the pairs if it fits the start of an unfinished step that it ends. -/
theorem paired_append : Paired (events ++ [e']) ↔ Paired events ∧ ∀ sid e, e'.stepId = some sid →
    e'.eventType.isStepTerminal = true → Unfinished events sid e →
      e.eventType.matchesStartType e'.eventType = true := by
  have hsteps : ∀ sid, stepEvents (events ++ [e']) sid = stepEvents events sid ++
      if e'.stepId = some sid ∧ (e'.eventType.isStepStart || e'.eventType.isStepTerminal) = true then [e'] else [] := by
    intro sid
    simp only [stepEvents, List.filter_append, List.filter_cons, List.filter_nil, Bool.and_eq_true, decide_eq_true_eq]
  unfold Paired
  simp only [hsteps, List.isChain_append, unfinished_iff_last]
  constructor
  · intro h
    refine ⟨fun sid => (h sid).1, fun sid e hs hend hlast => ?_⟩
    refine (h sid).2.2 e hlast.1 e' ?_ hlast.2 hend
    simp [hs, hend]
  · rintro ⟨hpaired, hfits⟩ sid
    refine ⟨hpaired sid, by split <;> simp, fun e hlast x hx hstart hend => ?_⟩
    split at hx
    · next hs =>
      obtain rfl : e' = x := by simpa using hx
      exact hfits sid e hs.1 hend ⟨hlast, hstart⟩
    · cases hx

/-- Earlier events are paired too. -/
theorem Paired.earlier {log later : List Record} (h : Paired (eventsOf taskId (log ++ later))) :
    Paired (eventsOf taskId log) := by
  intro sid
  have hs := h sid
  rw [eventsOf, List.filterMap_append, stepEvents, List.filter_append] at hs
  exact hs.left_of_append

/-! ## One record -/

/-- Only terminal events complete steps. -/
theorem applyHead_completed (p : TaskProjection) (ae : AgentEvent) : (p.applyHead ae).completedSteps =
    if ae.eventType.isStepTerminal = true then (p.closeStep ae).completedSteps else p.completedSteps := by
  have husage : ∀ (q : TaskProjection) (v : Json), (q.addUsage v).completedSteps = q.completedSteps := by
    intro q v
    unfold addUsage
    cases v.get "usage" <;> rfl
  unfold applyHead
  cases ae.eventType <;> first
    | rfl
    | (cases ae.stepId <;> rfl)
    | exact husage _ _

/-- A step that is completed after an event was completed before, or is active and the event ends it. -/
theorem applyHead_completedSteps {p : TaskProjection} {ae : AgentEvent} {sid : String} {c : CompletedStep}
    (h : (p.applyHead ae).completedSteps.lookup sid = some c) : p.completedSteps.lookup sid = some c ∨
      ∃ start, p.activeSteps.lookup sid = some start ∧ ae.stepId = some sid ∧ ae.eventType.isStepTerminal = true ∧
        c = ⟨start.1, start.2, ae.eventType.asStr, ae.seq⟩ := by
  have hclose : (p.closeStep ae).completedSteps.lookup sid = some c → p.completedSteps.lookup sid = some c ∨
      ∃ start, p.activeSteps.lookup sid = some start ∧ ae.stepId = some sid ∧
        c = ⟨start.1, start.2, ae.eventType.asStr, ae.seq⟩ := by
    intro hc
    unfold closeStep at hc
    cases hs : ae.stepId with
    | none =>
      rw [hs] at hc
      exact .inl hc
    | some sid' =>
      rw [hs] at hc
      dsimp only at hc
      cases ha : p.activeSteps.lookup sid' with
      | none =>
        rw [ha] at hc
        exact .inl hc
      | some start =>
        rw [ha] at hc
        by_cases hne : sid = sid'
        · subst hne
          rw [Finmap.lookup_insert] at hc
          exact .inr ⟨start, ha, rfl, (Option.some.inj hc).symm⟩
        · rw [Finmap.lookup_insert_of_ne _ hne] at hc
          exact .inl hc
  rw [applyHead_completed] at h
  split at h
  · next hend =>
    obtain h | ⟨start, ha, hs, hc⟩ := hclose h
    · exact .inl h
    · exact .inr ⟨start, ha, hs, hend, hc⟩
  · exact .inl h

@[simp] theorem index_completedSteps (p : TaskProjection) (ae : AgentEvent) :
    (p.index ae).completedSteps = p.completedSteps := by
  unfold index
  cases ae.turnId <;> rfl

section OneRecord

variable {log : List Record} {seq : Nat}

theorem eventsOf_recordOf : eventsOf taskId (log ++ [recordOf seq e]) =
    eventsOf taskId log ++ [eventOf taskId e.eventType (recordOf seq e)] := by
  have htype : EventType.fromStr (recordOf seq e).eventType = some e.eventType := EventType.fromStr_asStr _
  simp [eventsOf, htype]

/-- **The record of an event keeps the kinds apart exactly if it keeps the pairs.** -/
theorem record_closes_iff (he : e.taskId = taskId) (hc : CompletedByKind (replay taskId log))
    (hp : Paired (eventsOf taskId log)) :
    (CompletedByKind (replay taskId (log ++ [recordOf seq e])) ∧
      LeavesOthers taskId e (replay taskId log) (replay taskId (log ++ [recordOf seq e]))) ↔
    Paired (eventsOf taskId (log ++ [recordOf seq e])) := by
  have htype : EventType.fromStr (recordOf seq e).eventType = some e.eventType := EventType.fromStr_asStr _
  have hstep : (eventOf taskId e.eventType (recordOf seq e)).stepId = e.stepId := eventMeta_stepId e
  rw [eventsOf_recordOf, paired_append, replay_append, applyIgnoring_some htype, replay_taskId]
  constructor
  · rintro ⟨-, hleaves⟩
    refine ⟨hp, fun sid start hs hend hopen => ?_⟩
    rw [hstep] at hs
    by_contra hkind
    -- the step would still be active, but every terminal event closes it
    have hactive : (replay taskId log).activeSteps.lookup sid = some (start.seq, start) :=
      activeSteps_iff.mpr ⟨rfl, hopen⟩
    have hstill := hleaves hend sid _ hactive fun h => hkind h.2.2
    have hstart : e.eventType.isStepStart = false := by
      cases htype : e.eventType <;> rw [eventOf, htype] at hend <;> first | rfl | cases hend
    have hend' : e.eventType.isStepTerminal = true := hend
    rw [applyHead_activeSteps, hstep] at hstill
    simp [eventOf, hs, hstart, hend'] at hstill
  · rintro ⟨-, hfits⟩
    constructor
    · intro sid c hlookup
      obtain hold | ⟨start, ha, hs, hend, rfl⟩ := applyHead_completedSteps hlookup
      · refine hc sid c ?_
        rwa [index_completedSteps] at hold
      · rw [index_activeSteps] at ha
        exact ⟨e.eventType, EventType.fromStr_asStr _, hfits sid start.2 hs hend (activeSteps_iff.mp ha).2⟩
    · intro hend sid start ha hnot
      have hstart : e.eventType.isStepStart = false := by
        cases htype : e.eventType <;> rw [htype] at hend <;> first | rfl | cases hend
      have hne : e.stepId ≠ some sid := fun hs => hnot ⟨he, hs, hfits sid start.2 (hstep.trans hs) hend
        (activeSteps_iff.mp ha).2⟩
      rw [applyHead_activeSteps, hstep, index_activeSteps]
      simp [hne, ha]

end OneRecord

/-! ## One input -/

/-- What one input does: at most one record is new, that of a write. -/
theorem storeStep_cases {s : BrokerStore} (h : ∀ taskId, Tracks taskId s) (i : StoreInput) :
    (∀ taskId, Tracks taskId (storeStep s i)) ∧
      ((storeStep s i).streams = s.streams ∨ ∃ e seq, i = .write e ∧
        (storeStep s i).streams = Function.update s.streams e.taskId (s.streams e.taskId ++ [recordOf seq e])) := by
  cases i with
  | write e =>
    refine wp_state (P := fun s' => (∀ taskId, Tracks taskId s') ∧ (s'.streams = s.streams ∨ ∃ e' seq,
      StoreInput.write e = .write e' ∧
        s'.streams = Function.update s.streams e'.taskId (s.streams e'.taskId ++ [recordOf seq e'])))
      (wp_mono (writeEvent_spec e s) (fun _ s' hw => ?_) fun _ s' hu => ?_)
    · obtain ⟨-, seq, -, -, hwrote⟩ := hw
      exact ⟨fun k => (h k).wrote hwrote, .inr ⟨e, seq, rfl, hwrote.streams⟩⟩
    · exact ⟨fun k => (h k).untouched hu.1, .inl hu.1.streams⟩
  | load taskId =>
    obtain ⟨u, s', heq, hl⟩ := wp_total (ensureProjection_healthy (s := s) (h taskId).healthy)
    have hstep : storeStep s (.load taskId) = s' := congrArg Prod.snd heq
    rw [hstep]
    exact ⟨fun k => (h k).loaded hl, .inl hl.streams⟩
  | invalidate taskId => exact ⟨fun k => (h k).invalidated taskId, .inl rfl⟩

/-! ## Runs -/

/-- What is known of the store before an input. -/
structure KindsApart (s : BrokerStore) : Prop where
  tracks : ∀ taskId, Tracks taskId s
  completed : ∀ taskId, CompletedByKind (s.view taskId)
  paired : ∀ taskId, Paired (eventsOf taskId (s.log taskId))

/-- **An input keeps the kinds apart exactly if the logs are paired after it.** -/
theorem storeStep_closes_iff {s : BrokerStore} (h : KindsApart s) (i : StoreInput) :
    (∀ taskId, CompletedByKind ((storeStep s i).view taskId) ∧
      ∀ e, i = .write e → LeavesOthers taskId e (s.view taskId) ((storeStep s i).view taskId)) ↔
    ∀ taskId, Paired (eventsOf taskId ((storeStep s i).log taskId)) := by
  obtain ⟨htracks, hcase⟩ := storeStep_cases h.tracks i
  refine forall_congr' fun taskId => ?_
  have hc := h.completed taskId
  rw [(h.tracks taskId).view] at hc
  rw [(htracks taskId).view, (h.tracks taskId).view]
  -- a task without a new record
  have hsame : (storeStep s i).log taskId = s.log taskId →
      ((CompletedByKind (replay taskId ((storeStep s i).log taskId)) ∧ ∀ e, i = .write e →
        LeavesOthers taskId e (replay taskId (s.log taskId)) (replay taskId ((storeStep s i).log taskId))) ↔
      Paired (eventsOf taskId ((storeStep s i).log taskId))) := by
    intro hlog
    rw [hlog]
    exact ⟨fun _ => h.paired taskId, fun _ => ⟨hc, fun _ _ _ _ _ ha _ => ha⟩⟩
  rcases hcase with hstreams | ⟨e, seq, rfl, hstreams⟩
  · exact hsame (congrFun hstreams taskId)
  · by_cases hk : taskId = e.taskId
    · subst hk
      have hlog : (storeStep s (.write e)).log e.taskId = s.log e.taskId ++ [recordOf seq e] := by
        unfold BrokerStore.log
        rw [hstreams, Function.update_self]
      rw [hlog, ← record_closes_iff rfl hc (h.paired e.taskId)]
      simp
    · refine hsame ?_
      unfold BrokerStore.log
      rw [hstreams, Function.update_of_ne hk]

/-- The logs grow. -/
theorem storeStep_log {s : BrokerStore} (h : ∀ taskId, Tracks taskId s) (i : StoreInput) (taskId : String) :
    s.log taskId <+: (storeStep s i).log taskId := by
  unfold BrokerStore.log
  obtain ⟨-, hstreams | ⟨e, seq, -, hstreams⟩⟩ := storeStep_cases h i
  · rw [hstreams]
  · rw [hstreams]
    by_cases hk : taskId = e.taskId
    · subst hk
      simp
    · rw [Function.update_of_ne hk]

theorem run_log {s : BrokerStore} (h : ∀ taskId, Tracks taskId s) (is : List StoreInput) (taskId : String) :
    s.log taskId <+: (run storeStep s is).log taskId :=
  run_relation (fun s => ∀ taskId, Tracks taskId s) (fun s s' => s.log taskId <+: s'.log taskId)
    (fun _ => List.prefix_rfl) (fun _ _ _ => List.IsPrefix.trans)
    (fun _ i hs _ => (storeStep_cases hs i).1)
    (fun _ i hs _ => storeStep_log hs i taskId)
    h meets_true

/-- **Along a run every step is closed by its own kind exactly if the logs at its end are paired.** -/
theorem closed_iff_paired {s : BrokerStore} (h : KindsApart s) (is : List StoreInput) :
    StepsClosedByKind s is ↔ ∀ taskId, Paired (eventsOf taskId ((run storeStep s is).log taskId)) := by
  induction is generalizing s with
  | nil => exact ⟨fun _ => h.paired, fun _ => trivial⟩
  | cons i is ih =>
    have hiff := storeStep_closes_iff h i
    have htracks := (storeStep_cases h.tracks i).1
    constructor
    · rintro ⟨hnow, hlater⟩
      exact (ih ⟨htracks, fun k => (hnow k).1, hiff.mp hnow⟩).mp hlater
    · intro hp
      have hpaired : ∀ taskId, Paired (eventsOf taskId ((storeStep s i).log taskId)) := by
        intro k
        obtain ⟨later, hlog⟩ := run_log htracks is k
        have hk := hp k
        rw [run_cons, ← hlog] at hk
        exact hk.earlier
      have hnow := hiff.mpr hpaired
      exact ⟨hnow, (ih ⟨htracks, fun k => (hnow k).1, hpaired⟩).mpr hp⟩

theorem kindsApart_untouched (produces : List ProduceReply) : KindsApart (untouchedStore produces) where
  tracks _ := ⟨⟨rfl, List.nodup_nil, nofun, (show 1 ≤ 1000 by decide)⟩, rfl⟩
  completed _ sid c h := by
    have hnone : (TaskProjection.new _).completedSteps.lookup sid = some c := h
    rw [TaskProjection.new, Finmap.lookup_empty] at hnone
    cases hnone
  paired _ sid := List.isChain_nil

/-- **In every run of an empty store the projections close steps by their own kind exactly if, in the log of every task,
a terminal event that comes directly after a start of its step fits it.** -/
theorem steps_closed_by_kind_iff (produces : List ProduceReply) (is : List StoreInput) :
    StepsClosedByKind (untouchedStore produces) is ↔
      ∀ taskId, Paired (eventsOf taskId ((run storeStep (untouchedStore produces) is).log taskId)) :=
  closed_iff_paired (kindsApart_untouched produces) is

/-- A task with a call of the LLM under way. -/
def callUnderWay : List StoreInput :=
  [.write (AgentEvent.new "task_1" none none .taskCreated (createdPayload "chat" {} none 0 none)), .load "task_1",
    .write (AgentEvent.new "task_1" none none .taskReady (.obj [])),
    .write (AgentEvent.new "task_1" (some 1) none .turnStarted
      (.obj [("turn_id", .int 1), ("redo_group", .str "g"), ("redo_count", .int 0), ("user_input", .str "hello")])),
    .write (AgentEvent.new "task_1" (some 1) (some "a") .llmInvoked
      (.obj [("model", .str "m"), ("messages", .arr []), ("local_seq", .int 1)]))]

/-- The call ends as a tool. -/
def endedAsTool : List StoreInput :=
  callUnderWay ++ [.write (AgentEvent.new "task_1" (some 1) (some "a") .toolFailed
    (.obj [("tool_call_id", .str "unknown"), ("error_type", .str "recovery_skipped_non_idempotent"),
      ("error_message", .str ""), ("local_seq", .int 0)]))]

/-- The start and the end of a completed step. -/
def startAndEnd (s : BrokerStore) (sid : String) : Option (EventType × String) :=
  ((s.view "task_1").completedSteps.lookup sid).map fun c => (c.startEvent.eventType, c.terminalType)

/-- A terminal event of a tool closes a call of the LLM; the recovery writes such an event. -/
theorem recovery_closes_llm_call :
    let s := run storeStep (untouchedStore []) callUnderWay
    let s' := run storeStep (untouchedStore []) endedAsTool
    startAndEnd s' "a" = some (.llmInvoked, "tool_failed") ∧
      startAndEnd (recoverTask brokerEventStore "task_1" [] (fun _ => []) s).2 "a" = some (.llmInvoked, "tool_failed") ∧
      ¬ StepsClosedByKind (untouchedStore []) endedAsTool := by
  intro s s'
  refine ⟨by decide +kernel, by decide +kernel, fun h => ?_⟩
  have hpaired := (closed_iff_paired (kindsApart_untouched []) endedAsTool).mp h "task_1" "a"
  revert hpaired
  decide +kernel

end Fixus
