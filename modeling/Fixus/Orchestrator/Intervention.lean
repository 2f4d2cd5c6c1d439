import Fixus.Lifecycle.Conversation
import Fixus.Orchestrator.RedoQueue
import Fixus.Store.Redelivery

/-!
# Turns that need a human

A crashed turn goes to a human when one of its unfinished steps must not be repeated. The recovery classifies every
step by the tool that its start event names, also the steps that call an LLM.

- `decides_iff`: the decision is the one for the unfinished tool steps exactly when no other step is classified with
  them;
- `llm_step_blocks`: a crash during a call of the LLM;
- `recoverTask_fails`: a recovery writes failures only, and which;
- `intervened_iff`: what a human finds after the recovery is what it should be exactly when the task was blocked before
  and only tool steps block the turn;
- `task_not_blocked`: the task of a blocked turn goes on executing.
-/

namespace Fixus

open Lib Lib.Eff BrokerStore TaskProjection

variable {taskId : String} {k : Int} {s s' : BrokerStore}

/-! ## The decision -/

/-- The step of the turn is unfinished. -/
def UnfinishedIn (events : List AgentEvent) (k : Int) (sid : String) (e : AgentEvent) : Prop :=
  Unfinished events sid e ∧ e.turnId = some k

/-- The step is one with a tool that must not be repeated; a missing name counts as one. -/
def MustNotRepeat (e : AgentEvent) : Prop :=
  e.eventType = .toolInvoked ∧ classifyTool (invokedTool e) = .nonIdempotentWrite

/-- A step as the recovery sees it. -/
def stepFrom (sid : String) (e : AgentEvent) : IncompleteStep :=
  { seq := e.seq, turnId := e.turnId.getD 0, stepId := sid, startEventType := e.eventType.asStr, payload := e.payload }

/-- The decision about a turn follows its unfinished tool steps. -/
structure DecidesByTools (events : List AgentEvent) (k : Int) (decision : RecoveryDecision) : Prop where
  safe : (∀ sid e, UnfinishedIn events k sid e →
      e.eventType = .llmInvoked ∨ (e.eventType = .toolInvoked ∧ classifyTool (invokedTool e) ≠ .nonIdempotentWrite)) →
    ∃ group count steps, decision = .safeToRedo k group count steps
  human : (∃ group steps, decision = .requiresHumanIntervention k group steps) ↔
    ∃ sid e, UnfinishedIn events k sid e ∧ MustNotRepeat e
  blocking : ∀ group steps, decision = .requiresHumanIntervention k group steps →
    (∀ step, step ∈ steps ↔ ∃ sid e, (UnfinishedIn events k sid e ∧ MustNotRepeat e) ∧ step = stepFrom sid e) ∧
      (steps.map IncompleteStep.stepId).Nodup

/-- Every unfinished step that counts for the turn (turn 0 has also those of no turn) and whose tool is missing or must
not be repeated is a tool step of the turn. -/
def OnlyToolsBlock (events : List AgentEvent) (k : Int) : Prop :=
  ∀ sid e, Unfinished events sid e → e.turnId.getD 0 = k → classifyTool (invokedTool e) = .nonIdempotentWrite →
    e.eventType = .toolInvoked ∧ e.turnId = some k

/-- The unfinished steps that count for a turn. -/
theorem mem_stepsOf_iff {log : List Record} {order : List String} {step : IncompleteStep} :
    step ∈ stepsOf (replay taskId log) order k ↔
      ∃ sid e, Unfinished (eventsOf taskId log) sid e ∧ e.turnId.getD 0 = k ∧ step = stepFrom sid e := by
  constructor
  · intro h
    obtain ⟨hmem, hk⟩ := List.mem_filter.mp h
    obtain ⟨sid, -, hsid⟩ := List.mem_filterMap.mp hmem
    obtain ⟨⟨seq, e⟩, hv, rfl⟩ := Option.map_eq_some_iff.mp hsid
    obtain ⟨hseq, hopen⟩ := activeSteps_iff.mp hv
    have hseq : seq = e.seq := hseq
    subst hseq
    exact ⟨sid, e, hopen, of_decide_eq_true hk, rfl⟩
  · rintro ⟨sid, e, hopen, hk, rfl⟩
    have hv : (replay taskId log).activeSteps.lookup sid = some (e.seq, e) := activeSteps_iff.mpr ⟨rfl, hopen⟩
    refine List.mem_filter.mpr ⟨List.mem_filterMap.mpr ⟨sid, ?_, ?_⟩, decide_eq_true hk⟩
    · exact mem_walk.mpr (Finmap.mem_keys.mpr (Finmap.mem_of_lookup_eq_some hv))
    · rw [hv]
      rfl

/-- The steps of a turn are listed once each. -/
theorem nodup_stepsOf (p : TaskProjection) (order : List String) (k : Int) :
    ((stepsOf p order k).map IncompleteStep.stepId).Nodup := by
  have hall : ((p.incompleteSteps order).map IncompleteStep.stepId).Nodup := by
    refine (nodup_walk order p.activeSteps.keys).sublist ?_
    unfold incompleteSteps
    induction walk order p.activeSteps.keys with
    | nil => exact List.Sublist.slnil
    | cons sid sids ih =>
      rw [List.filterMap_cons]
      split
      · exact ih.cons sid
      · next step hstep =>
        obtain ⟨v, -, rfl⟩ := Option.map_eq_some_iff.mp hstep
        exact ih.cons_cons sid
  exact hall.sublist ((List.filter_sublist).map _)

/-- A step with the payload of its start event blocks when the tool that it names must not be repeated. -/
theorem stepFrom_blocks (sid : String) (e : AgentEvent) :
    (stepFrom sid e).blocks = true ↔ classifyTool (invokedTool e) = .nonIdempotentWrite := decide_eq_true_iff

/-- The blocking steps of a turn. -/
theorem mem_blocking_iff {log : List Record} {order : List String} {step : IncompleteStep} :
    step ∈ (stepsOf (replay taskId log) order k).filter IncompleteStep.blocks ↔ ∃ sid e,
      Unfinished (eventsOf taskId log) sid e ∧ e.turnId.getD 0 = k ∧
        classifyTool (invokedTool e) = .nonIdempotentWrite ∧
        step = stepFrom sid e := by
  rw [List.mem_filter, mem_stepsOf_iff]
  constructor
  · rintro ⟨⟨sid, e, hopen, hk, rfl⟩, hb⟩
    exact ⟨sid, e, hopen, hk, (stepFrom_blocks sid e).mp hb, rfl⟩
  · rintro ⟨sid, e, hopen, hk, hclass, rfl⟩
    exact ⟨⟨sid, e, hopen, hk, rfl⟩, (stepFrom_blocks sid e).mpr hclass⟩

/-- A turn is safe to redo or it goes to a human with the blocking steps. -/
theorem decideRecoveryFromSteps_cases (turn : IncompleteTurn) (steps : List IncompleteStep) :
    (steps.filter IncompleteStep.blocks = [] ∧
        ∃ safe, decideRecoveryFromSteps turn steps = .safeToRedo turn.turnId turn.redoGroup turn.redoCount safe) ∨
      (steps.filter IncompleteStep.blocks ≠ [] ∧ decideRecoveryFromSteps turn steps =
        .requiresHumanIntervention turn.turnId turn.redoGroup (steps.filter IncompleteStep.blocks)) := by
  unfold decideRecoveryFromSteps
  cases hb : steps.filter IncompleteStep.blocks with
  | nil => exact Or.inl ⟨rfl, _, rfl⟩
  | cons b bs => exact Or.inr ⟨List.cons_ne_nil _ _, rfl⟩

/-- The decision that is taken from the steps of a log. -/
theorem decidesByTools_iff {log : List Record} (order : List String) (turn : IncompleteTurn) :
    DecidesByTools (eventsOf taskId log) turn.turnId
        (decideRecoveryFromSteps turn (stepsOf (replay taskId log) order turn.turnId)) ↔
      OnlyToolsBlock (eventsOf taskId log) turn.turnId := by
  constructor
  · intro h sid e hopen hk hclass
    have hmem : stepFrom sid e ∈ (stepsOf (replay taskId log) order turn.turnId).filter IncompleteStep.blocks :=
      mem_blocking_iff.mpr ⟨sid, e, hopen, hk, hclass, rfl⟩
    rcases decideRecoveryFromSteps_cases turn (stepsOf (replay taskId log) order turn.turnId) with ⟨hb, -⟩ | ⟨-, hd⟩
    · rw [hb] at hmem
      cases hmem
    · -- the step is among the blocking ones, so it is one of the tool steps of the turn
      obtain ⟨sid', e', ⟨⟨hopen', hk'⟩, htool⟩, heq⟩ := ((h.blocking _ _ hd).1 _).mp hmem
      obtain rfl : sid = sid' := congrArg IncompleteStep.stepId heq
      obtain ⟨post, hlast, -⟩ := hopen
      obtain ⟨post', hlast', -⟩ := hopen'
      obtain ⟨rfl, -⟩ := hlast.unique hlast'
      exact ⟨htool.1, hk'⟩
  · intro h
    have hmem : ∀ step, step ∈ (stepsOf (replay taskId log) order turn.turnId).filter IncompleteStep.blocks ↔
        ∃ sid e, (UnfinishedIn (eventsOf taskId log) turn.turnId sid e ∧ MustNotRepeat e) ∧ step = stepFrom sid e := by
      intro step
      rw [mem_blocking_iff]
      constructor
      · rintro ⟨sid, e, hopen, hk, hclass, rfl⟩
        obtain ⟨htool, htag⟩ := h sid e hopen hk hclass
        exact ⟨sid, e, ⟨⟨hopen, htag⟩, htool, hclass⟩, rfl⟩
      · rintro ⟨sid, e, ⟨⟨hopen, htag⟩, -, hclass⟩, rfl⟩
        exact ⟨sid, e, hopen, by rw [htag]; rfl, hclass, rfl⟩
    rcases decideRecoveryFromSteps_cases turn (stepsOf (replay taskId log) order turn.turnId) with
      ⟨hb, safe, hd⟩ | ⟨hb, hd⟩
    · rw [hb] at hmem
      refine ⟨fun _ => ⟨_, _, safe, hd⟩, ⟨?_, ?_⟩, fun group steps heq => ?_⟩
      · rintro ⟨group, steps, heq⟩
        rw [hd] at heq
        cases heq
      · rintro ⟨sid, e, htool⟩
        exact absurd ((hmem _).mpr ⟨sid, e, htool, rfl⟩) List.not_mem_nil
      · rw [hd] at heq
        cases heq
    · obtain ⟨step, hstep⟩ := List.exists_mem_of_ne_nil _ hb
      obtain ⟨sid, e, ⟨htag, htool⟩, -⟩ := (hmem step).mp hstep
      refine ⟨fun hsafe => ?_, ⟨fun _ => ⟨sid, e, htag, htool⟩, fun _ => ⟨_, _, hd⟩⟩, fun group steps heq => ?_⟩
      · rcases hsafe sid e htag with hllm | ⟨-, hclass⟩
        · cases hllm.symm.trans htool.1
        · exact absurd htool.2 hclass
      · rw [hd] at heq
        injection heq with hk hgroup hsteps
        subst hsteps
        exact ⟨hmem, (nodup_stepsOf _ _ _).sublist ((List.filter_sublist).map _)⟩

/-- Reading the decision from a healthy broker. -/
theorem decideTurnRecovery_healthy (hs : Healthy s) (turn : IncompleteTurn) (order : List String) :
    wp (decideTurnRecovery brokerEventStore taskId turn order) (fun decision s' => Loaded taskId s s' ∧
      decision = decideRecoveryFromSteps turn (stepsOf (s.view taskId) order turn.turnId)) (fun _ _ => False) s := by
  unfold decideTurnRecovery
  rw [wp_bind]
  refine wp_mono (withProjection_healthy hs _) (fun events s₁ h₁ => ?_) fun _ _ h => h
  rw [wp_bind]
  refine wp_mono (withProjection_healthy h₁.2.healthy _) (fun all s₂ h₂ => ?_) fun _ _ h => h
  obtain ⟨rfl, hloaded⟩ := h₂
  rw [wp_pure, h₁.2.view]
  exact ⟨h₁.2.trans hloaded, rfl⟩

/-- **The decision about a turn follows its unfinished tool steps exactly when no other step that counts for it is
classified as one that must not be repeated.** -/
theorem decides_iff (hs : Healthy s) (hv : s.view taskId = replay taskId (s.log taskId)) (turn : IncompleteTurn)
    (order : List String) :
    (∃ decision s', decideTurnRecovery brokerEventStore taskId turn order s = (.ok decision, s') ∧
        DecidesByTools (eventsOf taskId (s.log taskId)) turn.turnId decision) ↔
      OnlyToolsBlock (eventsOf taskId (s.log taskId)) turn.turnId := by
  obtain ⟨decision, s', hrun, -, hd⟩ := wp_total (decideTurnRecovery_healthy hs turn order)
  rw [hv] at hd
  rw [← decidesByTools_iff order turn, ← hd]
  constructor
  · rintro ⟨decision', s'', hrun', h⟩
    rw [hrun] at hrun'
    cases hrun'
    exact h
  · exact fun h => ⟨decision, s', hrun, h⟩

/-- A turn that was interrupted during a step. -/
def interruptedLog (start : String) (payload : Json) : List Record :=
  let turn : Metadata := (∅ : Metadata).insert "turn_id" "1"
  [⟨1, "task_created", .obj [], ∅⟩, ⟨2, "task_ready", .obj [], ∅⟩,
    ⟨3, "turn_started", .obj [("user_input", .str "go")], turn⟩, ⟨4, start, payload, turn.insert "step_id" "a"⟩]

/-- The incomplete turn of this log. -/
def interruptedTurn : IncompleteTurn := { turnId := 1, redoGroup := "?", redoCount := 0 }

/-- The theorem at a turn that was interrupted while it read a file. -/
theorem decides_reading : ∃ decision s', decideTurnRecovery brokerEventStore "task_1" interruptedTurn []
      (freshStore (interruptedLog "tool_invoked" (.obj [("tool_name", .str "read_file")]))) = (.ok decision, s') ∧
    DecidesByTools (eventsOf "task_1" (interruptedLog "tool_invoked"
      (.obj [("tool_name", .str "read_file")]))) 1 decision := by
  refine (decides_iff (freshStore_healthy _) (freshStore_view _ _) interruptedTurn []).mpr ?_
  rintro sid e ⟨post, hlast, -⟩ hk hclass
  have hstart := hlast.starts
  have hmem := hlast.mem
  simp [BrokerStore.log, freshStore, eventsOf, interruptedLog, EventType.fromStr] at hmem
  rcases hmem with rfl | rfl | rfl | rfl
  · cases hstart
  · cases hstart
  · cases hstart
  · exact absurd hclass (by decide)

/-- A crash during a call of the LLM: the turn goes to a human, although no tool is unfinished. -/
theorem llm_step_blocks :
    let log := interruptedLog "llm_invoked" (.obj [("model", .str "m"), ("messages", .arr []), ("local_seq", .int 1)])
    (interruptedTurn.turnId ∈ ((replay "task_1" log).incompleteTurns []).map IncompleteTurn.turnId) ∧
      (∀ sid e, UnfinishedIn (eventsOf "task_1" log) 1 sid e → e.eventType = .llmInvoked) ∧
      ¬ ∃ decision s', decideTurnRecovery brokerEventStore "task_1" interruptedTurn [] (freshStore log) =
          (.ok decision, s') ∧ DecidesByTools (eventsOf "task_1" log) 1 decision := by
  intro log
  have hllm : ∀ sid e, UnfinishedIn (eventsOf "task_1" log) 1 sid e → e.eventType = .llmInvoked := by
    rintro sid e ⟨⟨post, hlast, -⟩, -⟩
    have hstart := hlast.starts
    have hmem := hlast.mem
    simp [log, eventsOf, interruptedLog, EventType.fromStr] at hmem
    rcases hmem with rfl | rfl | rfl | rfl
    · cases hstart
    · cases hstart
    · cases hstart
    · rfl
  refine ⟨by decide, hllm, ?_⟩
  rintro ⟨decision, s', hrun, h⟩
  obtain ⟨group, count, steps, rfl⟩ := h.safe fun sid e hopen => Or.inl (hllm sid e hopen)
  have hblocked : (decideTurnRecovery brokerEventStore "task_1" interruptedTurn [] (freshStore log)).1.map
      (fun d => d.casesOn (motive := fun _ => Bool) (fun _ _ _ _ => true) fun _ _ _ => false) = .ok false := by
    decide +kernel
  rw [hrun] at hblocked
  cases hblocked

/-! ## What the failures do -/

/-- A record says what its mark says. -/
theorem Mark.Tags.type {m : Mark} {r : Record} (h : m.Tags r) : EventType.fromStr r.eventType = some m.eventType := by
  obtain ⟨e, seq, htype, -, -, rfl⟩ := h
  exact htype ▸ EventType.fromStr_asStr _

theorem Mark.Tags.step {m : Mark} {r : Record} (h : m.Tags r) : r.stepId = m.stepId := by
  obtain ⟨e, seq, -, -, hstep, rfl⟩ := h
  exact hstep ▸ eventMeta_stepId e

theorem Mark.Tags.turn {m : Mark} {r : Record} (h : m.Tags r) (hk : InI64 k) (ht : m.turnId = some k) :
    r.turnId = some k := by
  obtain ⟨e, seq, -, hturn, -, rfl⟩ := h
  have htag : e.turnId = some k := hturn.trans ht
  rw [recordOf_turnId fun j hj => by rw [htag] at hj; exact Option.some.inj hj ▸ hk, htag]

/-- Failures do not move the task. -/
theorem Appended.state {marks : List Mark} (h : Appended taskId marks s s') (hm : ∀ m ∈ marks, m.Fails) :
    stateOf (s'.log taskId) = stateOf (s.log taskId) := by
  obtain ⟨rs, hlog, -, htags⟩ := h.records
  rw [hlog]
  clear hlog h
  generalize s.log taskId = log
  induction htags generalizing log with
  | nil => rw [List.append_nil]
  | cons hr _ ih =>
    obtain ⟨hf, hms⟩ := List.forall_mem_cons.mp hm
    obtain ⟨e, seq, htype, -, -, rfl⟩ := hr
    rw [List.append_cons, ih hms, stateOf_recordOf, htype]
    rcases hf with hf | hf <;> rw [hf] <;> rfl

/-- What is up to date stays up to date. -/
theorem Appended.view {marks : List Mark} (h : Appended taskId marks s s')
    (hv : s.view taskId = replay taskId (s.log taskId)) : s'.view taskId = replay taskId (s'.log taskId) := by
  obtain ⟨rs, hlog, hview, -⟩ := h.records
  rw [hview, hv, hlog]
  exact (List.foldl_append).symm

/-- The event has the type and the step of the mark. -/
def Mark.Names (m : Mark) (e : AgentEvent) : Prop := e.eventType = m.eventType ∧ e.stepId = m.stepId

/-- The events of the log grow by the marked ones. -/
theorem Appended.events {marks : List Mark} (h : Appended taskId marks s s') : ∃ new,
    eventsOf taskId (s'.log taskId) = eventsOf taskId (s.log taskId) ++ new ∧
      (∀ e ∈ new, ∃ m ∈ marks, m.Names e) ∧ ∀ m ∈ marks, ∃ e ∈ new, m.Names e := by
  obtain ⟨rs, hlog, -, htags⟩ := h.records
  refine ⟨eventsOf taskId rs, by rw [hlog]; exact List.filterMap_append, ?_⟩
  clear hlog h
  induction htags with
  | nil => exact ⟨nofun, nofun⟩
  | @cons m r marks rs hr _ ih =>
    have hevents : eventsOf taskId (r :: rs) = eventOf taskId m.eventType r :: eventsOf taskId rs := by
      unfold eventsOf
      rw [List.filterMap_cons, hr.type]
      rfl
    have hm : m.Names (eventOf taskId m.eventType r) := ⟨rfl, hr.step⟩
    rw [hevents]
    refine ⟨fun e he => ?_, fun m' hm' => ?_⟩
    · rcases List.mem_cons.mp he with rfl | he
      · exact ⟨m, List.mem_cons_self, hm⟩
      · obtain ⟨m', hm', hn⟩ := ih.1 e he
        exact ⟨m', List.mem_cons_of_mem _ hm', hn⟩
    · rcases List.mem_cons.mp hm' with rfl | hm'
      · exact ⟨_, List.mem_cons_self, hm⟩
      · obtain ⟨e, he, hn⟩ := ih.2 m' hm'
        exact ⟨e, List.mem_cons_of_mem _ he, hn⟩

/-- A failure ends its turn and starts none. -/
theorem activeTurns_of_fails {p : TaskProjection} {m : Mark} {r : Record} (hr : m.Tags r) (hm : m.Fails) :
    (p.applyIgnoring r).activeTurns =
      if m.eventType = .turnFailed then p.activeTurns \ r.turnId.toFinset else p.activeTurns := by
  rw [applyIgnoring_some hr.type]
  unfold applyHead
  rcases hm with hm | hm
  · simp [hm, eventOf, (closeStep_frame _ _).2.1]
  · simp [hm, eventOf]

/-- A turn that is failed is over. -/
theorem Appended.not_active {marks : List Mark} (h : Appended taskId marks s s') (hm : ∀ m ∈ marks, m.Fails)
    (hk : InI64 k) (hend : ∃ m ∈ marks, m.eventType = .turnFailed ∧ m.turnId = some k) :
    k ∉ (s'.view taskId).activeTurns := by
  obtain ⟨rs, -, hview, htags⟩ := h.records
  rw [hview]
  clear hview h
  generalize s.view taskId = p
  -- either the turn is over already or its failure is still to come
  have hgoal : (k ∉ p.activeTurns ∨ ∃ m ∈ marks, m.eventType = .turnFailed ∧ m.turnId = some k) →
      k ∉ (rs.foldl applyIgnoring p).activeTurns := by
    clear hend
    induction htags generalizing p with
    | nil =>
      rintro (hno | ⟨m, hmem, -⟩)
      · exact hno
      · cases hmem
    | @cons m r marks rs hr _ ih =>
      obtain ⟨hf, hms⟩ := List.forall_mem_cons.mp hm
      intro hcase
      refine ih hms _ ?_
      rw [activeTurns_of_fails hr hf]
      rcases hcase with hno | ⟨m', hmem, htype, hturn⟩
      · refine Or.inl fun hin => hno ?_
        split at hin
        · exact (Finset.mem_sdiff.mp hin).1
        · exact hin
      · rcases List.mem_cons.mp hmem with rfl | hmem
        · refine Or.inl ?_
          rw [if_pos htype, hr.turn hk hturn]
          simp
        · exact Or.inr ⟨m', hmem, htype, hturn⟩
  exact hgoal (Or.inr hend)

/-! ## What the recovery of a task fails -/

/-- The step is active, counts for the turn, and blocks it. -/
def BlockedBy (p : TaskProjection) (k : Int) (sid : String) : Prop :=
  ∃ v, p.activeSteps.lookup sid = some v ∧ v.2.turnId.getD 0 = k ∧ classifyTool (invokedTool v.2) = .nonIdempotentWrite

/-- The marks have the failure of the turn and of the step. -/
def FailedIn (marks : List Mark) (k : Int) (sid : String) : Prop :=
  (∃ m ∈ marks, m.eventType = .turnFailed ∧ m.turnId = some k) ∧
    ∃ m ∈ marks, m.eventType = .toolFailed ∧ m.stepId = some sid

theorem FailedIn.mono {marks marks' : List Mark} {sid : String} (h : FailedIn marks k sid) (hsub : marks ⊆ marks') :
    FailedIn marks' k sid := by
  obtain ⟨⟨m, hm, hturn⟩, m', hm', hstep⟩ := h
  exact ⟨⟨m, hsub hm, hturn⟩, m', hsub hm', hstep⟩

/-- A step that blocks a turn fails with it. -/
theorem failedIn_blockMarks {p : TaskProjection} (order : List String) {sid : String} (h : BlockedBy p k sid) :
    FailedIn (blockMarks k ((stepsOf p order k).filter IncompleteStep.blocks)) k sid := by
  obtain ⟨v, hv, hk, hclass⟩ := h
  have hstep : (⟨v.1, v.2.turnId.getD 0, sid, v.2.eventType.asStr, v.2.payload⟩ : IncompleteStep) ∈
      (stepsOf p order k).filter IncompleteStep.blocks := by
    refine List.mem_filter.mpr ⟨List.mem_filter.mpr ⟨List.mem_filterMap.mpr ⟨sid, ?_, ?_⟩, decide_eq_true hk⟩,
      decide_eq_true hclass⟩
    · exact mem_walk.mpr (Finmap.mem_keys.mpr (Finmap.mem_of_lookup_eq_some hv))
    · rw [hv]
      rfl
  refine ⟨⟨_, List.mem_append_right _ (List.mem_singleton_self _), rfl, rfl⟩, ?_⟩
  exact ⟨_, List.mem_append_left _ (List.mem_map.mpr ⟨_, hstep, rfl⟩), rfl, rfl⟩

/-- The mark is for one of the turns, and a step blocks this turn. -/
def Mark.Blocked (m : Mark) (p : TaskProjection) (turns : List IncompleteTurn) : Prop :=
  ∃ turn ∈ turns, Dangling p turn.turnId ∧ m.turnId = some turn.turnId

theorem blockMarks_turnId {blocking : List IncompleteStep} {m : Mark} (h : m ∈ blockMarks k blocking) :
    m.turnId = some k := by
  rcases List.mem_append.mp h with h | h
  · obtain ⟨step, -, rfl⟩ := List.mem_map.mp h
    rfl
  · rw [List.mem_singleton.mp h]

/-- Failures end steps and start none. -/
theorem Appended.steps_of {marks : List Mark} {sid : String} {v : Int × AgentEvent} (h : Appended taskId marks s s')
    (hm : ∀ m ∈ marks, m.Fails) (hv : (s'.view taskId).activeSteps.lookup sid = some v) :
    (s.view taskId).activeSteps.lookup sid = some v := by
  obtain ⟨rs, -, hview, htags⟩ := h.records
  rw [hview] at hv
  clear hview h
  generalize s.view taskId = p at hv ⊢
  induction htags generalizing p with
  | nil => exact hv
  | @cons m r marks rs hr _ ih =>
    obtain ⟨hf, hms⟩ := List.forall_mem_cons.mp hm
    have hstart : (eventOf p.taskId m.eventType r).eventType.isStepStart = false := by
      rcases hf with hf | hf <;> rw [eventOf, hf] <;> rfl
    have hafter := ih hms _ hv
    rw [applyIgnoring_some hr.type, applyHead_activeSteps, hstart, index_activeSteps] at hafter
    simp only [Bool.false_eq_true, and_false, if_false] at hafter
    split at hafter
    · cases hafter
    · exact hafter

/-- What blocks a turn after failures blocked it before. -/
theorem Appended.dangling {marks : List Mark} (h : Appended taskId marks s s') (hm : ∀ m ∈ marks, m.Fails)
    (hd : Dangling (s'.view taskId) k) : Dangling (s.view taskId) k := by
  obtain ⟨sid, v, hv, hk, hclass⟩ := hd
  exact ⟨sid, v, h.steps_of hm hv, hk, hclass⟩

/-- The loop over the turns writes failures only, for blocked turns only, and it fails every blocked turn with the steps
that block it. -/
theorem recoverEach_fails (order : Int → List String) {turns : List IncompleteTurn}
    (hn : (turns.map IncompleteTurn.turnId).Nodup) (hs : Healthy s) :
    wp (recoverEach brokerEventStore taskId order turns)
      (fun _ s' => ∃ marks, Appended taskId marks s s' ∧ (∀ m ∈ marks, m.Fails) ∧
        (∀ turn ∈ turns, ∀ sid, BlockedBy (s.view taskId) turn.turnId sid → FailedIn marks turn.turnId sid) ∧
        ∀ m ∈ marks, m.Blocked (s.view taskId) turns)
      (fun _ _ => True) s := by
  induction turns generalizing s with
  | nil => exact ⟨[], Appended.refl hs, nofun, nofun, nofun⟩
  | cons turn turns ih =>
    obtain ⟨hnew, hn⟩ := List.nodup_cons.mp hn
    unfold recoverEach
    rw [wp_bind]
    refine wp_mono (recoverTurn_healthy hs turn (order turn.turnId)) (fun a s₁ h₁ => ?_) fun _ _ h => h.elim
    obtain ⟨hloaded, ha⟩ := h₁
    by_cases hd : Dangling (s.view taskId) turn.turnId
    · rw [decide_dangling hd, ← hloaded.view] at ha
      subst ha
      rw [wp_bind]
      refine wp_mono (failTurnWithNonIdempotentBlock_spec hloaded.healthy _) (fun _ s₂ h₂ => ?_) fun _ _ _ => trivial
      refine wp_mono (ih hn h₂.healthy) (fun _ s₃ h₃ => ?_) fun _ _ h => h
      obtain ⟨marks, happ, hfails, hall, hblocked⟩ := h₃
      refine ⟨_, (h₂.trans happ).after hloaded, fun m hm => ?_, fun turn' ht sid hb => ?_, fun m hm => ?_⟩
      · exact (List.mem_append.mp hm).elim blockMarks_fail (hfails m)
      · rw [← hloaded.view] at hb
        rcases List.mem_cons.mp ht with rfl | ht
        · exact (failedIn_blockMarks _ hb).mono (List.subset_append_left _ _)
        · -- what blocks a later turn still does after the failure of this one
          obtain ⟨v, hv, hk, hclass⟩ := hb
          have hne : v.2.turnId.getD 0 ≠ turn.turnId := fun heq => hnew (by
            rw [← heq, hk]
            exact List.mem_map_of_mem ht)
          exact (hall turn' ht sid ⟨v, h₂.other_steps hv hne, hk, hclass⟩).mono (List.subset_append_right _ _)
      · rcases List.mem_append.mp hm with hm | hm
        · exact ⟨turn, List.mem_cons_self, hd, blockMarks_turnId hm⟩
        · obtain ⟨turn', ht, hd', hk⟩ := hblocked m hm
          have hd'' := h₂.dangling (fun _ => blockMarks_fail) hd'
          rw [hloaded.view] at hd''
          exact ⟨turn', List.mem_cons_of_mem _ ht, hd'', hk⟩
    · rw [decide_not_dangling hd] at ha
      subst ha
      rw [wp_bind]
      refine wp_mono (ih hn hloaded.healthy) (fun queue s₂ h₂ => ?_) fun _ _ h => h
      obtain ⟨marks, happ, hfails, hall, hblocked⟩ := h₂
      refine ⟨marks, happ.after hloaded, hfails, fun turn' ht sid hb => ?_, fun m hm => ?_⟩
      · rcases List.mem_cons.mp ht with rfl | ht
        · exact absurd ⟨sid, hb⟩ hd
        · rw [← hloaded.view] at hb
          exact hall turn' ht sid hb
      · obtain ⟨turn', ht, hd', hk⟩ := hblocked m hm
        rw [hloaded.view] at hd'
        exact ⟨turn', List.mem_cons_of_mem _ ht, hd', hk⟩

/-- The recovery writes failures only, for blocked turns only, and it fails every blocked turn with the steps that block
it. -/
theorem recoverTask_fails (hs : Healthy s) (turnOrder : List Int) (stepOrder : Int → List String) :
    wp (recoverTask brokerEventStore taskId turnOrder stepOrder)
      (fun _ s' => ∃ marks, Appended taskId marks s s' ∧ (∀ m ∈ marks, m.Fails) ∧
        (∀ turn ∈ (s.view taskId).incompleteTurns turnOrder, ∀ sid, BlockedBy (s.view taskId) turn.turnId sid →
          FailedIn marks turn.turnId sid) ∧
        ∀ m ∈ marks, m.Blocked (s.view taskId) ((s.view taskId).incompleteTurns turnOrder))
      (fun _ _ => True) s := by
  unfold recoverTask
  rw [wp_bind]
  refine wp_mono (withProjection_healthy hs _) (fun turns s₁ h₁ => ?_) fun _ _ h => h.elim
  obtain ⟨rfl, hloaded⟩ := h₁
  refine wp_mono (recoverEach_fails stepOrder (nodup_incompleteTurns _ _) hloaded.healthy)
    (fun _ s₂ h₂ => ?_) fun _ _ h => h
  obtain ⟨marks, happ, hfails, hall, hblocked⟩ := h₂
  rw [hloaded.view] at hall hblocked
  exact ⟨marks, happ.after hloaded, hfails, hall, hblocked⟩

/-! ## The outcome -/

/-- The turn is over, its blocking steps have ended, each with an event of its own kind, and the task waits for the
human, who can make it ready again. -/
structure Intervened (taskId : String) (k : Int) (blocking : List IncompleteStep) (s : BrokerStore) : Prop where
  ended : ∀ order, k ∉ ((s.view taskId).incompleteTurns order).map IncompleteTurn.turnId
  steps : ∀ step ∈ blocking, ∃ e, Ended (eventsOf taskId (s.log taskId)) step.stepId e
  blocked : stateOf (s.log taskId) = .blocked
  ready : ∃ s', (Op.markTaskReady taskId).run brokerEventStore { s with produces := [] } = (.ok (), s')

/-- The numbers of turns are in the range. -/
theorem inI64_of_turnId {log : List Record} {e : AgentEvent} (h : e ∈ eventsOf taskId log) (hk : e.turnId = some k) :
    InI64 k := by
  obtain ⟨r, -, hr⟩ := List.mem_filterMap.mp h
  obtain ⟨et, -, rfl⟩ := Option.map_eq_some_iff.mp hr
  exact Record.inI64_of_turnId (r := r) hk

/-- A step ends with the recovery in its own kind exactly if it is a tool step. -/
theorem ended_iff_tool {marks : List Mark} {sid : String} {e : AgentEvent} (h : Appended taskId marks s s')
    (hfails : ∀ m ∈ marks, m.Fails) (hopen : Unfinished (eventsOf taskId (s.log taskId)) sid e)
    (hstep : ∃ m ∈ marks, m.eventType = .toolFailed ∧ m.stepId = some sid) :
    (∃ e', Ended (eventsOf taskId (s'.log taskId)) sid e') ↔ e.eventType = .toolInvoked := by
  obtain ⟨new, hevents, hmarked, hnew⟩ := h.events
  obtain ⟨post, hlast, hnone⟩ := hopen
  have hfail : ∀ e' ∈ new, e'.eventType = .toolFailed ∨ e'.eventType = .turnFailed := by
    intro e' he'
    obtain ⟨m, hm, htype, -⟩ := hmarked e' he'
    rw [htype]
    exact hfails m hm
  have hlast' : LastStart (eventsOf taskId (s'.log taskId)) sid e (post ++ new) := by
    rw [hevents]
    exact hlast.append fun e' he' => by rcases hfail e' he' with h | h <;> rw [h] <;> rfl
  constructor
  · rintro ⟨e₁, post', hpost, e', he', hs, hkind⟩
    obtain ⟨rfl, rfl⟩ := hlast'.unique hpost
    rcases List.mem_append.mp he' with he' | he'
    · have hend := EventType.isStepTerminal_of_endedBy hkind
      rw [hnone e' he' hs] at hend
      cases hend
    · rcases hfail e' he' with hf | hf <;> rw [hf] at hkind <;> cases he : e.eventType <;> rw [he] at hkind <;>
        first | rfl | cases hkind
  · intro htool
    obtain ⟨m, hm, htype, hsid⟩ := hstep
    obtain ⟨e', he', htype', hsid'⟩ := hnew m hm
    refine ⟨e, _, hlast', e', List.mem_append_right _ he', hsid'.trans hsid, ?_⟩
    rw [htool, htype', htype]
    rfl

/-- A blocked task can be made ready. -/
theorem markTaskReady_blocked (hs : Healthy s) (hv : s.view taskId = replay taskId (s.log taskId))
    (hst : stateOf (s.log taskId) = .blocked) :
    ∃ s', (Op.markTaskReady taskId).run brokerEventStore { s with produces := [] } = (.ok (), s') := by
  have hat : At taskId .blocked (replay taskId (s.log taskId)).maxTurnId { s with produces := [] } :=
    ⟨⟨hs.sessions, hs.ok⟩, rfl, hv, hst, rfl⟩
  have hspec : wp ((Op.markTaskReady taskId).run brokerEventStore) (fun _ _ => True) (fun _ _ => False)
      { s with produces := [] } := by
    unfold Op.run
    rw [wp_discard]
    refine wp_mono (transitionTask_at hat ?_ ?_ ?_) (fun _ _ _ => trivial) fun _ _ h => h
    · rfl
    · rfl
    · exact nofun
  obtain ⟨u, s', hrun, -⟩ := wp_total hspec
  exact ⟨s', hrun⟩

/-- **A recovery that sends a turn to a human leaves the task waiting for them exactly if the task was blocked before
and only tool steps block the turn.** -/
theorem intervened_iff {turnOrder : List Int} {stepOrder : Int → List String} {queue : List RedoContext}
    {turn : IncompleteTurn} {group : String} {blocking : List IncompleteStep} (hs : Healthy s)
    (hv : s.view taskId = replay taskId (s.log taskId))
    (hrun : recoverTask brokerEventStore taskId turnOrder stepOrder s = (.ok queue, s'))
    (hturn : turn ∈ (s.view taskId).incompleteTurns turnOrder)
    (hblock : decideRecoveryFromSteps turn (stepsOf (s.view taskId) (stepOrder turn.turnId) turn.turnId) =
      .requiresHumanIntervention turn.turnId group blocking) :
    Intervened taskId turn.turnId blocking s' ↔
      stateOf (s.log taskId) = .blocked ∧ ∀ step ∈ blocking, step.startEventType = "tool_invoked" := by
  obtain ⟨marks, happ, hfails, hall, -⟩ := wp_ok (recoverTask_fails hs turnOrder stepOrder) hrun
  have hstate := happ.state hfails
  have hv' := happ.view hv
  -- the blocking steps are unfinished steps that count for the turn, and they fail
  obtain ⟨hne, hblocking⟩ : blocking ≠ [] ∧ blocking =
      (stepsOf (replay taskId (s.log taskId)) (stepOrder turn.turnId) turn.turnId).filter IncompleteStep.blocks := by
    rw [← hv]
    rcases decideRecoveryFromSteps_cases turn (stepsOf (s.view taskId) (stepOrder turn.turnId) turn.turnId) with
      ⟨-, safe, hd⟩ | ⟨hne, hd⟩
    · rw [hd] at hblock
      cases hblock
    · rw [hd] at hblock
      injection hblock with hk hgroup hsteps
      exact ⟨hsteps ▸ hne, hsteps.symm⟩
  have hstep : ∀ step ∈ blocking, ∃ e, Unfinished (eventsOf taskId (s.log taskId)) step.stepId e ∧
      e.turnId.getD 0 = turn.turnId ∧ step.startEventType = e.eventType.asStr ∧
        FailedIn marks turn.turnId step.stepId := by
    intro step hstep
    rw [hblocking] at hstep
    obtain ⟨sid, e, hopen, hk, hclass, rfl⟩ := mem_blocking_iff.mp hstep
    refine ⟨e, hopen, hk, rfl, hall turn hturn sid ⟨(e.seq, e), ?_, hk, hclass⟩⟩
    rw [hv]
    exact activeSteps_iff.mpr ⟨rfl, hopen⟩
  have hended : ∀ step ∈ blocking, (∃ e, Ended (eventsOf taskId (s'.log taskId)) step.stepId e) ↔
      step.startEventType = "tool_invoked" := by
    intro step hm
    obtain ⟨e, hopen, -, htype, hfailed⟩ := hstep step hm
    rw [ended_iff_tool happ hfails hopen hfailed.2, htype]
    cases e.eventType <;> decide
  constructor
  · intro h
    exact ⟨hstate ▸ h.blocked, fun step hm => (hended step hm).mp (h.steps step hm)⟩
  · rintro ⟨hblocked, htools⟩
    have hblocked' : stateOf (s'.log taskId) = .blocked := hstate.trans hblocked
    refine ⟨fun order hmem => ?_, fun step hm => (hended step hm).mpr (htools step hm), hblocked',
      markTaskReady_blocked happ.healthy hv' hblocked'⟩
    obtain ⟨step, hm⟩ := List.exists_mem_of_ne_nil _ hne
    obtain ⟨e, ⟨post, hlast, -⟩, hk, -, hfailed⟩ := hstep step hm
    have hrange : InI64 turn.turnId := by
      cases htag : e.turnId with
      | none =>
        rw [htag] at hk
        rw [← hk]
        decide
      | some k =>
        rw [htag] at hk
        exact inI64_of_turnId hlast.mem (htag.trans (congrArg some hk))
    exact happ.not_active hfails hrange hfailed.1 (active_of_incomplete hmem)

/-- A crash while a mail was sent; the task is blocked by hand before the recovery. -/
def blockedLog : List Record :=
  interruptedLog "tool_invoked" (.obj [("tool_name", .str "send_email")]) ++ [⟨5, "task_blocked", .obj [], ∅⟩]

/-- The step that was interrupted. -/
def mailStep : IncompleteStep :=
  { seq := 4, turnId := 1, stepId := "a", startEventType := "tool_invoked",
    payload := .obj [("tool_name", .str "send_email")] }

/-- The theorem at this log. -/
theorem intervened_mail : ∃ queue s', recoverTask brokerEventStore "task_1" [] (fun _ => []) (freshStore blockedLog) =
    (.ok queue, s') ∧ Intervened "task_1" 1 [mailStep] s' := by
  have hok : (recoverTask brokerEventStore "task_1" [] (fun _ => [])
    (freshStore blockedLog)).1.map List.length = .ok 0 := by
    decide +kernel
  cases hrun : recoverTask brokerEventStore "task_1" [] (fun _ => []) (freshStore blockedLog) with
  | mk answer s' =>
    rw [hrun] at hok
    cases answer with
    | error err => cases hok
    | ok queue =>
      have hturn : interruptedTurn ∈ ((freshStore blockedLog).view "task_1").incompleteTurns [] :=
        List.mem_singleton_self _
      have hblock : decideRecoveryFromSteps interruptedTurn
          (stepsOf ((freshStore blockedLog).view "task_1") [] interruptedTurn.turnId) =
            .requiresHumanIntervention interruptedTurn.turnId "?" [mailStep] := rfl
      refine ⟨queue, s', rfl,
        (intervened_iff (freshStore_healthy _) (freshStore_view _ _) hrun hturn hblock).mpr ⟨?_, ?_⟩⟩
      · decide
      · exact fun step hm => List.mem_singleton.mp hm ▸ rfl

/-- A crash while a mail was sent: the turn goes to a human, but the task goes on executing and cannot be made ready. -/
theorem task_not_blocked :
    let s := freshStore (interruptedLog "tool_invoked" (.obj [("tool_name", .str "send_email")]))
    let s' := (recoverTask brokerEventStore "task_1" [] (fun _ => []) s).2
    (recoverTask brokerEventStore "task_1" [] (fun _ => []) s).1.map List.length = .ok 0 ∧
      interruptedTurn ∈ (s.view "task_1").incompleteTurns [] ∧
      decideRecoveryFromSteps interruptedTurn (stepsOf (s.view "task_1") [] 1) =
        .requiresHumanIntervention 1 "?" [mailStep] ∧
      stateOf (s'.log "task_1") = .executing ∧
      ((Op.markTaskReady "task_1").run brokerEventStore s').1 =
        .error (.invalidTaskStateTransition "task_1" "executing" "ready") ∧
      ¬ Intervened "task_1" 1 [mailStep] s' := by
  intro s s'
  have hstate : stateOf (s'.log "task_1") = .executing := by decide +kernel
  refine ⟨by decide +kernel, List.mem_singleton_self _, rfl, hstate, by decide +kernel, fun h => ?_⟩
  cases hstate.symm.trans h.blocked

end Fixus
