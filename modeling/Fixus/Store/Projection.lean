import Mathlib.Data.Finmap
import Mathlib.Data.Finset.Basic
import Mathlib.Data.String.Basic
import Fixus.Data.Models
import Fixus.Lib.Walk
import Fixus.Policy.Wire

/-!
# The projection of a task's log

`TaskProjection.apply` folds one record of a log into the derived fields: the head, the indexes, the active turns and
steps, the summary and the token counts. Hash maps and sets are finite maps and sets; where the source iterates over
one, the order is an argument.

- `apply_ok_iff`: only an unknown event type is refused;
- `replay_state`, `stateOf`: the state of the projection is a function of the event types of the log;
- `applyIgnoring_maxTurnId`: the largest turn number after one more record.

The arrival time of a record is not modelled, and so neither are the start times of turns and steps.
-/

namespace Fixus

/-- The tags of a record. -/
abbrev Metadata := Finmap fun _ : String => String

/-- A record of a stream, its content already decoded (undecodable content is null). It is assumed that the content that
was written reads back unchanged, as JSON without floats does that nests at most 127 levels. -/
structure Record where
  seq : Nat
  eventType : String
  content : Json
  metadata : Metadata

/-- The records of a log have ascending numbers. -/
def Ascending (log : List Record) : Prop := log.Pairwise fun r r' => r.seq < r'.seq

instance (log : List Record) : Decidable (Ascending log) := inferInstanceAs (Decidable (List.Pairwise _ _))

/-- The cast to a signed number keeps different numbers apart. -/
theorem wrapI64_natCast_inj {n m : Nat} (hn : n < 2 ^ 64) (hm : m < 2 ^ 64) (h : wrapI64 n = wrapI64 m) : n = m := by
  unfold wrapI64 at h
  omega

/-- The casts of different numbers of an ascending log are different. -/
theorem eq_of_wrapI64_seq {log : List Record} (h : Ascending log) (hseq : ∀ r ∈ log, r.seq < 2 ^ 64) {r r' : Record}
    (hr : r ∈ log) (hr' : r' ∈ log) (heq : wrapI64 r.seq = wrapI64 r'.seq) : r = r' := by
  have hs := wrapI64_natCast_inj (hseq r hr) (hseq r' hr') heq
  have hsymm : Std.Symm fun r r' : Record => r.seq = r'.seq → r = r' := ⟨fun _ _ h h' => (h h'.symm).symm⟩
  have hinj : log.Pairwise fun r r' => r.seq = r'.seq → r = r' := h.imp fun hlt heq => absurd heq hlt.ne
  exact hinj.forall_of_forall (fun _ _ _ => rfl) hr hr' hs

/-- The turn a record belongs to, when its tag is a number. -/
def Record.turnId (r : Record) : Option Int := (r.metadata.lookup "turn_id").bind parseI64

theorem Record.inI64_of_turnId {r : Record} {k : Int} (h : r.turnId = some k) : InI64 k := by
  obtain ⟨tag, -, htag⟩ := Option.bind_eq_some_iff.mp h
  exact of_decide_eq_true (Option.filter_eq_some_iff.mp htag).2

/-- The step a record belongs to. -/
def Record.stepId (r : Record) : Option String := r.metadata.lookup "step_id"

/-- A step that has ended: its start and its end. -/
structure CompletedStep where
  startSeq : Int
  startEvent : AgentEvent
  terminalType : String
  terminalSeq : Int

/-- The derived fields of a task. -/
structure TaskProjection where
  taskId : String
  taskType : String := ""
  provenance : Provenance := {}
  body : Option Json := none
  priority : Int := 0
  effectivePolicy : Option EffectivePolicy := none
  state : TaskState := .created
  maxSeq : Int := 0
  maxTurnId : Int := 0
  bySeq : Finmap fun _ : Int => AgentEvent := ∅
  byTurnId : Finmap fun _ : Int => List Int := ∅
  activeTurns : Finset Int := ∅
  activeSteps : Finmap fun _ : String => Int × AgentEvent := ∅
  completedSteps : Finmap fun _ : String => CompletedStep := ∅
  latestSummary : Option Json := none
  summarizedUpToSeq : Int := 0
  summarizedUpToTurnId : Int := 0
  tokenStats : Finmap fun _ : String => TokenUsageStats := ∅
  recentTurnIds : List Int := []

/-- The task state after an event; a turn starts execution only from `ready` and `claimed`. -/
def stateAfter (s : TaskState) : EventType → TaskState
  | .turnStarted => if s = .ready ∨ s = .claimed then .executing else s
  | e => e.targetState.getD s

namespace TaskProjection

/-- The projection of an empty log. -/
def new (taskId : String) : TaskProjection := { taskId }

/-- Enter an event into the sequence and turn indexes. -/
def index (p : TaskProjection) (ae : AgentEvent) : TaskProjection :=
  let p := { p with maxSeq := max p.maxSeq ae.seq, bySeq := p.bySeq.insert ae.seq ae }
  match ae.turnId with
  | some tid =>
    { p with
      maxTurnId := max p.maxTurnId tid
      byTurnId := p.byTurnId.insert tid ((p.byTurnId.lookup tid).getD [] ++ [ae.seq])
      recentTurnIds := p.recentTurnIds ++ [tid] }
  | none => p

/-- Add the usage of a completed call to the counts of its model. -/
def addUsage (p : TaskProjection) (payload : Json) : TaskProjection :=
  match payload.get "usage" with
  | none => p
  | some usage =>
    let model := ((payload.index "model").asStr).getD "?"
    let entry := (p.tokenStats.lookup model).getD
      { model, callCount := 0, promptTokens := 0, completionTokens := 0, totalTokens := 0 }
    let count (key : String) : Int := ((usage.index key).asI64).getD 0
    { p with
      tokenStats := p.tokenStats.insert model
        { entry with
          callCount := wrapI64 (entry.callCount + 1)
          promptTokens := wrapI64 (entry.promptTokens + count "prompt_tokens")
          completionTokens := wrapI64 (entry.completionTokens + count "completion_tokens")
          totalTokens := wrapI64 (entry.totalTokens + count "total_tokens") } }

/-- Close the step of a terminal event, if it is active. -/
def closeStep (p : TaskProjection) (ae : AgentEvent) : TaskProjection :=
  match ae.stepId with
  | none => p
  | some sid =>
    match p.activeSteps.lookup sid with
    | none => p
    | some (startSeq, startEvent) =>
      { p with
        activeSteps := p.activeSteps.erase sid
        completedSteps := p.completedSteps.insert sid
          { startSeq, startEvent, terminalType := ae.eventType.asStr, terminalSeq := ae.seq } }

/-- The fields read off the creation of a task. -/
def applyCreated (p : TaskProjection) (payload : Json) : TaskProjection :=
  { p with
    taskType := ((payload.index "task_type").asStr).getD "?"
    provenance := ((payload.get "provenance").bind Provenance.ofJson).getD p.provenance
    body := (payload.get "body").filter fun v => !v.isNull
    priority := wrapI32 (((payload.index "priority").asI64).getD 0)
    effectivePolicy := ((payload.get "effective_policy").filter fun v => !v.isNull).bind EffectivePolicy.ofJson
    state := .created }

/-- The update of the head and of the active turns and steps. -/
def applyHead (p : TaskProjection) (ae : AgentEvent) : TaskProjection :=
  match ae.eventType with
  | .taskCreated => p.applyCreated ae.payload
  | .taskReady => { p with state := .ready }
  | .taskClaimed => { p with state := .claimed }
  | .taskBlocked => { p with state := .blocked }
  | .taskSucceeded => { p with state := .succeeded }
  | .taskFailed => { p with state := .failed }
  | .taskCanceled => { p with state := .canceled }
  | .turnStarted =>
    { p with
      state := if p.state = .ready ∨ p.state = .claimed then .executing else p.state
      activeTurns := p.activeTurns ∪ ae.turnId.toFinset }
  | .turnCompleted | .turnFailed | .turnCanceled | .turnBlocked =>
    { p with activeTurns := p.activeTurns \ ae.turnId.toFinset }
  | .llmInvoked | .toolInvoked =>
    match ae.stepId with
    | some sid => { p with activeSteps := p.activeSteps.insert sid (ae.seq, ae) }
    | none => p
  | .llmCompleted => (p.closeStep ae).addUsage ae.payload
  | .llmFailed | .toolCompleted | .toolFailed => p.closeStep ae
  | .summaryMarker =>
    { p with
      latestSummary := some ae.payload
      summarizedUpToSeq := ((ae.payload.index "summarized_up_to_seq").asI64).getD ae.seq
      summarizedUpToTurnId := ((ae.payload.index "summarized_up_to_turn_id").asI64).getD p.summarizedUpToTurnId }
  -- session events and queued turns are only indexed
  | .sessionStarted | .sessionEnded | .turnPending => p

/-- The event that the projection rebuilds from a record. -/
def eventOf (taskId : String) (et : EventType) (r : Record) : AgentEvent :=
  { taskId
    seq := wrapI64 r.seq
    turnId := r.turnId
    stepId := r.stepId
    eventType := et
    payload := r.content }

/-- Fold one record into the projection. -/
def apply (p : TaskProjection) (r : Record) : Except AppError TaskProjection :=
  match EventType.fromStr r.eventType with
  | none => .error (.invalidEventType r.eventType)
  | some et => .ok ((p.index (eventOf p.taskId et r)).applyHead (eventOf p.taskId et r))

/-- Fold one record, ignoring a refusal as every caller does. -/
def applyIgnoring (p : TaskProjection) (r : Record) : TaskProjection :=
  match p.apply r with
  | .ok p' => p'
  | .error _ => p

/-- The projection of a log. -/
def replay (taskId : String) (log : List Record) : TaskProjection := log.foldl applyIgnoring (new taskId)

/-! ## Queries -/

/-- The events of a turn, in order of arrival. -/
def turnEvents (p : TaskProjection) (turnId : Int) : List AgentEvent :=
  ((p.byTurnId.lookup turnId).getD []).filterMap p.bySeq.lookup

/-- The active turns, in the order in which the set is walked. -/
def incompleteTurns (p : TaskProjection) (order : List Int) : List IncompleteTurn :=
  (Lib.walk order p.activeTurns).filterMap fun tid => do
    let seqs ← p.byTurnId.lookup tid
    let e ← p.bySeq.lookup (← seqs.head?)
    return { turnId := tid
             redoGroup := ((e.payload.index "redo_group").asStr).getD "?"
             redoCount := wrapI32 (((e.payload.index "redo_count").asI64).getD 0) }

/-- The active steps, in the order in which the map is walked. -/
def incompleteSteps (p : TaskProjection) (order : List String) : List IncompleteStep :=
  (Lib.walk order p.activeSteps.keys).filterMap fun sid =>
    (p.activeSteps.lookup sid).map fun (seq, ev) =>
      { seq
        turnId := ev.turnId.getD 0
        stepId := sid
        startEventType := ev.eventType.asStr
        payload := ev.payload }

/-- The incomplete turns are walked once each. -/
theorem nodup_incompleteTurns (p : TaskProjection) (order : List Int) :
    ((p.incompleteTurns order).map IncompleteTurn.turnId).Nodup := by
  refine (Lib.nodup_walk order p.activeTurns).sublist ?_
  unfold incompleteTurns
  induction Lib.walk order p.activeTurns with
  | nil => exact List.Sublist.slnil
  | cons tid tids ih =>
    rw [List.filterMap_cons]
    split
    · exact ih.cons tid
    · next turn hturn =>
      obtain ⟨seqs, -, hturn⟩ := Option.bind_eq_some_iff.mp hturn
      obtain ⟨seq, -, hturn⟩ := Option.bind_eq_some_iff.mp hturn
      obtain ⟨e, -, hturn⟩ := Option.bind_eq_some_iff.mp hturn
      rw [← Option.some.inj hturn]
      exact ih.cons_cons tid

/-! ## What one record does -/

@[simp] theorem index_state (p : TaskProjection) (ae : AgentEvent) : (p.index ae).state = p.state := by
  unfold index
  cases ae.turnId <;> rfl

@[simp] theorem index_activeTurns (p : TaskProjection) (ae : AgentEvent) :
    (p.index ae).activeTurns = p.activeTurns := by
  unfold index
  cases ae.turnId <;> rfl

@[simp] theorem index_activeSteps (p : TaskProjection) (ae : AgentEvent) :
    (p.index ae).activeSteps = p.activeSteps := by
  unfold index
  cases ae.turnId <;> rfl

@[simp] theorem index_taskId (p : TaskProjection) (ae : AgentEvent) : (p.index ae).taskId = p.taskId := by
  unfold index
  cases ae.turnId <;> rfl

/-- The largest turn number after an event. -/
@[simp] theorem index_maxTurnId (p : TaskProjection) (ae : AgentEvent) :
    (p.index ae).maxTurnId = (ae.turnId.map (max p.maxTurnId)).getD p.maxTurnId := by
  unfold index
  cases ae.turnId <;> rfl

@[simp] theorem addUsage_state (p : TaskProjection) (v : Json) : (p.addUsage v).state = p.state := by
  unfold addUsage
  cases v.get "usage" <;> rfl

@[simp] theorem addUsage_activeTurns (p : TaskProjection) (v : Json) : (p.addUsage v).activeTurns = p.activeTurns := by
  unfold addUsage
  cases v.get "usage" <;> rfl

@[simp] theorem addUsage_taskId (p : TaskProjection) (v : Json) : (p.addUsage v).taskId = p.taskId := by
  unfold addUsage
  cases v.get "usage" <;> rfl

@[simp] theorem addUsage_maxTurnId (p : TaskProjection) (v : Json) : (p.addUsage v).maxTurnId = p.maxTurnId := by
  unfold addUsage
  cases v.get "usage" <;> rfl

/-- Closing a step touches the step maps only. -/
theorem closeStep_frame (p : TaskProjection) (ae : AgentEvent) : (p.closeStep ae).state = p.state ∧
    (p.closeStep ae).activeTurns = p.activeTurns ∧ (p.closeStep ae).taskId = p.taskId ∧
    (p.closeStep ae).maxTurnId = p.maxTurnId := by
  unfold closeStep
  split
  · exact ⟨rfl, rfl, rfl, rfl⟩
  · split <;> exact ⟨rfl, rfl, rfl, rfl⟩

@[simp] theorem applyHead_taskId (p : TaskProjection) (ae : AgentEvent) : (p.applyHead ae).taskId = p.taskId := by
  unfold applyHead
  split <;> first
    | rfl
    | (split <;> rfl)
    | simp [(closeStep_frame p ae).2.2.1]

/-- The state moves as the event type says. -/
@[simp] theorem applyHead_state (p : TaskProjection) (ae : AgentEvent) :
    (p.applyHead ae).state = stateAfter p.state ae.eventType := by
  unfold applyHead
  cases ae.eventType <;> first
    | rfl
    | (cases ae.stepId <;> rfl)
    | simp [(closeStep_frame p ae).1, stateAfter, EventType.targetState]

/-- Head updates do not touch the largest turn number. -/
@[simp] theorem applyHead_maxTurnId (p : TaskProjection) (ae : AgentEvent) :
    (p.applyHead ae).maxTurnId = p.maxTurnId := by
  unfold applyHead
  cases ae.eventType <;> first
    | rfl
    | (cases ae.stepId <;> rfl)
    | simp [(closeStep_frame p ae).2.2.2]

/-- The indexes by number and by turn. -/
def indexes (p : TaskProjection) : (Finmap fun _ : Int => AgentEvent) × (Finmap fun _ : Int => List Int) × List Int :=
  (p.bySeq, p.byTurnId, p.recentTurnIds)

/-- Head updates do not touch the indexes. -/
theorem applyHead_indexes (p : TaskProjection) (ae : AgentEvent) : (p.applyHead ae).indexes = p.indexes := by
  have hclose : (p.closeStep ae).indexes = p.indexes := by
    unfold closeStep
    split
    · rfl
    · split <;> rfl
  have husage : ∀ (q : TaskProjection) (v : Json), (q.addUsage v).indexes = q.indexes := by
    intro q v
    unfold addUsage
    cases v.get "usage" <;> rfl
  unfold applyHead
  cases ae.eventType <;> first
    | rfl
    | (cases ae.stepId <;> rfl)
    | simp only [hclose, husage]

@[simp] theorem applyHead_bySeq (p : TaskProjection) (ae : AgentEvent) : (p.applyHead ae).bySeq = p.bySeq :=
  congrArg Prod.fst (applyHead_indexes p ae)

@[simp] theorem applyHead_byTurnId (p : TaskProjection) (ae : AgentEvent) : (p.applyHead ae).byTurnId = p.byTurnId :=
  congrArg (fun x => x.2.1) (applyHead_indexes p ae)

@[simp] theorem applyHead_recentTurnIds (p : TaskProjection) (ae : AgentEvent) :
    (p.applyHead ae).recentTurnIds = p.recentTurnIds := congrArg (fun x => x.2.2) (applyHead_indexes p ae)

@[simp] theorem index_bySeq (p : TaskProjection) (ae : AgentEvent) :
    (p.index ae).bySeq = p.bySeq.insert ae.seq ae := by
  unfold index
  cases ae.turnId <;> rfl

@[simp] theorem index_recentTurnIds (p : TaskProjection) (ae : AgentEvent) :
    (p.index ae).recentTurnIds = p.recentTurnIds ++ ae.turnId.toList := by
  unfold index
  cases ae.turnId <;> simp

/-- The events of a turn after an event. -/
@[simp] theorem index_byTurnId (p : TaskProjection) (ae : AgentEvent) (tid : Int) :
    ((p.index ae).byTurnId.lookup tid).getD [] =
      (p.byTurnId.lookup tid).getD [] ++ if ae.turnId = some tid then [ae.seq] else [] := by
  unfold index
  cases hae : ae.turnId with
  | none => simp
  | some tid' =>
    by_cases htid : tid = tid'
    · subst htid
      simp
    · simp [Finmap.lookup_insert_of_ne _ htid, Ne.symm htid]

/-- Only an unknown event type is refused. -/
theorem apply_ok_iff (p : TaskProjection) (r : Record) :
    (∃ p', p.apply r = .ok p') ↔ (EventType.fromStr r.eventType).isSome = true := by
  unfold apply
  cases EventType.fromStr r.eventType <;> simp

theorem applyIgnoring_some {p : TaskProjection} {r : Record} {et : EventType}
    (h : EventType.fromStr r.eventType = some et) :
    p.applyIgnoring r = (p.index (eventOf p.taskId et r)).applyHead (eventOf p.taskId et r) := by
  simp [applyIgnoring, apply, h]

theorem applyIgnoring_none {p : TaskProjection} {r : Record} (h : EventType.fromStr r.eventType = none) :
    p.applyIgnoring r = p := by simp [applyIgnoring, apply, h]

/-- The largest turn number follows the turn tags. -/
theorem applyIgnoring_maxTurnId {p : TaskProjection} {r : Record} {et : EventType}
    (h : EventType.fromStr r.eventType = some et) :
    (p.applyIgnoring r).maxTurnId = (r.turnId.map (max p.maxTurnId)).getD p.maxTurnId := by
  rw [applyIgnoring_some h, applyHead_maxTurnId, index_maxTurnId]
  rfl

theorem applyIgnoring_taskId (p : TaskProjection) (r : Record) : (p.applyIgnoring r).taskId = p.taskId := by
  cases h : EventType.fromStr r.eventType with
  | none => rw [applyIgnoring_none h]
  | some et => rw [applyIgnoring_some h, applyHead_taskId, index_taskId]

@[simp] theorem replay_append (taskId : String) (log : List Record) (r : Record) :
    replay taskId (log ++ [r]) = (replay taskId log).applyIgnoring r := by simp [replay]

end TaskProjection

/-! ## The state as a function of the event types -/

/-- The effect of one record on the task state. -/
def stateStep (s : TaskState) (r : Record) : TaskState :=
  match EventType.fromStr r.eventType with
  | some e => stateAfter s e
  | none => s

/-- The task state of a log. -/
def stateOf (log : List Record) : TaskState := log.foldl stateStep .created

@[simp] theorem stateOf_append (log : List Record) (r : Record) : stateOf (log ++ [r]) = stateStep (stateOf log) r := by
  simp [stateOf]

namespace TaskProjection

theorem applyIgnoring_state (p : TaskProjection) (r : Record) : (p.applyIgnoring r).state = stateStep p.state r := by
  unfold stateStep
  cases h : EventType.fromStr r.eventType with
  | none => rw [applyIgnoring_none h]
  | some e => rw [applyIgnoring_some h, applyHead_state, index_state]; rfl

/-- The state of the projection depends on the event types of the log only. -/
theorem replay_state (taskId : String) (log : List Record) : (replay taskId log).state = stateOf log := by
  induction log using List.reverseRecOn with
  | nil => rfl
  | append_singleton log r ih => rw [replay_append, applyIgnoring_state, ih, stateOf_append]

end TaskProjection

/-! ## The last task event and the turn starts after it -/

/-- What the state of a task depends on: the target of the last task event, and whether a turn was started after it. -/
structure Standing where
  last : TaskState := .created
  started : Bool := false
  deriving DecidableEq

namespace Standing

/-- One more record. -/
def step (st : Standing) (r : Record) : Standing :=
  match EventType.fromStr r.eventType with
  | none => st
  | some .turnStarted => { st with started := true }
  | some e =>
    match e.targetState with
    | some t => { last := t }
    | none => st

/-- The state of a task with this standing. -/
def state (st : Standing) : TaskState :=
  if st.started = true ∧ (st.last = .ready ∨ st.last = .claimed) then .executing else st.last

end Standing

/-- The standing of a task after a sequence of records. -/
def standing (log : List Record) : Standing := log.foldl Standing.step {}

@[simp] theorem standing_append (log : List Record) (r : Record) :
    standing (log ++ [r]) = (standing log).step r := by simp [standing]

/-- No task event moves a task to `executing`. -/
theorem standing_last_ne (log : List Record) : (standing log).last ≠ .executing := by
  induction log using List.reverseRecOn with
  | nil => decide
  | append_singleton log r ih =>
    rw [standing_append]
    unfold Standing.step
    cases EventType.fromStr r.eventType with
    | none => exact ih
    | some e => cases e <;> first
      | exact ih
      | (intro h; cases h)

/-- **The task state is that of the standing.** -/
theorem stateOf_eq_standing (log : List Record) : stateOf log = (standing log).state := by
  induction log using List.reverseRecOn with
  | nil => rfl
  | append_singleton log r ih =>
    have hne := standing_last_ne log
    rw [stateOf_append, standing_append, ih]
    unfold stateStep Standing.step
    cases EventType.fromStr r.eventType with
    | none => rfl
    | some e =>
      cases hst : standing log with
      | mk last started =>
        rw [hst] at hne
        cases e <;> cases last <;> cases started <;> simp_all [Standing.state, stateAfter, EventType.targetState]

end Fixus
