import Fixus.Orchestrator.Machine
import Fixus.Store.Tracking
import Fixus.Store.Unfinished

/-!
# The redo queue

The recovery of a task walks the turns that have not ended: one with an unfinished step that must not be repeated is
failed, with these steps; the others are queued to be redone.

- `recoverTask`, `recoverTask_proceeds`: the recovery as one call, and as the handler makes it when nothing interrupts
  it;
- `Appended`: the failures that a recovery writes, and what they leave alone;
- `recoverEach_spec`, `recoverEach_first`: what is queued is not blocked, and what is not blocked can be queued.
-/

namespace Fixus

open Lib Lib.Eff BrokerStore TaskProjection

/-! ## Recovery as one call -/

section Programs

variable {σ : Type} (store : EventStore σ)

/-- The unfinished steps that must not be repeated fail. -/
def skipSteps (taskId : String) (turnId : Int) : List IncompleteStep → StoreM σ Unit
  | [] => pure ()
  | step :: steps => do
    (Shared.skipStep taskId turnId step).run store
    skipSteps taskId turnId steps

/-- Those steps fail, and then their turn. -/
def failTurnWithNonIdempotentBlock (taskId : String) (turnId : Int) (blocking : List IncompleteStep) :
    StoreM σ Unit := do
  skipSteps store taskId turnId blocking
  (Op.failTurn taskId turnId "recovery_blocked" ("Recovery blocked: " ++ toString blocking.length ++
    " non-idempotent step(s) require human intervention") none (some .applicationError)).run store

/-- The loop over the incomplete turns: the redo queue. -/
def recoverEach (taskId : String) (stepOrder : Int → List String) : List IncompleteTurn → StoreM σ (List RedoContext)
  | [] => pure []
  | turn :: turns => do
    match ← recoverTurn store taskId turn (stepOrder turn.turnId) with
    | (.safeToRedo _ _ _ _, ctx) => do
      let queue ← recoverEach taskId stepOrder turns
      pure (ctx.toList ++ queue)
    | (.requiresHumanIntervention turnId _ blocking, _) => do
      failTurnWithNonIdempotentBlock store taskId turnId blocking
      recoverEach taskId stepOrder turns

/-- Recover a task: the turns to be redone; the others are failed. -/
def recoverTask (taskId : String) (turnOrder : List Int) (stepOrder : Int → List String) :
    StoreM σ (List RedoContext) := do
  let turns ← store.getIncompleteTurns taskId turnOrder
  recoverEach store taskId stepOrder turns

end Programs

/-! ## The call as a handler -/

/-- What a handler that is not interrupted executes, in environments of any kind. -/
inductive Proceeds (cfg : Config) : Shared → List Instr → Shared → List Instr → Prop
  | refl (s : Shared) (stack : List Instr) : Proceeds cfg s stack s stack
  | step {s s' : Shared} {x : Instr} {rest stack : List Instr} (env : Env)
      (h : Proceeds cfg (s.exec cfg env x).shared ((s.exec cfg env x).next ++ rest) s' stack) :
      Proceeds cfg s (x :: rest) s' stack

section Handler

variable {cfg : Config} {sh : Shared} {taskId : String} {k : Int} {st : BrokerStore} {turns : List IncompleteTurn}
  {redo : List RedoContext} {rest : List Instr}

theorem Proceeds.trans {s s' s'' : Shared} {l l' l'' : List Instr} (h : Proceeds cfg s l s' l')
    (h' : Proceeds cfg s' l' s'' l'') : Proceeds cfg s l s'' l'' := by
  induction h with
  | refl => exact h'
  | step env _ ih => exact .step env (ih h')

theorem on_eq {α : Type} {m : StoreM BrokerStore α} {r : Except AppError α} (h : m sh.store = (r, st))
    (f : Except AppError α → Shared → Out) : sh.on m f = f r { sh with store := st } := by
  unfold Shared.on
  rw [h]

theorem calling_eq {c : Call} (h : c.run brokerEventStore sh.store = (.ok (), st))
    (f : Except AppError Unit → Shared → Out) :
    sh.calling c f =
      { f (.ok ()) { sh with store := st } with acts := c.acts ++ (f (.ok ()) { sh with store := st }).acts } := by
  unfold Shared.calling
  simp only [h]

/-- A blocked turn is the turn that was decided about. -/
theorem recoverTurn_blocked {turn : IncompleteTurn} {order : List String} {group : String}
    {blocking : List IncompleteStep} {ctx : Option RedoContext} {s : BrokerStore}
    (h : recoverTurn brokerEventStore taskId turn order s =
      (.ok (.requiresHumanIntervention k group blocking, ctx), st)) :
    k = turn.turnId := by
  unfold recoverTurn decideTurnRecovery at h
  obtain ⟨decision, s₁, hdecision, h⟩ := bind_eq_ok.mp h
  obtain ⟨events, s₂, -, hdecision⟩ := bind_eq_ok.mp hdecision
  obtain ⟨all, s₃, -, hdecision⟩ := bind_eq_ok.mp hdecision
  cases decision with
  | safeToRedo _ _ _ _ =>
    obtain ⟨ctx', s₄, -, h⟩ := bind_eq_ok.mp h
    cases h
  | requiresHumanIntervention k' group' blocking' =>
    have hk := congrArg Prod.fst h
    have heq := congrArg Prod.fst hdecision
    injection hk with hk
    injection heq with heq
    injection hk with hk
    injection hk with hk
    unfold decideRecoveryFromSteps at heq
    by_cases hb : ((all.filter fun s => s.turnId = turn.turnId).filter IncompleteStep.blocks).isEmpty = true
    · simp only [if_pos hb] at heq
      cases heq
    · simp only [if_neg hb] at heq
      injection heq with heq
      rw [← hk, ← heq]

/-- The steps fail one after the other. -/
theorem skipSteps_proceeds {steps : List IncompleteStep} {n : Nat}
    (h : skipSteps brokerEventStore taskId k steps sh.store = (.ok (), st)) :
    Proceeds cfg sh (.skipSteps taskId k steps n turns redo :: rest) { sh with store := st }
      (.failBlocked taskId k n turns redo :: rest) := by
  induction steps generalizing sh with
  | nil =>
    cases h
    exact .step {} (.refl _ _)
  | cons step steps ih =>
    obtain ⟨u, s₁, hskip, h⟩ := bind_eq_ok.mp h
    have hcall : (Call.op (Shared.skipStep taskId k step)).run brokerEventStore sh.store = (.ok (), s₁) := hskip
    refine .step {} ?_
    simp only [Shared.exec, Shared.skipSteps, calling_eq hcall]
    exact ih h

/-- A blocked turn is failed with its steps. -/
theorem failTurn_proceeds {blocking : List IncompleteStep}
    (h : failTurnWithNonIdempotentBlock brokerEventStore taskId k blocking sh.store = (.ok (), st)) :
    Proceeds cfg sh (.skipSteps taskId k blocking blocking.length turns redo :: rest) { sh with store := st }
      (.recoverTurns taskId turns redo :: rest) := by
  obtain ⟨u, s₁, hskip, hfail⟩ := bind_eq_ok.mp h
  refine (skipSteps_proceeds hskip).trans ?_
  have hcall : (Call.op (.failTurn taskId k "recovery_blocked" ("Recovery blocked: " ++ toString blocking.length ++
    " non-idempotent step(s) require human intervention") none (some .applicationError))).run brokerEventStore
      ({ sh with store := s₁ } : Shared).store = (.ok (), st) := hfail
  refine .step {} ?_
  simp only [Shared.exec, Shared.failBlocked, calling_eq hcall]
  exact .refl _ _

/-- The loop over the turns, as the handler makes it. -/
theorem recoverEach_proceeds {order : Int → List String} {queue : List RedoContext}
    (h : recoverEach brokerEventStore taskId order turns sh.store = (.ok queue, st)) :
    Proceeds cfg sh (.recoverTurns taskId turns redo :: rest) { sh with store := st }
      (.redoAll taskId (redo ++ queue) :: rest) := by
  induction turns generalizing sh redo queue with
  | nil =>
    cases h
    rw [List.append_nil]
    exact .step {} (.refl _ _)
  | cons turn turns ih =>
    obtain ⟨⟨decision, ctx⟩, s₁, hturn, h⟩ := bind_eq_ok.mp h
    cases decision with
    | safeToRedo k group count steps =>
      obtain ⟨queue', s₂, hrest, h⟩ := bind_eq_ok.mp h
      cases h
      refine .step { stepOrder := order turn.turnId } ?_
      simp only [Shared.exec, Shared.recoverTurns, on_eq hturn]
      rw [← List.append_assoc]
      exact ih hrest
    | requiresHumanIntervention k group blocking =>
      obtain ⟨u, s₂, hfail, hrest⟩ := bind_eq_ok.mp h
      have hk := recoverTurn_blocked hturn
      subst hk
      refine .step { stepOrder := order turn.turnId } ?_
      simp only [Shared.exec, Shared.recoverTurns, on_eq hturn]
      have hfail₁ : failTurnWithNonIdempotentBlock brokerEventStore taskId turn.turnId blocking
          ({ sh with store := s₁ } : Shared).store = (.ok (), s₂) := hfail
      have hrest₂ : recoverEach brokerEventStore taskId order turns ({ sh with store := s₂ } : Shared).store =
          (.ok queue, st) := hrest
      exact (failTurn_proceeds hfail₁).trans (ih hrest₂)

/-- **The handler of a recovery that is not interrupted gets to the same queue.** -/
theorem recoverTask_proceeds {turnOrder : List Int} {stepOrder : Int → List String} {queue : List RedoContext}
    (h : recoverTask brokerEventStore taskId turnOrder stepOrder sh.store = (.ok queue, st)) :
    Proceeds cfg sh (.recoverTask taskId :: rest) { sh with store := st } (.redoAll taskId queue :: rest) := by
  obtain ⟨turns, s₁, hturns, h⟩ := bind_eq_ok.mp h
  refine .step { turnOrder } ?_
  simp only [Shared.exec, Shared.recoverTask, on_eq hturns]
  exact recoverEach_proceeds h

end Handler

/-! ## Turns that are blocked -/

/-- The tool that an event names. -/
def invokedTool (e : AgentEvent) : String := ((e.payload.get "tool_name").bind Json.asStr).getD "unknown"

/-- A step of the turn is unfinished whose tool is neither read-only nor idempotent. -/
def Dangling (p : TaskProjection) (k : Int) : Prop :=
  ∃ sid v, p.activeSteps.lookup sid = some v ∧ v.2.turnId.getD 0 = k ∧
    classifyTool (invokedTool v.2) = .nonIdempotentWrite

/-! ## Writes of the recovery -/

variable {taskId : String} {k : Int} {s s' : BrokerStore}

/-- The type of an event and its tags. -/
structure Mark where
  eventType : EventType
  turnId : Option Int := none
  stepId : Option String := none

/-- The record is one of an event with the mark. -/
def Mark.Tags (m : Mark) (r : Record) : Prop :=
  ∃ (e : AgentEvent) (seq : Nat), e.eventType = m.eventType ∧ e.turnId = m.turnId ∧ e.stepId = m.stepId ∧
    r = recordOf seq e

/-- The failure of a step or of a turn. -/
def Mark.Fails (m : Mark) : Prop := m.eventType = .toolFailed ∨ m.eventType = .turnFailed

/-- Between the two states the log of the task has grown by records with the marks, and a read sees them. -/
structure Appended (taskId : String) (marks : List Mark) (s s' : BrokerStore) : Prop where
  healthy : Healthy s'
  produces : s.produces = [] → s'.produces = []
  records : ∃ rs, s'.log taskId = s.log taskId ++ rs ∧ s'.view taskId = rs.foldl applyIgnoring (s.view taskId) ∧
    List.Forall₂ Mark.Tags marks rs

/-- The failures that a blocked turn is given: of its blocking steps, and of itself. -/
def skipMarks (k : Int) (blocking : List IncompleteStep) : List Mark :=
  blocking.map fun step => { eventType := .toolFailed, turnId := some k, stepId := some step.stepId }

def blockMarks (k : Int) (blocking : List IncompleteStep) : List Mark :=
  skipMarks k blocking ++ [{ eventType := .turnFailed, turnId := some k }]

theorem blockMarks_fail {blocking : List IncompleteStep} {m : Mark} (h : m ∈ blockMarks k blocking) : m.Fails := by
  rcases List.mem_append.mp h with h | h
  · obtain ⟨step, -, rfl⟩ := List.mem_map.mp h
    exact Or.inl rfl
  · rw [List.mem_singleton.mp h]
    exact Or.inr rfl

theorem Appended.refl (hs : Healthy s) : Appended taskId [] s s :=
  ⟨hs, id, [], by simp, rfl, .nil⟩

theorem Appended.trans {marks marks' : List Mark} {t : BrokerStore} (h : Appended taskId marks s s')
    (h' : Appended taskId marks' s' t) : Appended taskId (marks ++ marks') s t := by
  obtain ⟨rs, hlog, hview, htags⟩ := h.records
  obtain ⟨rs', hlog', hview', htags'⟩ := h'.records
  refine ⟨h'.healthy, h'.produces ∘ h.produces, rs ++ rs', ?_, ?_, List.rel_append htags htags'⟩
  · rw [hlog', hlog, List.append_assoc]
  · rw [hview', hview, List.foldl_append]

/-- A read before it appends nothing. -/
theorem Appended.after {marks : List Mark} {t : BrokerStore} (h : Appended taskId marks s' t)
    (hl : Loaded taskId s s') : Appended taskId marks s t := by
  obtain ⟨rs, hlog, hview, htags⟩ := h.records
  refine ⟨h.healthy, fun hp => h.produces (hl.produces.trans hp), rs, ?_, hl.view ▸ hview, htags⟩
  rw [hlog]
  exact congrArg (· ++ rs) (congrFun hl.streams taskId)

/-- A record touches no step but its own. -/
theorem applyIgnoring_activeSteps {p : TaskProjection} {e : AgentEvent} {seq : Nat} {sid : String}
    (hsid : e.stepId ≠ some sid) :
    (p.applyIgnoring (recordOf seq e)).activeSteps.lookup sid = p.activeSteps.lookup sid := by
  have hfrom : EventType.fromStr (recordOf seq e).eventType = some e.eventType := EventType.fromStr_asStr _
  have hstep : (eventOf p.taskId e.eventType (recordOf seq e)).stepId = e.stepId := eventMeta_stepId e
  rw [applyIgnoring_some hfrom, applyHead_activeSteps, hstep, if_neg fun hs => hsid hs.1, if_neg fun hs => hsid hs.1,
    index_activeSteps]

/-- The steps without a mark are as active as before. -/
theorem Appended.steps {marks : List Mark} {sid : String} (h : Appended taskId marks s s')
    (hsid : ∀ m ∈ marks, m.stepId ≠ some sid) :
    (s'.view taskId).activeSteps.lookup sid = (s.view taskId).activeSteps.lookup sid := by
  obtain ⟨rs, -, hview, htags⟩ := h.records
  rw [hview]
  clear hview h
  generalize s.view taskId = p
  induction htags generalizing p with
  | nil => rfl
  | cons hr _ ih =>
    obtain ⟨e, seq, -, -, hstep, rfl⟩ := hr
    obtain ⟨hm, hms⟩ := List.forall_mem_cons.mp hsid
    exact (ih hms _).trans (applyIgnoring_activeSteps (hstep ▸ hm))

/-- The write of a failure. -/
theorem writeEvent_failure {e : AgentEvent} (hs : Healthy s) (h : e.eventType = .toolFailed ∨ e.eventType = .turnFailed)
    (hscope : e.validateScope = .ok ()) :
    wp (writeEvent e)
      (fun _ s' => Appended e.taskId [{ eventType := e.eventType, turnId := e.turnId, stepId := e.stepId }] s s')
      (fun _ _ => s.produces ≠ []) s := by
  have hacc : Accepted e s := by
    refine ⟨hscope, ?_, ?_⟩
    · exact validatePayloadRequiredFields_of_nil _ (by rcases h with h | h <;> rw [h] <;> rfl)
    · rcases h with h | h <;> rw [h] <;> rfl
  refine wp_mono (writeEvent_spec e s) (fun n s' hs' => ?_) fun err s' hs' hp => ?_
  · obtain ⟨-, seq, -, -, hwrote⟩ := hs'
    exact ⟨hwrote.healthy hs, fun hp => by rw [hwrote.produces, hp]; rfl, [recordOf seq e], wrote_log hwrote,
      view_of_wrote hwrote, .cons ⟨e, seq, rfl, rfl, rfl, rfl⟩ .nil⟩
  · refine hs'.2 ⟨hacc, (s.log e.taskId).length + 1, ?_⟩
    unfold nextReply BrokerStore.log
    rw [hp]

/-- The same through the service. -/
theorem writeAs_failure {e : AgentEvent} (hs : Healthy s) (h : e.eventType = .toolFailed ∨ e.eventType = .turnFailed)
    (hscope : e.validateScope = .ok ()) : wp (Op.discard (Service.writeAs brokerEventStore e))
      (fun _ s' => Appended e.taskId [{ eventType := e.eventType, turnId := e.turnId, stepId := e.stepId }] s s')
      (fun _ _ => s.produces ≠ []) s := by
  rw [wp_discard]
  unfold Service.writeAs
  rw [wp_bind]
  exact writeEvent_failure hs h hscope

/-- The loop over the blocking steps. -/
theorem skipSteps_spec (hs : Healthy s) (blocking : List IncompleteStep) :
    wp (skipSteps brokerEventStore taskId k blocking) (fun _ s' => Appended taskId (skipMarks k blocking) s s')
      (fun _ _ => s.produces ≠ []) s := by
  induction blocking generalizing s with
  | nil => exact Appended.refl hs
  | cons step blocking ih =>
    unfold skipSteps
    rw [wp_bind]
    refine wp_mono (writeAs_failure hs ?_ ?_) (fun _ s₁ h₁ => ?_) fun _ _ h => h
    · exact Or.inl rfl
    · rfl
    refine wp_mono (ih h₁.healthy) (fun _ s₂ h₂ => h₁.trans h₂) fun _ _ hp he => hp (h₁.produces he)

/-- A blocked turn is failed with its steps. -/
theorem failTurnWithNonIdempotentBlock_spec (hs : Healthy s) (blocking : List IncompleteStep) :
    wp (failTurnWithNonIdempotentBlock brokerEventStore taskId k blocking)
      (fun _ s' => Appended taskId (blockMarks k blocking) s s') (fun _ _ => s.produces ≠ []) s := by
  unfold failTurnWithNonIdempotentBlock
  rw [wp_bind]
  refine wp_mono (skipSteps_spec hs blocking) (fun _ s₁ h₁ => ?_) fun _ _ h => h
  refine wp_mono (writeAs_failure h₁.healthy ?_ ?_) (fun _ s₂ h₂ => ?_) fun _ _ hp he => hp (h₁.produces he)
  · exact Or.inr rfl
  · rfl
  exact h₁.trans h₂

/-! ## The decision about a turn -/

/-- The unfinished steps of a turn. -/
def stepsOf (p : TaskProjection) (order : List String) (k : Int) : List IncompleteStep :=
  (p.incompleteSteps order).filter fun step => step.turnId = k

/-- Every incomplete turn is active. -/
theorem active_of_incomplete {p : TaskProjection} {order : List Int}
    (h : k ∈ (p.incompleteTurns order).map IncompleteTurn.turnId) : k ∈ p.activeTurns := by
  obtain ⟨turn, hturn, rfl⟩ := List.mem_map.mp h
  obtain ⟨tid, htid, hturn⟩ := List.mem_filterMap.mp hturn
  obtain ⟨seqs, -, hturn⟩ := Option.bind_eq_some_iff.mp hturn
  obtain ⟨seq, -, hturn⟩ := Option.bind_eq_some_iff.mp hturn
  obtain ⟨e, -, hturn⟩ := Option.bind_eq_some_iff.mp hturn
  rw [← Option.some.inj hturn]
  exact mem_walk.mp htid

/-- An unfinished step, as the projection has it. -/
theorem mem_stepsOf {p : TaskProjection} {order : List String} {step : IncompleteStep} (h : step ∈ stepsOf p order k) :
    ∃ v, p.activeSteps.lookup step.stepId = some v ∧ v.2.turnId.getD 0 = k ∧ step.payload = v.2.payload := by
  obtain ⟨hmem, hk⟩ := List.mem_filter.mp h
  obtain ⟨sid, -, hsid⟩ := List.mem_filterMap.mp hmem
  obtain ⟨v, hv, rfl⟩ := Option.map_eq_some_iff.mp hsid
  exact ⟨v, hv, of_decide_eq_true hk, rfl⟩

/-- A turn is blocked exactly if one of its unfinished steps is. -/
theorem dangling_iff {p : TaskProjection} (order : List String) :
    Dangling p k ↔ ∃ step ∈ stepsOf p order k, step.blocks = true := by
  constructor
  · rintro ⟨sid, v, hv, hk, hclass⟩
    refine ⟨⟨v.1, v.2.turnId.getD 0, sid, v.2.eventType.asStr, v.2.payload⟩,
      List.mem_filter.mpr ⟨?_, decide_eq_true hk⟩,
      decide_eq_true hclass⟩
    refine List.mem_filterMap.mpr ⟨sid, mem_walk.mpr (Finmap.mem_keys.mpr (Finmap.mem_of_lookup_eq_some hv)), ?_⟩
    rw [hv]
    rfl
  · rintro ⟨step, hmem, hblocks⟩
    obtain ⟨v, hv, hk, hpayload⟩ := mem_stepsOf hmem
    refine ⟨step.stepId, v, hv, hk, ?_⟩
    have hclass : classifyTool step.toolName = .nonIdempotentWrite := of_decide_eq_true hblocks
    unfold IncompleteStep.toolName at hclass
    rwa [hpayload] at hclass

/-- The recovery of a turn on a healthy broker. -/
theorem recoverTurn_healthy (hs : Healthy s) (turn : IncompleteTurn) (order : List String) :
    wp (recoverTurn brokerEventStore taskId turn order)
      (fun a s' => Loaded taskId s s' ∧ a =
        match decideRecoveryFromSteps turn (stepsOf (s.view taskId) order turn.turnId) with
        | .safeToRedo k group count steps => (.safeToRedo k group count steps,
            buildRedoContextFromEvents turn ((s.view taskId).turnEvents turn.turnId))
        | .requiresHumanIntervention k group blocking => (.requiresHumanIntervention k group blocking, none))
      (fun _ _ => False) s := by
  unfold recoverTurn decideTurnRecovery
  rw [wp_bind, wp_bind]
  refine wp_mono (withProjection_healthy hs _) (fun events s₁ h₁ => ?_) fun _ _ h => h
  rw [wp_bind]
  refine wp_mono (withProjection_healthy h₁.2.healthy _) (fun all s₂ h₂ => ?_) fun _ _ h => h
  obtain ⟨rfl, hloaded₂⟩ := h₂
  have hloaded := h₁.2.trans hloaded₂
  rw [wp_pure, h₁.2.view]
  unfold stepsOf
  generalize decideRecoveryFromSteps turn _ = decision
  cases decision with
  | requiresHumanIntervention k group blocking => exact ⟨hloaded, rfl⟩
  | safeToRedo k group count steps =>
    unfold buildRedoContext
    rw [wp_bind, wp_bind]
    refine wp_mono (withProjection_healthy hloaded.healthy _) (fun events' s₃ h₃ => ?_) fun _ _ h => h
    obtain ⟨rfl, hloaded₃⟩ := h₃
    rw [wp_pure, wp_pure, hloaded.view]
    exact ⟨hloaded.trans hloaded₃, rfl⟩

/-- A turn without a blocking step is redone. -/
theorem decide_not_dangling {p : TaskProjection} {turn : IncompleteTurn} {order : List String}
    (h : ¬ Dangling p turn.turnId) :
    decideRecoveryFromSteps turn (stepsOf p order turn.turnId) =
      .safeToRedo turn.turnId turn.redoGroup turn.redoCount (stepsOf p order turn.turnId) := by
  refine (decideRecoveryFromSteps_safe turn _).mpr fun step hstep => ?_
  by_contra hb
  exact h ((dangling_iff order).mpr ⟨step, hstep, by simpa using hb⟩)

/-- A turn with a blocking step is failed. -/
theorem decide_dangling {p : TaskProjection} {turn : IncompleteTurn} {order : List String}
    (h : Dangling p turn.turnId) :
    decideRecoveryFromSteps turn (stepsOf p order turn.turnId) =
      .requiresHumanIntervention turn.turnId turn.redoGroup
        ((stepsOf p order turn.turnId).filter IncompleteStep.blocks) := by
  obtain ⟨step, hstep, hb⟩ := (dangling_iff order).mp h
  have hne : ((stepsOf p order turn.turnId).filter IncompleteStep.blocks).isEmpty = false := by
    rw [List.isEmpty_eq_false_iff_exists_mem]
    exact ⟨step, List.mem_filter.mpr ⟨hstep, hb⟩⟩
  simp [decideRecoveryFromSteps, hne]

/-- The steps that block a turn are active steps of it. -/
theorem blockMarks_step {p : TaskProjection} {order : List String} {m : Mark} {sid : String} {v : Int × AgentEvent}
    (h : m ∈ blockMarks k ((stepsOf p order k).filter IncompleteStep.blocks)) (hsid : m.stepId = some sid)
    (hv : p.activeSteps.lookup sid = some v) : v.2.turnId.getD 0 = k := by
  rcases List.mem_append.mp h with h | h
  · obtain ⟨step, hstep, rfl⟩ := List.mem_map.mp h
    obtain rfl := Option.some.inj hsid
    obtain ⟨v', hv', hk, -⟩ := mem_stepsOf (List.mem_of_mem_filter hstep)
    rw [hv] at hv'
    rwa [Option.some.inj hv']
  · rw [List.mem_singleton.mp h] at hsid
    cases hsid

/-- Failing one turn leaves the steps of the others active. -/
theorem Appended.other_steps {order : List String} {sid : String} {v : Int × AgentEvent}
    (h : Appended taskId (blockMarks k ((stepsOf (s.view taskId) order k).filter IncompleteStep.blocks)) s s')
    (hv : (s.view taskId).activeSteps.lookup sid = some v) (hk : v.2.turnId.getD 0 ≠ k) :
    (s'.view taskId).activeSteps.lookup sid = some v :=
  (h.steps fun _ hm hsid => hk (blockMarks_step hm hsid hv)).trans hv

/-! ## The redo queue -/

/-- The loop over the turns: what is queued is one of them, and no step blocks it. -/
theorem recoverEach_spec (order : Int → List String) {turns : List IncompleteTurn}
    (hn : (turns.map IncompleteTurn.turnId).Nodup) (hs : Healthy s) :
    wp (recoverEach brokerEventStore taskId order turns)
      (fun queue _ => ∀ r ∈ queue, r.turnId ∈ turns.map IncompleteTurn.turnId ∧ ¬ Dangling (s.view taskId) r.turnId)
      (fun _ _ => s.produces ≠ []) s := by
  induction turns generalizing s with
  | nil => exact fun r hr => absurd hr List.not_mem_nil
  | cons turn turns ih =>
    obtain ⟨hnew, hn⟩ := List.nodup_cons.mp hn
    unfold recoverEach
    rw [wp_bind]
    refine wp_mono (recoverTurn_healthy hs turn (order turn.turnId)) (fun a s₁ h₁ => ?_) fun _ _ h => h.elim
    obtain ⟨hloaded, ha⟩ := h₁
    by_cases hd : Dangling (s.view taskId) turn.turnId
    · -- the turn is failed, the others are as blocked as before
      rw [decide_dangling hd] at ha
      subst ha
      rw [wp_bind]
      refine wp_mono (failTurnWithNonIdempotentBlock_spec hloaded.healthy _) (fun _ s₂ h₂ => ?_)
        fun _ _ hp he => hp (hloaded.produces.trans he)
      refine wp_mono (ih hn h₂.healthy) (fun queue _ hq r hr => ?_)
        fun _ _ hp he => hp (h₂.produces (hloaded.produces.trans he))
      obtain ⟨hmem, hfree⟩ := hq r hr
      refine ⟨List.mem_cons_of_mem _ hmem, fun ⟨sid, v, hv, hk, hclass⟩ => hfree ⟨sid, v, ?_, hk, hclass⟩⟩
      rw [← hloaded.view] at hv h₂
      exact h₂.other_steps hv fun heq => hnew (by rw [← heq, hk]; exact hmem)
    · rw [decide_not_dangling hd] at ha
      subst ha
      rw [wp_bind]
      refine wp_mono (ih hn hloaded.healthy) (fun queue s₂ hq r hr => ?_)
        fun _ _ hp he => hp (hloaded.produces.trans he)
      rcases List.mem_append.mp hr with hr | hr
      · obtain ⟨e, -, rfl⟩ := Option.map_eq_some_iff.mp (Option.mem_toList.mp hr)
        exact ⟨List.mem_cons_self, hd⟩
      · obtain ⟨hmem, hfree⟩ := hq r hr
        rw [hloaded.view] at hfree
        exact ⟨List.mem_cons_of_mem _ hmem, hfree⟩

/-- The first turn is queued, unless a step blocks it or it was never started. -/
theorem recoverEach_first (order : Int → List String) {turn : IncompleteTurn} {turns : List IncompleteTurn}
    (hn : (turns.map IncompleteTurn.turnId).Nodup) (hs : Healthy s) (hp : s.produces = [])
    (hfree : ¬ Dangling (s.view taskId) turn.turnId) {e : AgentEvent}
    (he : findTurnStarted ((s.view taskId).turnEvents turn.turnId) = some e) :
    wp (recoverEach brokerEventStore taskId order (turn :: turns)) (fun queue _ => ∃ r ∈ queue, r.turnId = turn.turnId)
      (fun _ _ => False) s := by
  unfold recoverEach
  rw [wp_bind]
  refine wp_mono (recoverTurn_healthy hs turn (order turn.turnId)) (fun a s₁ h₁ => ?_) fun _ _ h => h
  obtain ⟨hloaded, ha⟩ := h₁
  rw [decide_not_dangling hfree] at ha
  subst ha
  rw [wp_bind]
  refine wp_mono (recoverEach_spec order hn hloaded.healthy) (fun queue s₂ _ => ?_)
    fun _ _ hp' => hp' (hloaded.produces.trans hp)
  refine ⟨⟨turn.turnId, turn.redoGroup, wrapI32 (turn.redoCount + 1), startedText e "user_input" ""⟩, ?_, rfl⟩
  refine List.mem_append_left _ (Option.mem_toList.mpr ?_)
  simp [buildRedoContextFromEvents, he]

end Fixus
