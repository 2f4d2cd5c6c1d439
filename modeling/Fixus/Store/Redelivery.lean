import Fixus.Lib.Groups
import Fixus.Store.Projection

/-!
# Projections under redelivery and reordering

A schedule delivers the records of a log to `TaskProjection.apply`, each of them at least once and in any order.

- `sameTracks_filter`: the indexes, counts, turns and steps of a projection come from its tracked records alone;
- `redelivered_iff`: a schedule leads to the projection of the log exactly if it delivers the tracked records once each
  and in order, and leaves the task in the same standing;
- `redelivered_completion`: a record that is delivered twice.
-/

namespace Fixus

open Lib TaskProjection

/-! ## What a projection keeps track of -/

/-- The projections agree on the token counts, the events of the turns, and the turns and steps. -/
structure SameTracks (p q : TaskProjection) : Prop where
  taskId : p.taskId = q.taskId
  tokenStats : p.tokenStats = q.tokenStats
  byTurnId : p.byTurnId = q.byTurnId
  recentTurnIds : p.recentTurnIds = q.recentTurnIds
  activeTurns : p.activeTurns = q.activeTurns
  activeSteps : p.activeSteps = q.activeSteps
  completedSteps : p.completedSteps = q.completedSteps

/-- They also agree on the task state. -/
structure SameView (p q : TaskProjection) : Prop extends SameTracks p q where
  state : p.state = q.state

/-- The record belongs to a turn, or to a call of a model or a tool. -/
def tracked (r : Record) : Bool :=
  match EventType.fromStr r.eventType with
  | none => false
  | some e => r.turnId.isSome || e.isStepStart || e.isStepTerminal

namespace SameTracks

theorem refl (p : TaskProjection) : SameTracks p p := ⟨rfl, rfl, rfl, rfl, rfl, rfl, rfl⟩

theorem trans {p q q' : TaskProjection} (h : SameTracks p q) (h' : SameTracks q q') : SameTracks p q' :=
  ⟨h.taskId.trans h'.taskId, h.tokenStats.trans h'.tokenStats, h.byTurnId.trans h'.byTurnId,
    h.recentTurnIds.trans h'.recentTurnIds, h.activeTurns.trans h'.activeTurns, h.activeSteps.trans h'.activeSteps,
    h.completedSteps.trans h'.completedSteps⟩

theorem symm {p q : TaskProjection} (h : SameTracks p q) : SameTracks q p :=
  ⟨h.taskId.symm, h.tokenStats.symm, h.byTurnId.symm, h.recentTurnIds.symm, h.activeTurns.symm, h.activeSteps.symm,
    h.completedSteps.symm⟩

variable {p q : TaskProjection}

theorem index (h : SameTracks p q) (ae : AgentEvent) : SameTracks (p.index ae) (q.index ae) := by
  unfold TaskProjection.index
  cases ae.turnId with
  | none => exact ⟨h.taskId, h.tokenStats, h.byTurnId, h.recentTurnIds, h.activeTurns, h.activeSteps, h.completedSteps⟩
  | some tid =>
    exact ⟨h.taskId, h.tokenStats, by simp only [h.byTurnId], by simp only [h.recentTurnIds],
      h.activeTurns, h.activeSteps,
      h.completedSteps⟩

theorem closeStep (h : SameTracks p q) (ae : AgentEvent) : SameTracks (p.closeStep ae) (q.closeStep ae) := by
  unfold TaskProjection.closeStep
  rw [h.activeSteps]
  split
  · exact h
  · split
    · exact h
    · exact ⟨h.taskId, h.tokenStats, h.byTurnId, h.recentTurnIds, h.activeTurns, rfl, by simp only [h.completedSteps]⟩

theorem addUsage (h : SameTracks p q) (payload : Json) : SameTracks (p.addUsage payload) (q.addUsage payload) := by
  unfold TaskProjection.addUsage
  rw [h.tokenStats]
  cases payload.get "usage" with
  | none => exact h
  | some usage => exact ⟨h.taskId, rfl, h.byTurnId, h.recentTurnIds, h.activeTurns, h.activeSteps, h.completedSteps⟩

theorem applyHead (h : SameTracks p q) (ae : AgentEvent) : SameTracks (p.applyHead ae) (q.applyHead ae) := by
  unfold TaskProjection.applyHead
  cases ae.eventType with
  | turnStarted => exact { h with activeTurns := by simp only [h.activeTurns] }
  | turnCompleted | turnFailed | turnCanceled | turnBlocked =>
    exact { h with activeTurns := by simp only [h.activeTurns] }
  | llmInvoked | toolInvoked =>
    cases ae.stepId with
    | none => exact h
    | some sid => exact { h with activeSteps := by simp only [h.activeSteps] }
  | llmCompleted => exact (h.closeStep ae).addUsage _
  | llmFailed | toolCompleted | toolFailed => exact h.closeStep ae
  | _ => exact ⟨h.taskId, h.tokenStats, h.byTurnId, h.recentTurnIds, h.activeTurns, h.activeSteps, h.completedSteps⟩

/-- The projections stay in agreement under one more record. -/
theorem applyIgnoring (h : SameTracks p q) (r : Record) : SameTracks (p.applyIgnoring r) (q.applyIgnoring r) := by
  cases he : EventType.fromStr r.eventType with
  | none => rw [applyIgnoring_none he, applyIgnoring_none he]; exact h
  | some e =>
    rw [applyIgnoring_some he, applyIgnoring_some he, h.taskId]
    exact (h.index _).applyHead _

end SameTracks

/-- Entering an event without a turn changes the numbers only. -/
theorem sameTracks_index {ae : AgentEvent} (h : ae.turnId = none) (p : TaskProjection) : SameTracks (p.index ae) p := by
  unfold TaskProjection.index
  rw [h]
  exact ⟨rfl, rfl, rfl, rfl, rfl, rfl, rfl⟩

/-- An event of no turn and no step changes the head only. -/
theorem sameTracks_applyHead {ae : AgentEvent} (h : ae.turnId = none) (hstart : ae.eventType.isStepStart = false)
    (hend : ae.eventType.isStepTerminal = false) (p : TaskProjection) : SameTracks (p.applyHead ae) p := by
  unfold TaskProjection.applyHead
  rw [h]
  cases he : ae.eventType with
  | turnStarted => exact ⟨rfl, rfl, rfl, rfl, Finset.union_empty _, rfl, rfl⟩
  | turnCompleted | turnFailed | turnCanceled | turnBlocked => exact ⟨rfl, rfl, rfl, rfl, Finset.sdiff_empty, rfl, rfl⟩
  | llmInvoked | toolInvoked => rw [he] at hstart; cases hstart
  | llmCompleted | llmFailed | toolCompleted | toolFailed => rw [he] at hend; cases hend
  | _ => exact ⟨rfl, rfl, rfl, rfl, rfl, rfl, rfl⟩

/-- A record that is not tracked leaves no trace but the task state. -/
theorem sameTracks_of_not_tracked {r : Record} (h : tracked r = false) (p : TaskProjection) :
    SameTracks (p.applyIgnoring r) p := by
  unfold tracked at h
  cases he : EventType.fromStr r.eventType with
  | none => rw [applyIgnoring_none he]; exact .refl p
  | some e =>
    simp only [he, Bool.or_eq_false_iff, Option.isSome_eq_false_iff, Option.isNone_iff_eq_none] at h
    obtain ⟨⟨htid, hstart⟩, hend⟩ := h
    rw [applyIgnoring_some he]
    exact (sameTracks_applyHead htid hstart hend _).trans (sameTracks_index htid p)

/-- **The indexes, counts, turns and steps of a projection come from its tracked records alone.** -/
theorem sameTracks_filter (taskId : String) (schedule : List Record) :
    SameTracks (replay taskId schedule) (replay taskId (schedule.filter tracked)) := by
  induction schedule using List.reverseRecOn with
  | nil => exact .refl _
  | append_singleton schedule r ih =>
    rw [replay_append, List.filter_append]
    by_cases hr : tracked r = true
    · rw [List.filter_cons_of_pos hr, List.filter_nil, replay_append]
      exact ih.applyIgnoring r
    · rw [List.filter_cons_of_neg hr, List.filter_nil, List.append_nil]
      exact (sameTracks_of_not_tracked (by simpa using hr) _).trans ih

/-! ## The turn indexes -/

/-- The turn under which a record is entered. -/
def indexedTurn (r : Record) : Option Int := (EventType.fromStr r.eventType).bind fun _ => r.turnId

/-- The recent turns are those of the records, in order of delivery. -/
theorem replay_recentTurnIds (taskId : String) (schedule : List Record) :
    (replay taskId schedule).recentTurnIds = schedule.filterMap indexedTurn := by
  induction schedule using List.reverseRecOn with
  | nil => rfl
  | append_singleton schedule r ih =>
    rw [replay_append, List.filterMap_append]
    cases he : EventType.fromStr r.eventType with
    | none => simp [applyIgnoring_none he, ih, indexedTurn, he]
    | some e =>
      rw [applyIgnoring_some he, applyHead_recentTurnIds, index_recentTurnIds, ih]
      cases htid : r.turnId <;> simp [indexedTurn, he, htid, eventOf]

/-- The events of a turn are those of its records, in order of delivery. -/
theorem replay_byTurnId (taskId : String) (schedule : List Record) (tid : Int) :
    ((replay taskId schedule).byTurnId.lookup tid).getD [] =
      (schedule.filter fun r => indexedTurn r = some tid).map fun r => wrapI64 r.seq := by
  induction schedule using List.reverseRecOn with
  | nil => rfl
  | append_singleton schedule r ih =>
    rw [replay_append, List.filter_append, List.map_append]
    cases he : EventType.fromStr r.eventType with
    | none => simp [applyIgnoring_none he, ih, indexedTurn, he]
    | some e =>
      rw [applyIgnoring_some he, applyHead_byTurnId, index_byTurnId, ih]
      by_cases htid : r.turnId = some tid <;> simp [indexedTurn, he, htid, eventOf]

/-! ## Schedules -/

/-- Every record of a model or tool call carries the number of its turn, as the scope check demands. -/
def StepsTagged (log : List Record) : Prop := ∀ r ∈ log, tracked r = true → r.turnId.isSome = true

/-- The standings lead to the same state: the last task events do, and so do the turn starts after them. -/
def Standing.Alike (st st' : Standing) : Prop :=
  (st.last = st'.last ∧ (st.last = .ready ∨ st.last = .claimed → st.started = st'.started)) ∨
    (st.started = true ∧ st'.started = true ∧ (st.last = .ready ∨ st.last = .claimed) ∧
      (st'.last = .ready ∨ st'.last = .claimed))

/-- The schedule delivers every tracked record once and in order, and leaves the task in the same standing. -/
structure DeliveredInOrder (log schedule : List Record) : Prop where
  tracked : schedule.filter tracked = log.filter tracked
  standing : (standing schedule).Alike (standing log)

theorem Standing.alike_iff {st st' : Standing} (h : st.last ≠ .executing) (h' : st'.last ≠ .executing) :
    st.Alike st' ↔ st.state = st'.state := by
  obtain ⟨last, started⟩ := st
  obtain ⟨last', started'⟩ := st'
  cases last <;> cases last' <;> cases started <;> cases started' <;> simp_all [Alike, state]

/-- On a log whose step records are tagged, the tracked records are those entered under a turn. -/
theorem filter_tracked {log schedule : List Record} (h : StepsTagged log) (hmem : ∀ r ∈ schedule, r ∈ log) :
    schedule.filter tracked = schedule.filter fun r => (indexedTurn r).isSome := by
  refine List.filter_congr fun r hr => ?_
  have htag := h r (hmem r hr)
  unfold tracked indexedTurn at *
  cases he : EventType.fromStr r.eventType with
  | none => rfl
  | some e => cases htid : r.turnId <;> simp_all

/-- What the turn indexes say about a schedule. -/
theorem filter_indexedTurn {log schedule : List Record} (hmem : ∀ r ∈ schedule, r ∈ log) (h : Ascending log)
    (hseq : ∀ r ∈ log, r.seq < 2 ^ 64) (hturns : schedule.filterMap indexedTurn = log.filterMap indexedTurn)
    (hevents : ∀ tid : Int, (schedule.filter fun r => indexedTurn r = some tid).map (fun r => wrapI64 r.seq) =
      (log.filter fun r => indexedTurn r = some tid).map fun r => wrapI64 r.seq) :
    (schedule.filter fun r => (indexedTurn r).isSome) = log.filter fun r => (indexedTurn r).isSome := by
  have hkeys : ∀ l : List Record, (l.filter fun r => (indexedTurn r).isSome).map indexedTurn =
      (l.filterMap indexedTurn).map some := by
    intro l
    induction l with
    | nil => rfl
    | cons r l ih => cases hr : indexedTurn r <;> simp [hr, ih]
  have hgroup : ∀ (l : List Record) (k : Option Int), ((l.filter fun r => (indexedTurn r).isSome).filter fun r =>
      indexedTurn r = k) = if k.isSome then l.filter fun r => indexedTurn r = k else [] := by
    intro l k
    rw [List.filter_filter]
    cases k with
    | none =>
      refine List.filter_eq_nil_iff.mpr fun r _ => ?_
      cases indexedTurn r <;> simp
    | some tid =>
      refine List.filter_congr fun r _ => ?_
      cases indexedTurn r <;> simp
  have hvals : (schedule.filter fun r => (indexedTurn r).isSome).map (fun r => wrapI64 r.seq) =
      (log.filter fun r => (indexedTurn r).isSome).map fun r => wrapI64 r.seq := by
    refine map_eq_of_groups (by rw [hkeys, hkeys, hturns]) fun k => ?_
    rw [hgroup, hgroup]
    cases k with
    | none => rfl
    | some tid => exact hevents tid
  refine eq_of_map_eq hvals fun r hr r' hr' heq => ?_
  have hr := hmem r (List.mem_of_mem_filter hr)
  have hr' := List.mem_of_mem_filter hr'
  exact eq_of_wrapI64_seq h hseq hr hr' heq

/-- **A projection survives a schedule exactly if the tracked records arrive once each and in order and the task is
left in the same standing.** The converse needs that step records carry the number of their turn. -/
theorem redelivered_iff (taskId : String) {log schedule : List Record} (hmem : ∀ r, r ∈ schedule ↔ r ∈ log)
    (h : Ascending log) (hseq : ∀ r ∈ log, r.seq < 2 ^ 64) :
    (DeliveredInOrder log schedule → SameView (replay taskId schedule) (replay taskId log)) ∧
    (StepsTagged log → SameView (replay taskId schedule) (replay taskId log) → DeliveredInOrder log schedule) := by
  have hstate : (standing schedule).Alike (standing log) ↔
      (replay taskId schedule).state = (replay taskId log).state := by
    rw [Standing.alike_iff (standing_last_ne _) (standing_last_ne _), replay_state, replay_state, stateOf_eq_standing,
      stateOf_eq_standing]
  constructor
  · intro hd
    have htracks : SameTracks (replay taskId schedule) (replay taskId log) :=
      (sameTracks_filter taskId schedule).trans (hd.tracked ▸ (sameTracks_filter taskId log).symm)
    exact ⟨htracks, hstate.mp hd.standing⟩
  · intro htag hv
    refine ⟨?_, hstate.mpr hv.state⟩
    rw [filter_tracked htag fun r hr => (hmem r).mp hr, filter_tracked htag fun r hr => hr]
    refine filter_indexedTurn (fun r hr => (hmem r).mp hr) h hseq ?_ fun tid => ?_
    · rw [← replay_recentTurnIds taskId, ← replay_recentTurnIds taskId, hv.recentTurnIds]
    · rw [← replay_byTurnId taskId, ← replay_byTurnId taskId, hv.byTurnId]

/-- A turn with one model call. -/
def callLog : List Record :=
  let turn : Metadata := (∅ : Metadata).insert "turn_id" "1"
  [⟨1, "task_created", .obj [], ∅⟩, ⟨2, "task_ready", .obj [], ∅⟩, ⟨3, "turn_started", .obj [], turn⟩,
    ⟨4, "llm_invoked", .obj [("model", .str "m")], turn.insert "step_id" "a"⟩,
    ⟨5, "llm_completed", .obj [("model", .str "m"), ("usage", .obj [("total_tokens", .int 7)])],
      turn.insert "step_id" "a"⟩]

/-- The theorem at a schedule that delivers the first two records twice. -/
theorem redelivered_head : SameView (replay "task_1" (callLog.take 2 ++ callLog)) (replay "task_1" callLog) :=
  (redelivered_iff "task_1" (by simp [callLog]; tauto) (by decide) (by decide)).1
    ⟨rfl, by unfold Standing.Alike; decide⟩

/-- The number of completed calls and their tokens. -/
def usageOf (p : TaskProjection) (model : String) : Option (Int × Int) :=
  (p.tokenStats.lookup model).map fun st => (st.callCount, st.totalTokens)

/-- The completion of the call is applied by its writer and once more by a load that consumes it from the stream: the
call and its tokens count twice. -/
theorem redelivered_completion :
    let schedule := callLog ++ callLog.drop 4
    (∀ r, r ∈ schedule ↔ r ∈ callLog) ∧ Ascending callLog ∧
    usageOf (replay "task_1" callLog) "m" = some (1, 7) ∧ usageOf (replay "task_1" schedule) "m" = some (2, 14) ∧
    ¬ SameView (replay "task_1" schedule) (replay "task_1" callLog) := by
  intro schedule
  have honce : usageOf (replay "task_1" callLog) "m" = some (1, 7) := by decide +kernel
  have htwice : usageOf (replay "task_1" schedule) "m" = some (2, 14) := by decide +kernel
  refine ⟨fun r => by simp [schedule, callLog], by decide, honce, htwice, fun h => ?_⟩
  have heq : usageOf (replay "task_1" schedule) "m" = usageOf (replay "task_1" callLog) "m" := by
    unfold usageOf
    rw [h.tokenStats]
  rw [honce, htwice] at heq
  cases heq

end Fixus
