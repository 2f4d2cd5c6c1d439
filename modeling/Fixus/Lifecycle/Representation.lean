import Fixus.Lifecycle.StepKinds
import Fixus.Orchestrator.Idempotence

/-!
# What the indexes of a projection represent

A projection keeps the events that were stored in several tables and sets at once. All of them say the same about the
events, in the order in which they came.

- `Represents`: what each index says about the events;
- `mem_of_completed`: the start and the end of a completed step were stored;
- `replay_represents`: the projection of any sequence of records with different numbers represents its events, no active
  turn is dropped when the incomplete turns are read, and a record that is refused changes nothing.
-/

namespace Fixus

open Lib BrokerStore TaskProjection

/-- The indexes of a projection and the events that were stored, in order. -/
structure Represents (events : List AgentEvent) (p : TaskProjection) : Prop where
  /-- The table has the events under their numbers. -/
  stored : ∀ k e, p.bySeq.lookup k = some e ↔ e ∈ events ∧ e.seq = k
  /-- Under a turn are the numbers of its events, in order. -/
  turns : ∀ k, (p.byTurnId.lookup k).getD [] = (events.filter fun e => e.turnId = some k).map AgentEvent.seq
  /-- Each number is there once. -/
  once : ∀ k, ((p.byTurnId.lookup k).getD []).Nodup
  /-- An active turn has an entry that begins with a stored event. -/
  active : ∀ k ∈ p.activeTurns, ∃ seq seqs e, p.byTurnId.lookup k = some (seq :: seqs) ∧ p.bySeq.lookup seq = some e
  /-- A step is active if its last start or terminal event is a start, and it is active with this event. -/
  steps : ∀ sid v, p.activeSteps.lookup sid = some v ↔
    v.1 = v.2.seq ∧ (stepEvents events sid).getLast? = some v.2 ∧ v.2.eventType.isStepStart = true
  /-- A completed step has a stored start and a stored end of the step. -/
  completed : ∀ sid c, p.completedSteps.lookup sid = some c →
    (p.bySeq.lookup c.startSeq = some c.startEvent ∧ c.startEvent.stepId = some sid ∧
      c.startEvent.eventType.isStepStart = true) ∧
    ∃ t, p.bySeq.lookup c.terminalSeq = some t ∧ t.stepId = some sid ∧ t.eventType.isStepTerminal = true ∧
      c.terminalType = t.eventType.asStr

variable {taskId : String} {log : List Record}

/-- The events of a log after one more record. -/
theorem eventsOf_snoc {r : Record} {et : EventType} (h : EventType.fromStr r.eventType = some et) :
    eventsOf taskId (log ++ [r]) = eventsOf taskId log ++ [eventOf taskId et r] := by
  simp [eventsOf, h]

/-- **The start and the end of a completed step were stored.** -/
theorem mem_of_completed {sid : String} {c : CompletedStep}
    (h : (replay taskId log).completedSteps.lookup sid = some c) :
    (c.startEvent ∈ eventsOf taskId log ∧ c.startEvent.seq = c.startSeq ∧ c.startEvent.stepId = some sid ∧
      c.startEvent.eventType.isStepStart = true) ∧
    ∃ t ∈ eventsOf taskId log, t.seq = c.terminalSeq ∧ t.stepId = some sid ∧ t.eventType.isStepTerminal = true ∧
      c.terminalType = t.eventType.asStr := by
  induction log using List.reverseRecOn with
  | nil =>
    have hnone : (replay taskId []).completedSteps.lookup sid = none := Finmap.lookup_empty sid
    rw [hnone] at h
    cases h
  | append_singleton log r ih =>
    rw [replay_append] at h
    cases he : EventType.fromStr r.eventType with
    | none =>
      have hsame : eventsOf taskId (log ++ [r]) = eventsOf taskId log := by simp [eventsOf, he]
      rw [applyIgnoring_none he] at h
      rw [hsame]
      exact ih h
    | some et =>
      rw [applyIgnoring_some he, replay_taskId] at h
      rw [eventsOf_snoc he]
      rcases applyHead_completedSteps h with hold | ⟨start, hactive, hstep, hend, rfl⟩
      · rw [index_completedSteps] at hold
        obtain ⟨⟨hmem, hstart⟩, t, ht, hterminal⟩ := ih hold
        exact ⟨⟨List.mem_append_left _ hmem, hstart⟩, t, List.mem_append_left _ ht, hterminal⟩
      · -- the event closes a step that was active, so its start was stored before
        rw [index_activeSteps] at hactive
        obtain ⟨hseq, post, hlast, -⟩ := activeSteps_iff.mp hactive
        refine ⟨⟨List.mem_append_left _ hlast.mem, hseq.symm, hlast.step, hlast.starts⟩, _,
          List.mem_append_right _ (List.mem_singleton_self _), rfl, hstep, hend, rfl⟩

/-- No active turn is dropped. -/
theorem incompleteTurns_turnIds (hn : Numbered taskId log) (order : List Int) :
    ((replay taskId log).incompleteTurns order).map IncompleteTurn.turnId =
      walk order (replay taskId log).activeTurns := by
  rw [incompleteTurns_replay hn, List.map_filterMap]
  refine (List.filterMap_congr fun k hk => ?_).trans List.filterMap_some
  obtain ⟨turn, hturn⟩ := incompleteTurnOf_active hn (mem_walk.mp hk)
  rw [hturn, Option.map_some, incompleteTurnOf_turnId hturn]

/-- The projection of a log represents its events. -/
theorem represents_of_numbered (hn : Numbered taskId log) : Represents (eventsOf taskId log) (replay taskId log) where
  stored _ _ := replay_bySeq hn
  turns := replay_turnSeqs
  once k := by
    rw [replay_turnSeqs]
    exact hn.sublist ((List.filter_sublist).map _)
  active k hk := by
    obtain ⟨e, he, -, hturn⟩ := started_of_active hk
    have hmem : e ∈ (eventsOf taskId log).filter fun e => e.turnId = some k :=
      List.mem_filter.mpr ⟨he, decide_eq_true hturn⟩
    obtain ⟨e₀, es, hevents⟩ := List.exists_cons_of_ne_nil (List.ne_nil_of_mem hmem)
    have he₀ : e₀ ∈ eventsOf taskId log := List.mem_of_mem_filter (hevents ▸ List.mem_cons_self)
    have hseqs : ((replay taskId log).byTurnId.lookup k).getD [] =
        ((eventsOf taskId log).filter fun e => e.turnId = some k).map AgentEvent.seq := replay_turnSeqs k
    rw [hevents, List.map_cons] at hseqs
    refine ⟨e₀.seq, es.map AgentEvent.seq, e₀, ?_, (replay_bySeq hn).mpr ⟨he₀, rfl⟩⟩
    cases hl : (replay taskId log).byTurnId.lookup k with
    | none =>
      rw [hl] at hseqs
      cases hseqs
    | some seqs =>
      rw [hl] at hseqs
      rw [← hseqs, Option.getD_some]
  steps sid v := by rw [activeSteps_iff, unfinished_iff_last]
  completed sid c h := by
    obtain ⟨⟨hmem, hseq, hstart⟩, t, ht, htseq, hterminal⟩ := mem_of_completed h
    exact ⟨⟨(replay_bySeq hn).mpr ⟨hmem, hseq⟩, hstart⟩, t, (replay_bySeq hn).mpr ⟨ht, htseq⟩, hterminal⟩

/-- **The indexes of a projection agree** after any sequence of records with different numbers, whether they are
accepted or refused: they represent the events that were stored, the incomplete turns are all the active ones, and a
record that is refused leaves everything as it is. -/
theorem replay_represents (taskId : String) (hn : (log.map Record.seq).Nodup) (hseq : ∀ r ∈ log, r.seq < 2 ^ 64) :
    let p := replay taskId log
    Represents (eventsOf taskId log) p ∧
      (∀ order, (p.incompleteTurns order).map IncompleteTurn.turnId = walk order p.activeTurns) ∧
      ∀ r err, p.apply r = .error err → p.applyIgnoring r = p := by
  have hnumbered : Numbered taskId log := nodup_seqs_of_nodup hn hseq
  refine ⟨represents_of_numbered hnumbered, incompleteTurns_turnIds hnumbered, fun r err h => ?_⟩
  unfold applyIgnoring
  rw [h]

/-- A turn whose records come out of order, one of them of an unknown type. -/
def shuffledLog : List Record :=
  [⟨7, "turn_started", .obj [], (∅ : Metadata).insert "turn_id" "1"⟩,
    ⟨3, "llm_invoked", .obj [], ((∅ : Metadata).insert "turn_id" "1").insert "step_id" "a"⟩,
    ⟨5, "llm_paused", .null, ∅⟩,
    ⟨4, "llm_completed", .obj [], ((∅ : Metadata).insert "turn_id" "1").insert "step_id" "a"⟩]

theorem replay_represents_shuffled :
    let p := replay "task_1" shuffledLog
    Represents (eventsOf "task_1" shuffledLog) p ∧
      (∀ order, (p.incompleteTurns order).map IncompleteTurn.turnId = walk order p.activeTurns) ∧
      ∀ r err, p.apply r = .error err → p.applyIgnoring r = p :=
  replay_represents "task_1" (by decide) (by decide)

end Fixus
