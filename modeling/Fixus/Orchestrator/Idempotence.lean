import Fixus.Orchestrator.Intervention
import Fixus.Orchestrator.Redispatch
import Fixus.Store.Tracking

/-!
# A recovery that is repeated

A recovery fails the blocked turns and queues the others. When it is repeated at once it finds only the others, and
nothing about them has changed.

- `redoOf`: the redo of a turn, as the projection has it;
- `recoverEach_queue`: the queue of a recovery, turn by turn;
- `recoverEach_free`: a recovery without blocked turns writes nothing;
- `Appended.turnEvents`: failures of other turns leave the events of a turn alone;
- `recovery_idempotent`: the second recovery writes nothing, and its queue is a permutation of the first one's.
-/

namespace Fixus

open Lib Lib.Eff BrokerStore TaskProjection

variable {taskId : String} {k : Int} {s s' : BrokerStore} {log : List Record} {marks : List Mark}

/-- The events have different numbers. -/
abbrev Numbered (taskId : String) (log : List Record) : Prop := ((eventsOf taskId log).map AgentEvent.seq).Nodup

/-! ## The turns -/

/-- The incomplete turn with the events. -/
def incompleteTurnOf (k : Int) (events : List AgentEvent) : Option IncompleteTurn :=
  events.head?.map fun e =>
    { turnId := k
      redoGroup := ((e.payload.index "redo_group").asStr).getD "?"
      redoCount := wrapI32 (((e.payload.index "redo_count").asI64).getD 0) }

theorem incompleteTurnOf_turnId {events : List AgentEvent} {turn : IncompleteTurn}
    (h : incompleteTurnOf k events = some turn) : turn.turnId = k := by
  obtain ⟨e, -, rfl⟩ := Option.map_eq_some_iff.mp h
  rfl

/-- The incomplete turns of a log, read off the events of the active turns. -/
theorem incompleteTurns_replay (hn : Numbered taskId log) (order : List Int) :
    (replay taskId log).incompleteTurns order = (walk order (replay taskId log).activeTurns).filterMap fun k =>
      incompleteTurnOf k ((replay taskId log).turnEvents k) := by
  unfold incompleteTurns
  refine List.filterMap_congr fun k _ => ?_
  have hseqs : ((replay taskId log).byTurnId.lookup k).getD [] =
      ((eventsOf taskId log).filter fun e => e.turnId = some k).map AgentEvent.seq := replay_turnSeqs k
  rw [replay_turnEvents hn]
  cases hl : (replay taskId log).byTurnId.lookup k with
  | none =>
    rw [hl] at hseqs
    rw [List.map_eq_nil_iff.mp hseqs.symm]
    rfl
  | some seqs =>
    rw [hl, Option.getD_some] at hseqs
    subst hseqs
    cases hevents : (eventsOf taskId log).filter fun e => e.turnId = some k with
    | nil => rfl
    | cons e es =>
      have hmem : e ∈ (eventsOf taskId log).filter fun e => e.turnId = some k := by
        rw [hevents]
        exact List.mem_cons_self
      have he : (replay taskId log).bySeq.lookup e.seq = some e :=
        (replay_bySeq hn).mpr ⟨List.mem_of_mem_filter hmem, rfl⟩
      simp [incompleteTurnOf, he]

/-- Every active turn of a log is an incomplete one. -/
theorem incompleteTurnOf_active (hn : Numbered taskId log)
    (h : k ∈ (replay taskId log).activeTurns) :
    ∃ turn, incompleteTurnOf k ((replay taskId log).turnEvents k) = some turn := by
  obtain ⟨e, he, -, hk⟩ := started_of_active h
  rw [replay_turnEvents hn]
  have hmem : e ∈ (eventsOf taskId log).filter fun e => e.turnId = some k := List.mem_filter.mpr ⟨he, decide_eq_true hk⟩
  obtain ⟨e₀, es, hevents⟩ := List.exists_cons_of_ne_nil (List.ne_nil_of_mem hmem)
  rw [hevents]
  exact ⟨_, rfl⟩

/-- The redo of an incomplete turn; none if a step blocks it or if it was never started. -/
def redoOf (p : TaskProjection) (order : List String) (turn : IncompleteTurn) : Option RedoContext :=
  match decideRecoveryFromSteps turn (stepsOf p order turn.turnId) with
  | .safeToRedo _ _ _ _ => buildRedoContextFromEvents turn (p.turnEvents turn.turnId)
  | .requiresHumanIntervention _ _ _ => none

section Redo

variable {p p' : TaskProjection} {turn : IncompleteTurn} (order order' : List String)

theorem redoOf_free (h : ¬ Dangling p turn.turnId) :
    redoOf p order turn = buildRedoContextFromEvents turn (p.turnEvents turn.turnId) := by
  unfold redoOf
  rw [decide_not_dangling h]

theorem redoOf_blocked (h : Dangling p turn.turnId) : redoOf p order turn = none := by
  unfold redoOf
  rw [decide_dangling h]

/-- It depends on the events of the turn and on whether a step blocks it. -/
theorem redoOf_congr (hd : Dangling p' turn.turnId ↔ Dangling p turn.turnId)
    (he : p'.turnEvents turn.turnId = p.turnEvents turn.turnId) : redoOf p' order' turn = redoOf p order turn := by
  by_cases h : Dangling p turn.turnId
  · rw [redoOf_blocked order h, redoOf_blocked order' (hd.mpr h)]
  · rw [redoOf_free order h, redoOf_free order' (mt hd.mp h), he]

end Redo

/-! ## Failures of other turns -/

/-- The events that were there before have different numbers. -/
theorem Numbered.before (h : Appended taskId marks s s') (hn : Numbered taskId (s'.log taskId)) :
    Numbered taskId (s.log taskId) := by
  obtain ⟨rs, hlog, -, -⟩ := h.records
  rw [hlog, Numbered, eventsOf, List.filterMap_append, List.map_append] at hn
  exact (List.nodup_append.mp hn).1

/-- The events of a turn are the same after failures of others. -/
theorem Appended.turnEvents (h : Appended taskId marks s s') (ht : Tracks taskId s)
    (hmarks : ∀ m ∈ marks, ∃ j, m.turnId = some j ∧ InI64 j ∧ j ≠ k)
    (hn : Numbered taskId (s'.log taskId)) :
    (s'.view taskId).turnEvents k = (s.view taskId).turnEvents k := by
  obtain ⟨rs, hlog, -, htags⟩ := h.records
  have hevents : eventsOf taskId (s'.log taskId) = eventsOf taskId (s.log taskId) ++ eventsOf taskId rs := by
    rw [hlog]
    exact List.filterMap_append
  have hother : ∀ e ∈ eventsOf taskId rs, e.turnId ≠ some k := by
    intro e he
    obtain ⟨r, hr, heq⟩ := List.mem_filterMap.mp he
    obtain ⟨et, -, rfl⟩ := Option.map_eq_some_iff.mp heq
    obtain ⟨m, hm, htag⟩ : ∃ m ∈ marks, m.Tags r := by
      clear hlog hevents he h
      induction htags with
      | nil => cases hr
      | @cons m r' marks rs htag _ ih =>
        rcases List.mem_cons.mp hr with rfl | hr
        · exact ⟨m, List.mem_cons_self, htag⟩
        · obtain ⟨m', hm', htag'⟩ := ih (fun m' hm' => hmarks m' (List.mem_cons_of_mem _ hm')) hr
          exact ⟨m', List.mem_cons_of_mem _ hm', htag'⟩
    obtain ⟨j, hj, hrange, hne⟩ := hmarks m hm
    show r.turnId ≠ some k
    rw [htag.turn hrange hj]
    exact fun heq => hne (Option.some.inj heq)
  have hfilter : (eventsOf taskId rs).filter (fun e => e.turnId = some k) = [] :=
    List.filter_eq_nil_iff.mpr fun e he => by simpa using hother e he
  rw [h.view ht.view, replay_turnEvents hn, ht.view, replay_turnEvents (Numbered.before h hn), hevents,
    List.filter_append, hfilter, List.append_nil]

/-! ## The queue -/

/-- **The queue of a recovery**: the redos of the turns, one after the other. -/
theorem recoverEach_queue (order : Int → List String) {turns : List IncompleteTurn}
    (hn : (turns.map IncompleteTurn.turnId).Nodup) (hrange : ∀ turn ∈ turns, InI64 turn.turnId) (h : Tracks taskId s) :
    wp (recoverEach brokerEventStore taskId order turns)
      (fun queue s' => (∃ marks, Appended taskId marks s s') ∧ (Numbered taskId (s'.log taskId) →
        queue = turns.filterMap fun turn => redoOf (s.view taskId) (order turn.turnId) turn))
      (fun _ _ => True) s := by
  induction turns generalizing s with
  | nil => exact ⟨⟨[], Appended.refl h.healthy⟩, fun _ => rfl⟩
  | cons turn turns ih =>
    obtain ⟨hnew, hn⟩ := List.nodup_cons.mp hn
    obtain ⟨hturn, hrange⟩ := List.forall_mem_cons.mp hrange
    unfold recoverEach
    rw [wp_bind]
    refine wp_mono (recoverTurn_healthy h.healthy turn (order turn.turnId)) (fun a s₁ h₁ => ?_) fun _ _ h => h.elim
    obtain ⟨hloaded, ha⟩ := h₁
    have ht₁ : Tracks taskId s₁ := h.loaded hloaded
    by_cases hd : Dangling (s.view taskId) turn.turnId
    · -- the failures of the turn leave the others as they were
      rw [decide_dangling hd, ← hloaded.view] at ha
      subst ha
      rw [wp_bind]
      refine wp_mono (failTurnWithNonIdempotentBlock_spec hloaded.healthy _) (fun _ s₂ h₂ => ?_) fun _ _ _ => trivial
      refine wp_mono (ih hn hrange ⟨h₂.healthy, h₂.view ht₁.view⟩) (fun queue s₃ h₃ => ?_) fun _ _ h => h
      obtain ⟨⟨marks, happ⟩, hqueue⟩ := h₃
      refine ⟨⟨_, (h₂.trans happ).after hloaded⟩, fun hnum => ?_⟩
      rw [hqueue hnum, List.filterMap_cons, redoOf_blocked (order turn.turnId) hd]
      refine List.filterMap_congr fun turn' ht' => ?_
      have hne : turn.turnId ≠ turn'.turnId := fun heq => hnew (heq ▸ List.mem_map_of_mem ht')
      rw [← hloaded.view]
      refine redoOf_congr _ _ ⟨h₂.dangling fun _ => blockMarks_fail, ?_⟩ ?_
      · rintro ⟨sid, v, hv, hk, hclass⟩
        exact ⟨sid, v, h₂.other_steps hv (by rw [hk]; exact hne.symm), hk, hclass⟩
      · exact h₂.turnEvents ht₁ (fun m hm => ⟨_, blockMarks_turnId hm, hturn, hne⟩) (Numbered.before happ hnum)
    · rw [decide_not_dangling hd] at ha
      subst ha
      rw [wp_bind]
      refine wp_mono (ih hn hrange ht₁) (fun queue s₂ h₂ => ?_) fun _ _ h => h
      obtain ⟨⟨marks, happ⟩, hqueue⟩ := h₂
      refine ⟨⟨marks, happ.after hloaded⟩, fun hnum => ?_⟩
      rw [hqueue hnum, hloaded.view, List.filterMap_cons, redoOf_free (order turn.turnId) hd]
      cases buildRedoContextFromEvents turn ((s.view taskId).turnEvents turn.turnId) <;> rfl

/-- A recovery without blocked turns writes nothing. -/
theorem recoverEach_free (order : Int → List String) {turns : List IncompleteTurn} (hs : Healthy s)
    (hfree : ∀ turn ∈ turns, ¬ Dangling (s.view taskId) turn.turnId) :
    wp (recoverEach brokerEventStore taskId order turns)
      (fun queue s' => s'.streams = s.streams ∧
        queue = turns.filterMap fun turn => redoOf (s.view taskId) (order turn.turnId) turn)
      (fun _ _ => False) s := by
  induction turns generalizing s with
  | nil => exact ⟨rfl, rfl⟩
  | cons turn turns ih =>
    obtain ⟨hd, hfree⟩ := List.forall_mem_cons.mp hfree
    unfold recoverEach
    rw [wp_bind]
    refine wp_mono (recoverTurn_healthy hs turn (order turn.turnId)) (fun a s₁ h₁ => ?_) fun _ _ h => h
    obtain ⟨hloaded, ha⟩ := h₁
    rw [decide_not_dangling hd] at ha
    subst ha
    rw [wp_bind]
    refine wp_mono (ih hloaded.healthy (by rw [hloaded.view]; exact hfree)) (fun queue s₂ h₂ => ?_) fun _ _ h => h
    obtain ⟨hstreams, rfl⟩ := h₂
    refine ⟨hstreams.trans hloaded.streams, ?_⟩
    rw [hloaded.view, List.filterMap_cons, redoOf_free (order turn.turnId) hd]
    cases buildRedoContextFromEvents turn ((s.view taskId).turnEvents turn.turnId) <;> rfl

/-- The redo of a turn with the number. -/
def nextRedo (p : TaskProjection) (order : Int → List String) (k : Int) : Option RedoContext :=
  (incompleteTurnOf k (p.turnEvents k)).bind fun turn => redoOf p (order turn.turnId) turn

theorem nextRedo_blocked {p : TaskProjection} (order : Int → List String) (h : Dangling p k) :
    nextRedo p order k = none := by
  unfold nextRedo
  cases hturn : incompleteTurnOf k (p.turnEvents k) with
  | none => rfl
  | some turn =>
    have hk := incompleteTurnOf_turnId hturn
    exact redoOf_blocked _ (hk ▸ h)

theorem nextRedo_congr {p p' : TaskProjection} (order order' : Int → List String)
    (hd : Dangling p' k ↔ Dangling p k) (he : p'.turnEvents k = p.turnEvents k) :
    nextRedo p' order' k = nextRedo p order k := by
  unfold nextRedo
  rw [he]
  cases hturn : incompleteTurnOf k (p.turnEvents k) with
  | none => rfl
  | some turn =>
    have hk := incompleteTurnOf_turnId hturn
    subst hk
    exact redoOf_congr _ _ hd he

/-- The redos of the incomplete turns. -/
theorem redos_eq (ht : Tracks taskId s) (hn : Numbered taskId (s.log taskId)) (turnOrder : List Int)
    (stepOrder : Int → List String) :
    ((s.view taskId).incompleteTurns turnOrder).filterMap
        (fun turn => redoOf (s.view taskId) (stepOrder turn.turnId) turn) =
      (walk turnOrder (s.view taskId).activeTurns).filterMap (nextRedo (s.view taskId) stepOrder) := by
  rw [ht.view, incompleteTurns_replay hn, List.filterMap_filterMap]
  rfl

/-- The turns of a log are in the range. -/
theorem inI64_of_incomplete (ht : Tracks taskId s) {order : List Int} {turn : IncompleteTurn}
    (h : turn ∈ (s.view taskId).incompleteTurns order) : InI64 turn.turnId := by
  have hactive : turn.turnId ∈ (s.view taskId).activeTurns := active_of_incomplete (List.mem_map_of_mem h)
  rw [ht.view] at hactive
  obtain ⟨e, he, -, hk⟩ := started_of_active hactive
  exact inI64_of_turnId he hk

/-- The queue of a recovery has the redos of the active turns. -/
theorem recoverTask_queue (ht : Tracks taskId s) (turnOrder : List Int) (stepOrder : Int → List String) :
    wp (recoverTask brokerEventStore taskId turnOrder stepOrder)
      (fun queue s' => Numbered taskId (s'.log taskId) →
        queue = (walk turnOrder (s.view taskId).activeTurns).filterMap (nextRedo (s.view taskId) stepOrder))
      (fun _ _ => True) s := by
  unfold recoverTask
  rw [wp_bind]
  refine wp_mono (withProjection_healthy ht.healthy _) (fun turns s₁ h₁ => ?_) fun _ _ h => h.elim
  obtain ⟨rfl, hloaded⟩ := h₁
  have hrange : ∀ turn ∈ (s.view taskId).incompleteTurns turnOrder, InI64 turn.turnId :=
    fun turn => inI64_of_incomplete ht
  refine wp_mono (recoverEach_queue stepOrder (nodup_incompleteTurns _ _) hrange (ht.loaded hloaded))
    (fun queue s₂ h₂ hn => ?_) fun _ _ h => h
  obtain ⟨⟨marks, happ⟩, hqueue⟩ := h₂
  rw [hqueue hn, hloaded.view]
  exact redos_eq ht (Numbered.before (happ.after hloaded) hn) turnOrder stepOrder

/-- Without blocked turns it succeeds and writes nothing. -/
theorem recoverTask_free (ht : Tracks taskId s) (hn : Numbered taskId (s.log taskId))
    (hfree : ∀ k ∈ (s.view taskId).activeTurns, ¬ Dangling (s.view taskId) k) (turnOrder : List Int)
    (stepOrder : Int → List String) :
    wp (recoverTask brokerEventStore taskId turnOrder stepOrder)
      (fun queue s' => s'.streams = s.streams ∧
        queue = (walk turnOrder (s.view taskId).activeTurns).filterMap (nextRedo (s.view taskId) stepOrder))
      (fun _ _ => False) s := by
  unfold recoverTask
  rw [wp_bind]
  refine wp_mono (withProjection_healthy ht.healthy _) (fun turns s₁ h₁ => ?_) fun _ _ h => h
  obtain ⟨rfl, hloaded⟩ := h₁
  have hturns : ∀ turn ∈ (s.view taskId).incompleteTurns turnOrder, ¬ Dangling (s₁.view taskId) turn.turnId := by
    intro turn hturn
    rw [hloaded.view]
    exact hfree _ (active_of_incomplete (List.mem_map_of_mem hturn))
  refine wp_mono (recoverEach_free stepOrder hloaded.healthy hturns) (fun queue s₂ h₂ => ?_) fun _ _ h => h
  obtain ⟨hstreams, rfl⟩ := h₂
  rw [hloaded.view]
  exact ⟨hstreams.trans hloaded.streams, redos_eq ht hn turnOrder stepOrder⟩

/-! ## The second recovery -/

/-- Failures start no turn. -/
theorem Appended.active_of (h : Appended taskId marks s s') (hm : ∀ m ∈ marks, m.Fails)
    (hk : k ∈ (s'.view taskId).activeTurns) : k ∈ (s.view taskId).activeTurns := by
  obtain ⟨rs, -, hview, htags⟩ := h.records
  rw [hview] at hk
  clear hview h
  generalize s.view taskId = p at hk ⊢
  induction htags generalizing p with
  | nil => exact hk
  | cons hr _ ih =>
    obtain ⟨hf, hms⟩ := List.forall_mem_cons.mp hm
    have hafter := ih hms _ hk
    rw [activeTurns_of_fails hr hf] at hafter
    split at hafter
    · exact (Finset.mem_sdiff.mp hafter).1
    · exact hafter

/-- Failures of other turns leave a turn active. -/
theorem Appended.still_active (h : Appended taskId marks s s') (hm : ∀ m ∈ marks, m.Fails)
    (hmarks : ∀ m ∈ marks, ∃ j, m.turnId = some j ∧ InI64 j ∧ j ≠ k) (hk : k ∈ (s.view taskId).activeTurns) :
    k ∈ (s'.view taskId).activeTurns := by
  obtain ⟨rs, -, hview, htags⟩ := h.records
  rw [hview]
  clear hview h
  generalize s.view taskId = p at hk ⊢
  induction htags generalizing p with
  | nil => exact hk
  | cons hr _ ih =>
    obtain ⟨hf, hms⟩ := List.forall_mem_cons.mp hm
    obtain ⟨⟨j, hj, hrange, hne⟩, hrest⟩ := List.forall_mem_cons.mp hmarks
    refine ih hms hrest _ ?_
    rw [activeTurns_of_fails hr hf, hr.turn hrange hj]
    split
    · exact Finset.mem_sdiff.mpr ⟨hk, by simpa using Ne.symm hne⟩
    · exact hk

/-- The active turns after a recovery are those that no step blocked. -/
theorem active_after_iff {turnOrder : List Int} (ht : Tracks taskId s) (hn : Numbered taskId (s.log taskId))
    (h : Appended taskId marks s s') (hm : ∀ m ∈ marks, m.Fails)
    (hall : ∀ turn ∈ (s.view taskId).incompleteTurns turnOrder, ∀ sid, BlockedBy (s.view taskId) turn.turnId sid →
      FailedIn marks turn.turnId sid)
    (hblocked : ∀ m ∈ marks, m.Blocked (s.view taskId) ((s.view taskId).incompleteTurns turnOrder)) :
    k ∈ (s'.view taskId).activeTurns ↔ k ∈ (s.view taskId).activeTurns ∧ ¬ Dangling (s.view taskId) k := by
  constructor
  · intro hk
    have hactive := h.active_of hm hk
    refine ⟨hactive, fun ⟨sid, hsid⟩ => ?_⟩
    -- a blocked turn was among the incomplete ones, and failed
    rw [ht.view] at hactive
    obtain ⟨turn, hturn⟩ := incompleteTurnOf_active hn hactive
    have hmem : turn ∈ (s.view taskId).incompleteTurns turnOrder := by
      rw [ht.view, incompleteTurns_replay hn]
      exact List.mem_filterMap.mpr ⟨k, mem_walk.mpr hactive, hturn⟩
    have hturnId := incompleteTurnOf_turnId hturn
    subst hturnId
    exact h.not_active hm (inI64_of_incomplete ht hmem) (hall turn hmem sid hsid).1 hk
  · rintro ⟨hk, hfree⟩
    refine h.still_active hm (fun m hmem => ?_) hk
    obtain ⟨turn, hturn, hd, hturnId⟩ := hblocked m hmem
    exact ⟨_, hturnId, inI64_of_incomplete ht hturn, fun heq => hfree (heq ▸ hd)⟩

/-- **A recovery that is repeated at once writes nothing and queues the same turns**, whatever the orders of the hash
tables are. -/
theorem recovery_idempotent {turnOrder turnOrder' : List Int} {stepOrder stepOrder' : Int → List String}
    {queue : List RedoContext} (ht : Tracks taskId s)
    (hrun : recoverTask brokerEventStore taskId turnOrder stepOrder s = (.ok queue, s'))
    (hn : Numbered taskId (s'.log taskId)) :
    ∃ queue' s'', recoverTask brokerEventStore taskId turnOrder' stepOrder' s' = (.ok queue', s'') ∧
      s''.streams = s'.streams ∧ queue'.Perm queue := by
  obtain ⟨marks, happ, hfails, hall, hblocked⟩ := wp_ok (recoverTask_fails ht.healthy turnOrder stepOrder) hrun
  have hqueue := wp_ok (recoverTask_queue ht turnOrder stepOrder) hrun hn
  have ht' : Tracks taskId s' := ⟨happ.healthy, happ.view ht.view⟩
  have hactive : ∀ k, k ∈ (s'.view taskId).activeTurns ↔
      k ∈ (s.view taskId).activeTurns ∧ ¬ Dangling (s.view taskId) k :=
    fun k => active_after_iff ht (Numbered.before happ hn) happ hfails hall hblocked
  have hfree : ∀ k ∈ (s'.view taskId).activeTurns, ¬ Dangling (s'.view taskId) k :=
    fun k hk => mt (happ.dangling hfails) ((hactive k).mp hk).2
  obtain ⟨queue', s'', hrun', hstreams, rfl⟩ := wp_total (recoverTask_free ht' hn hfree turnOrder' stepOrder')
  refine ⟨_, s'', hrun', hstreams, ?_⟩
  rw [hqueue]
  refine walk_filterMap_perm _ _ (fun k hk => ((hactive k).mp hk).1) (fun k hk => ?_) fun k hk hnot => ?_
  · have hfree₀ := ((hactive k).mp hk).2
    refine nextRedo_congr _ _ (iff_of_false (hfree k hk) hfree₀) (happ.turnEvents ht (fun m hm => ?_) hn)
    obtain ⟨turn, hturn, hd, hturnId⟩ := hblocked m hm
    exact ⟨_, hturnId, inI64_of_incomplete ht hturn, fun heq => hfree₀ (heq ▸ hd)⟩
  · refine nextRedo_blocked _ ?_
    by_contra hd
    exact hnot ((hactive k).mpr ⟨hk, hd⟩)

/-- Two turns that were interrupted, one while it paid and one while it read a file. -/
def twoTurnsLog : List Record :=
  let turn (k : String) : Metadata := (∅ : Metadata).insert "turn_id" k
  [⟨1, "task_created", .obj [], ∅⟩, ⟨2, "task_ready", .obj [], ∅⟩, ⟨3, "turn_started", .obj [], turn "1"⟩,
    ⟨4, "turn_started", .obj [("user_input", .str "go on")], turn "2"⟩,
    ⟨5, "tool_invoked", .obj [("tool_name", .str "process_payment")], (turn "1").insert "step_id" "a"⟩,
    ⟨6, "tool_invoked", .obj [("tool_name", .str "read_file")], (turn "2").insert "step_id" "b"⟩]

/-- The theorem at these turns: the first recovery fails turn 1 and queues turn 2. -/
theorem recovery_idempotent_two_turns : ∃ queue s',
    recoverTask brokerEventStore "task_1" [] (fun _ => []) (freshStore twoTurnsLog) = (.ok queue, s') ∧
      queue.map RedoContext.turnId = [2] ∧ (s'.log "task_1").length = 8 ∧
      ∃ queue' s'', recoverTask brokerEventStore "task_1" [2, 1] (fun _ => ["b"]) s' = (.ok queue', s'') ∧
        s''.streams = s'.streams ∧ queue'.Perm queue := by
  let first := recoverTask brokerEventStore "task_1" [] (fun _ => []) (freshStore twoTurnsLog)
  have hqueue : first.1.map (List.map RedoContext.turnId) = .ok [2] := by decide +kernel
  have hlen : (first.2.log "task_1").length = 8 := by decide +kernel
  have hn : Numbered "task_1" (first.2.log "task_1") := by decide +kernel
  cases hrun : first with
  | mk answer s' =>
    rw [hrun] at hqueue hlen hn
    cases answer with
    | error err => cases hqueue
    | ok queue =>
      exact ⟨queue, s', hrun, Except.ok.inj hqueue, hlen,
        recovery_idempotent ⟨freshStore_healthy _, freshStore_view _ _⟩ hrun hn⟩

end Fixus
