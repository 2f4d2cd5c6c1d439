import Fixus.Lifecycle.Representation
import Fixus.Orchestrator.Idempotence

/-!
# Looking at a recovery before it is applied

`GET /recovery` decides about the incomplete turns as a recovery does, but fails none of them and queues nothing. What
it shows is what `POST /recovery` does next.

- `getRecovery`, `applyRecovery`: the two handlers, over any store;
- `getRecovery_healthy`: the answer of the first one, from the projection;
- `failed_after_iff`: the turns that a recovery fails;
- `recovery_previewed`: the preview writes nothing, the recovery returns the redos that the preview shows, and
  afterwards exactly their turns are still incomplete, while every other incomplete turn was failed.
-/

namespace Fixus

open Lib Lib.Eff BrokerStore TaskProjection

/-! ## The handlers -/

/-- A redo as a client sees it. -/
structure RedoInfo where
  turnId : Int
  redoGroup : String
  redoCount : Int
  userInput : String

def RedoContext.info (ctx : RedoContext) : RedoInfo where
  turnId := ctx.turnId
  redoGroup := ctx.redoGroup
  redoCount := ctx.redoCount
  userInput := ctx.userInput

structure RecoveryStatusResponse where
  sessionId : String
  incompleteTurns : List IncompleteTurn
  redoQueue : List RedoInfo

section Handlers

variable {σ : Type} (store : EventStore σ)

/-- The loop over the incomplete turns: the redos that a recovery would queue. -/
def previewEach (taskId : String) (stepOrder : Int → List String) : List IncompleteTurn → StoreM σ (List RedoInfo)
  | [] => pure []
  | turn :: turns => do
    match ← decideTurnRecovery store taskId turn (stepOrder turn.turnId) with
    | .safeToRedo turnId redoGroup _ _ => do
      let ctx ← buildRedoContext store taskId turn
      let queue ← previewEach taskId stepOrder turns
      pure ((ctx.map fun ctx =>
        { turnId, redoGroup, redoCount := ctx.redoCount, userInput := ctx.userInput }).toList ++ queue)
    | .requiresHumanIntervention _ _ _ => previewEach taskId stepOrder turns

def getRecovery (taskId : String) (turnOrder : List Int) (stepOrder : Int → List String) :
    StoreM σ RecoveryStatusResponse := do
  let incompleteTurns ← store.getIncompleteTurns taskId turnOrder
  let redoQueue ← previewEach store taskId stepOrder incompleteTurns
  pure { sessionId := taskId, incompleteTurns, redoQueue }

def applyRecovery (taskId : String) (turnOrder : List Int) (stepOrder : Int → List String) :
    StoreM σ (List RedoInfo) := do
  let queue ← recoverTask store taskId turnOrder stepOrder
  pure (queue.map RedoContext.info)

end Handlers

/-! ## The answer of the preview -/

variable {taskId : String} {k : Int} {s s' : BrokerStore}

/-- What a preview leaves: the records are the same, and so is what the store knows of the task. -/
structure Viewed (taskId : String) (s s' : BrokerStore) : Prop where
  healthy : Healthy s'
  streams : s'.streams = s.streams
  view : s'.view taskId = s.view taskId

theorem BrokerStore.Loaded.viewed (h : Loaded taskId s s') : Viewed taskId s s' := ⟨h.healthy, h.streams, h.view⟩

theorem Viewed.trans {s'' : BrokerStore} (h : Viewed taskId s s') (h' : Viewed taskId s' s'') : Viewed taskId s s'' :=
  ⟨h'.healthy, h'.streams.trans h.streams, h'.view.trans h.view⟩

theorem Viewed.tracks (h : Viewed taskId s s') (ht : Tracks taskId s) : Tracks taskId s' := by
  refine ⟨h.healthy, ?_⟩
  have hlog : s'.log taskId = s.log taskId := by rw [BrokerStore.log, h.streams, ← BrokerStore.log]
  rw [h.view, hlog, ht.view]

/-- The preview takes the number and the group of the turn, as the redo itself does. -/
theorem info_of_turn (turn : IncompleteTurn) (events : List AgentEvent) :
    ((buildRedoContextFromEvents turn events).map fun ctx =>
      ({ turnId := turn.turnId, redoGroup := turn.redoGroup, redoCount := ctx.redoCount,
         userInput := ctx.userInput } : RedoInfo)) =
      (buildRedoContextFromEvents turn events).map RedoContext.info := by
  unfold buildRedoContextFromEvents
  cases findTurnStarted events <;> rfl

/-- A preview of turns shows the redos of those that no step blocks. -/
theorem previewEach_healthy (stepOrder : Int → List String) {turns : List IncompleteTurn} (hs : Healthy s) :
    wp (previewEach brokerEventStore taskId stepOrder turns)
      (fun queue s' => Viewed taskId s s' ∧ queue =
        (turns.filterMap fun turn => redoOf (s.view taskId) (stepOrder turn.turnId) turn).map RedoContext.info)
      (fun _ _ => False) s := by
  induction turns generalizing s with
  | nil => exact ⟨⟨hs, rfl, rfl⟩, rfl⟩
  | cons turn turns ih =>
    unfold previewEach
    rw [wp_bind]
    refine wp_mono (decideTurnRecovery_healthy hs turn (stepOrder turn.turnId)) (fun decision s₁ h₁ => ?_)
      fun _ _ h => h
    obtain ⟨hloaded, rfl⟩ := h₁
    by_cases hd : Dangling (s.view taskId) turn.turnId
    · rw [decide_dangling hd]
      refine wp_mono (ih hloaded.healthy) (fun queue s₂ h₂ => ?_) fun _ _ h => h
      obtain ⟨hviewed, rfl⟩ := h₂
      refine ⟨hloaded.viewed.trans hviewed, ?_⟩
      rw [List.filterMap_cons, redoOf_blocked (stepOrder turn.turnId) hd, hloaded.view]
    · rw [decide_not_dangling hd]
      unfold buildRedoContext
      rw [wp_bind, wp_bind]
      refine wp_mono (withProjection_healthy hloaded.healthy _) (fun events s₂ h₂ => ?_) fun _ _ h => h
      obtain ⟨rfl, hloaded₂⟩ := h₂
      rw [wp_pure, wp_bind]
      refine wp_mono (ih hloaded₂.healthy) (fun queue s₃ h₃ => ?_) fun _ _ h => h
      obtain ⟨hviewed, rfl⟩ := h₃
      refine ⟨(hloaded.viewed.trans hloaded₂.viewed).trans hviewed, ?_⟩
      rw [List.filterMap_cons, redoOf_free (stepOrder turn.turnId) hd, hloaded₂.view, hloaded.view]
      rw [info_of_turn]
      cases buildRedoContextFromEvents turn ((s.view taskId).turnEvents turn.turnId) <;> rfl

/-- The answer of the preview. -/
theorem getRecovery_healthy (hs : Healthy s) (turnOrder : List Int) (stepOrder : Int → List String) :
    wp (getRecovery brokerEventStore taskId turnOrder stepOrder)
      (fun status s' => Viewed taskId s s' ∧ status.sessionId = taskId ∧
        status.incompleteTurns = (s.view taskId).incompleteTurns turnOrder ∧
        status.redoQueue = (((s.view taskId).incompleteTurns turnOrder).filterMap fun turn =>
          redoOf (s.view taskId) (stepOrder turn.turnId) turn).map RedoContext.info)
      (fun _ _ => False) s := by
  unfold getRecovery
  rw [wp_bind]
  refine wp_mono (withProjection_healthy hs _) (fun turns s₁ h₁ => ?_) fun _ _ h => h
  obtain ⟨rfl, hloaded⟩ := h₁
  rw [wp_bind]
  refine wp_mono (previewEach_healthy stepOrder hloaded.healthy) (fun queue s₂ h₂ => ?_) fun _ _ h => h
  obtain ⟨hviewed, rfl⟩ := h₂
  refine ⟨hloaded.viewed.trans hviewed, rfl, rfl, ?_⟩
  rw [hloaded.view]

/-! ## The recovery that follows -/

/-- A turn that no step blocks has a redo, with its number. -/
theorem nextRedo_free {log : List Record} (hn : Numbered taskId log) (order : Int → List String)
    (h : k ∈ (replay taskId log).activeTurns) (hd : ¬ Dangling (replay taskId log) k) :
    ∃ ctx, nextRedo (replay taskId log) order k = some ctx ∧ ctx.turnId = k := by
  obtain ⟨turn, hturn⟩ := incompleteTurnOf_active hn h
  have hk := incompleteTurnOf_turnId hturn
  subst hk
  obtain ⟨e, he, htype, hturnId⟩ := started_of_active h
  have hmem : e ∈ (replay taskId log).turnEvents turn.turnId := by
    rw [replay_turnEvents hn]
    exact List.mem_filter.mpr ⟨he, decide_eq_true hturnId⟩
  obtain ⟨e₀, he₀⟩ : ∃ e₀, findTurnStarted ((replay taskId log).turnEvents turn.turnId) = some e₀ := by
    rw [← Option.isSome_iff_exists, findTurnStarted, List.find?_isSome]
    exact ⟨e, hmem, decide_eq_true htype⟩
  have hctx : nextRedo (replay taskId log) order turn.turnId =
      buildRedoContextFromEvents turn ((replay taskId log).turnEvents turn.turnId) := by
    rw [nextRedo, hturn, Option.bind_some, redoOf_free _ hd]
  rw [hctx, buildRedoContextFromEvents, he₀, Option.map_some]
  exact ⟨_, rfl, rfl⟩

/-- The redos of a log are those of the active turns that no step blocks. -/
theorem mem_redos {log : List Record} (hn : Numbered taskId log) (turnOrder : List Int) (order : Int → List String) :
    k ∈ ((walk turnOrder (replay taskId log).activeTurns).filterMap (nextRedo (replay taskId log) order)).map
        RedoContext.turnId ↔
      k ∈ (replay taskId log).activeTurns ∧ ¬ Dangling (replay taskId log) k := by
  simp only [List.mem_map, List.mem_filterMap, mem_walk]
  constructor
  · rintro ⟨ctx, ⟨j, hj, hctx⟩, rfl⟩
    have hd : ¬ Dangling (replay taskId log) j := fun hd => by
      rw [nextRedo_blocked order hd] at hctx
      cases hctx
    obtain ⟨ctx', hctx', hk⟩ := nextRedo_free hn order hj hd
    rw [hctx] at hctx'
    rw [Option.some.inj hctx', hk]
    exact ⟨hj, hd⟩
  · rintro ⟨hk, hd⟩
    obtain ⟨ctx, hctx, rfl⟩ := nextRedo_free hn order hk hd
    exact ⟨ctx, ⟨_, hk, hctx⟩, rfl⟩

/-- Each record of a recovery has its mark, and each mark its record. -/
theorem exists_mark {marks : List Mark} {rs : List Record} (h : List.Forall₂ Mark.Tags marks rs) {r : Record}
    (hr : r ∈ rs) : ∃ m ∈ marks, m.Tags r := by
  induction h with
  | nil => cases hr
  | @cons m r' marks rs htag _ ih =>
    rcases List.mem_cons.mp hr with rfl | hr
    · exact ⟨m, List.mem_cons_self, htag⟩
    · obtain ⟨m', hm', htag'⟩ := ih hr
      exact ⟨m', List.mem_cons_of_mem _ hm', htag'⟩

theorem exists_record {marks : List Mark} {rs : List Record} (h : List.Forall₂ Mark.Tags marks rs) {m : Mark}
    (hm : m ∈ marks) : ∃ r ∈ rs, m.Tags r := by
  induction h with
  | nil => cases hm
  | @cons m' r marks rs htag _ ih =>
    rcases List.mem_cons.mp hm with rfl | hm
    · exact ⟨r, List.mem_cons_self, htag⟩
    · obtain ⟨r', hr', htag'⟩ := ih hm
      exact ⟨r', List.mem_cons_of_mem _ hr', htag'⟩

/-- The turns that a recovery fails are the active ones that a step blocks. -/
theorem failed_after_iff {marks : List Mark} {rs : List Record} {turnOrder : List Int} (ht : Tracks taskId s)
    (hn : Numbered taskId (s.log taskId)) (htags : List.Forall₂ Mark.Tags marks rs)
    (hall : ∀ turn ∈ (s.view taskId).incompleteTurns turnOrder, ∀ sid, BlockedBy (s.view taskId) turn.turnId sid →
      FailedIn marks turn.turnId sid)
    (hblocked : ∀ m ∈ marks, m.Blocked (s.view taskId) ((s.view taskId).incompleteTurns turnOrder)) :
    (∃ r ∈ rs, r.eventType = EventType.turnFailed.asStr ∧ r.turnId = some k) ↔
      k ∈ (s.view taskId).activeTurns ∧ Dangling (s.view taskId) k := by
  constructor
  · rintro ⟨r, hr, -, hk⟩
    obtain ⟨m, hm, htag⟩ := exists_mark htags hr
    obtain ⟨turn, hturn, hd, hturnId⟩ := hblocked m hm
    have hsame := (htag.turn (inI64_of_incomplete ht hturn) hturnId).symm.trans hk
    rw [← Option.some.inj hsame]
    exact ⟨active_of_incomplete (List.mem_map_of_mem hturn), hd⟩
  · rintro ⟨hactive, sid, hsid⟩
    have hk : k ∈ ((s.view taskId).incompleteTurns turnOrder).map IncompleteTurn.turnId := by
      rw [ht.view] at hactive ⊢
      rw [incompleteTurns_turnIds hn]
      exact mem_walk.mpr hactive
    obtain ⟨turn, hturn, rfl⟩ := List.mem_map.mp hk
    obtain ⟨⟨m, hm, htype, hturnId⟩, -⟩ := hall turn hturn sid hsid
    obtain ⟨r, hr, htag⟩ := exists_record htags hm
    refine ⟨r, hr, ?_, htag.turn (inI64_of_incomplete ht hturn) hturnId⟩
    obtain ⟨e, seq, he, -, -, rfl⟩ := htag
    exact congrArg EventType.asStr (he.trans htype)

/-- **The preview of a recovery writes nothing, and shows what a recovery right after it returns**: the same redos up to
their order. The recovery adds records to the log; afterwards exactly the turns of the redos are open, and exactly the
other incomplete turns were failed. -/
theorem recovery_previewed {turnOrder turnOrder' : List Int} {stepOrder stepOrder' : Int → List String}
    (ht : Tracks taskId s) :
    ∃ status s₀, getRecovery brokerEventStore taskId turnOrder stepOrder s = (.ok status, s₀) ∧
      s₀.streams = s.streams ∧
      ∀ infos s', applyRecovery brokerEventStore taskId turnOrder' stepOrder' s₀ = (.ok infos, s') →
        Numbered taskId (s'.log taskId) →
        infos.Perm status.redoQueue ∧
          (∀ k, k ∈ (s'.view taskId).activeTurns ↔ k ∈ status.redoQueue.map RedoInfo.turnId) ∧
          ∃ rs, s'.log taskId = s.log taskId ++ rs ∧
            ∀ k, (∃ r ∈ rs, r.eventType = EventType.turnFailed.asStr ∧ r.turnId = some k) ↔
              k ∈ status.incompleteTurns.map IncompleteTurn.turnId ∧ k ∉ status.redoQueue.map RedoInfo.turnId := by
  obtain ⟨status, s₀, hrun, hviewed, -, hturns, hshown⟩ := wp_total (getRecovery_healthy ht.healthy turnOrder stepOrder)
  refine ⟨status, s₀, hrun, hviewed.streams, fun infos s' happly hn' => ?_⟩
  have ht₀ := hviewed.tracks ht
  obtain ⟨queue, s₁, hrec, hinfos⟩ := bind_eq_ok.mp happly
  cases hinfos
  obtain ⟨marks, happ, hfails, hall, hblocked⟩ := wp_ok (recoverTask_fails ht₀.healthy turnOrder' stepOrder') hrec
  have hqueue := wp_ok (recoverTask_queue ht₀ turnOrder' stepOrder') hrec hn'
  have hn₀ := Numbered.before happ hn'
  rw [← hviewed.view, redos_eq ht₀ hn₀] at hshown
  have hperm : queue.Perm ((walk turnOrder (s₀.view taskId).activeTurns).filterMap
      (nextRedo (s₀.view taskId) stepOrder)) := by
    rw [hqueue]
    exact walk_filterMap_perm _ _ (Finset.Subset.refl _) (fun k _ => nextRedo_congr _ _ Iff.rfl rfl)
      fun k hk hnot => absurd hk hnot
  -- the redos that are shown are those of the active turns that no step blocks
  have hredos : ∀ k, k ∈ status.redoQueue.map RedoInfo.turnId ↔
      k ∈ (s₀.view taskId).activeTurns ∧ ¬ Dangling (s₀.view taskId) k := by
    intro k
    rw [hshown, ht₀.view, ← mem_redos hn₀ turnOrder stepOrder, List.map_map]
    rfl
  refine ⟨hshown ▸ hperm.map _, fun k => ?_, ?_⟩
  · rw [active_after_iff ht₀ hn₀ happ hfails hall hblocked, hredos]
  · obtain ⟨rs, hlog, -, htags⟩ := happ.records
    have hsame : s₀.log taskId = s.log taskId := congrFun hviewed.streams taskId
    refine ⟨rs, hsame ▸ hlog, fun k => ?_⟩
    have hlisted : k ∈ status.incompleteTurns.map IncompleteTurn.turnId ↔ k ∈ (s₀.view taskId).activeTurns := by
      rw [hturns, ← hviewed.view, ht₀.view, incompleteTurns_turnIds hn₀, mem_walk]
    rw [failed_after_iff ht₀ hn₀ htags hall hblocked, hlisted, hredos]
    tauto

/-- The theorem at two interrupted turns: the payment is failed, and the turn that read a file is shown and returned. -/
theorem recovery_previewed_two_turns : ∃ status s₀ infos s',
    getRecovery brokerEventStore "task_1" [] (fun _ => []) (freshStore twoTurnsLog) = (.ok status, s₀) ∧
      s₀.streams = (freshStore twoTurnsLog).streams ∧
      applyRecovery brokerEventStore "task_1" [2, 1] (fun _ => ["b"]) s₀ = (.ok infos, s') ∧
      infos.map RedoInfo.userInput = ["go on"] ∧ (s'.log "task_1").length = 8 ∧ infos.Perm status.redoQueue ∧
      (∀ k, k ∈ (s'.view "task_1").activeTurns ↔ k ∈ status.redoQueue.map RedoInfo.turnId) ∧
      ∃ rs, s'.log "task_1" = twoTurnsLog ++ rs ∧
        ∀ k, (∃ r ∈ rs, r.eventType = EventType.turnFailed.asStr ∧ r.turnId = some k) ↔
          k ∈ status.incompleteTurns.map IncompleteTurn.turnId ∧ k ∉ status.redoQueue.map RedoInfo.turnId := by
  let shown := getRecovery brokerEventStore "task_1" [] (fun _ => []) (freshStore twoTurnsLog)
  let applied := applyRecovery brokerEventStore "task_1" [2, 1] (fun _ => ["b"]) shown.2
  have hanswer : applied.1.map (List.map RedoInfo.userInput) = .ok ["go on"] := by decide +kernel
  have hlen : (applied.2.log "task_1").length = 8 := by decide +kernel
  have hn : Numbered "task_1" (applied.2.log "task_1") := by decide +kernel
  obtain ⟨status, s₀, hrun, hstreams, hafter⟩ : ∃ status s₀, shown = (.ok status, s₀) ∧
      s₀.streams = (freshStore twoTurnsLog).streams ∧
        ∀ infos s', applyRecovery brokerEventStore "task_1" [2, 1] (fun _ => ["b"]) s₀ = (.ok infos, s') →
          Numbered "task_1" (s'.log "task_1") → infos.Perm status.redoQueue ∧
            (∀ k, k ∈ (s'.view "task_1").activeTurns ↔ k ∈ status.redoQueue.map RedoInfo.turnId) ∧
            ∃ rs, s'.log "task_1" = twoTurnsLog ++ rs ∧
              ∀ k, (∃ r ∈ rs, r.eventType = EventType.turnFailed.asStr ∧ r.turnId = some k) ↔
                k ∈ status.incompleteTurns.map IncompleteTurn.turnId ∧ k ∉ status.redoQueue.map RedoInfo.turnId :=
    recovery_previewed ⟨freshStore_healthy _, freshStore_view _ _⟩
  have happly : applyRecovery brokerEventStore "task_1" [2, 1] (fun _ => ["b"]) s₀ = applied := by
    show _ = applyRecovery brokerEventStore "task_1" [2, 1] (fun _ => ["b"]) shown.2
    rw [hrun]
  cases happlied : applied with
  | mk answer s' =>
    rw [happlied] at hanswer hlen hn happly
    cases answer with
    | error err => cases hanswer
    | ok infos =>
      exact ⟨status, s₀, infos, s', hrun, hstreams, happly, Except.ok.inj hanswer, hlen, hafter infos s' happly hn⟩

end Fixus
