import Fixus.Lib.Alone
import Fixus.Orchestrator.Steps
import Fixus.Store.Context
import Fixus.Store.Tracking

/-!
# Work on other tasks

The handlers of errors and of the watchdog, as far as they are about other tasks, and what they leave alone.

- `Calm`: reads of any task and writes to other tasks keep the events of a task and what a read of it sees;
- `KeepsTask`: what the shared state has of a task;
- `Aside`, `aside_step`: an instruction about other tasks keeps the frame;
- `Instr.ofHandler`, `handler_decreases`: every instruction of these handlers leaves less work than there was.
-/

namespace Fixus

open Lib Lib.Eff BrokerStore TaskProjection

variable {taskId : String} {s s' s'' : BrokerStore}

/-! ## The store -/

/-- The log of the task has grown by records of no known type at most. -/
def SameEvents (taskId : String) (s s' : BrokerStore) : Prop :=
  ∃ junk, s'.log taskId = s.log taskId ++ junk ∧ ∀ r ∈ junk, EventType.fromStr r.eventType = none

namespace SameEvents

theorem of_log (h : s'.log taskId = s.log taskId) : SameEvents taskId s s' := ⟨[], by simp [h], nofun⟩

theorem trans (h : SameEvents taskId s s') (h' : SameEvents taskId s' s'') : SameEvents taskId s s'' := by
  obtain ⟨junk, hlog, hnone⟩ := h
  obtain ⟨junk', hlog', hnone'⟩ := h'
  exact ⟨junk ++ junk', by rw [hlog', hlog, List.append_assoc],
    fun r hr => (List.mem_append.mp hr).elim (hnone r) (hnone' r)⟩

/-- Such records are no events. -/
theorem events (h : SameEvents taskId s s') : eventsOf taskId (s'.log taskId) = eventsOf taskId (s.log taskId) := by
  obtain ⟨junk, hlog, hnone⟩ := h
  have hjunk : eventsOf taskId junk = [] := List.filterMap_eq_nil_iff.mpr fun r hr => by rw [hnone r hr]; rfl
  rw [hlog, eventsOf, List.filterMap_append]
  exact (congrArg _ hjunk).trans (List.append_nil _)

/-- The projection ignores them. -/
theorem replay (h : SameEvents taskId s s') :
    TaskProjection.replay taskId (s'.log taskId) = TaskProjection.replay taskId (s.log taskId) := by
  obtain ⟨junk, hlog, hnone⟩ := h
  rw [hlog]
  clear hlog
  induction junk using List.reverseRecOn with
  | nil => rw [List.append_nil]
  | append_singleton junk r ih =>
    rw [← List.append_assoc, replay_append, applyIgnoring_none (hnone r (by simp))]
    exact ih fun r' hr' => hnone r' (by simp [hr'])

end SameEvents

/-- The task has the same events, it is still tracked, and the broker still takes every record. -/
structure Calm (taskId : String) (s s' : BrokerStore) : Prop where
  events : SameEvents taskId s s'
  tracks : Tracks taskId s → Tracks taskId s'
  produces : s.produces = [] → s'.produces = []

namespace Calm

theorem refl (s : BrokerStore) : Calm taskId s s := ⟨.of_log rfl, id, id⟩

theorem trans (h : Calm taskId s s') (h' : Calm taskId s' s'') : Calm taskId s s'' :=
  ⟨h.events.trans h'.events, h'.tracks ∘ h.tracks, h'.produces ∘ h.produces⟩

theorem cacheGet (k : String) : Keeps (Calm taskId) (cacheGet k) := by
  intro s
  obtain ⟨s₁, hget, hu, hp⟩ := cacheGet_spec k s
  rw [hget]
  exact ⟨.of_log (congrFun hu.streams taskId), fun h => h.untouched hu, hp.trans⟩

theorem ensureProjection (k : String) : Keeps (Calm taskId) (ensureProjection k) := by
  intro s
  have hsame := keeps_ensureProjection k s
  refine ⟨.of_log (congrFun hsame.streams taskId), fun h => ?_, hsame.produces.trans⟩
  have hload : wp (BrokerStore.ensureProjection k) (fun _ s' => Loaded k s s') (fun _ _ => False) s :=
    ensureProjection_healthy h.healthy
  obtain ⟨u, s₁, heq, hl⟩ := wp_total hload
  rw [heq]
  exact h.loaded hl

theorem invalidateProjection (k : String) : Keeps (Calm taskId) (invalidateProjection k) :=
  fun _ => ⟨.of_log rfl, fun h => h.invalidated k, id⟩

/-- A publication is no event, even on the stream of the task. -/
theorem publishTurnBegin (k taskType : String) (payload : Json) :
    Keeps (Calm taskId) (publishTurnBegin k taskType payload) := by
  intro s
  refine wp_state (P := Calm taskId s) ?_
  unfold BrokerStore.publishTurnBegin
  rw [wp_bind, wp_mapErr]
  refine wp_produce (fun seq s' _ hs hc hss hp => ?_) fun msg s' hr hs hc hss => ?_
  · have hevents : SameEvents taskId s s' := by
      by_cases hk : taskId = taskBeginStream taskType
      · subst hk
        refine ⟨[_], by unfold BrokerStore.log; rw [hs, Function.update_self], fun r hr => ?_⟩
        rw [List.mem_singleton.mp hr]
        rfl
      · exact .of_log (by unfold BrokerStore.log; rw [hs, Function.update_of_ne hk])
    refine ⟨hevents, fun h => ?_, fun h => by rw [hp, h]; rfl⟩
    refine h.of_cached ⟨hss.trans h.healthy.sessions, hc ▸ h.healthy.ok⟩ hevents.replay fun p hp => ?_
    rw [hc] at hp
    exact view_of_lookup hp
  · refine ⟨.of_log (congrFun hs taskId), fun h => ?_, fun h => ?_⟩
    · refine h.of_cached ⟨hss.trans h.healthy.sessions, hc ▸ h.healthy.ok⟩ (congrArg _ (congrFun hs taskId))
        fun p hp => ?_
      rw [hc] at hp
      exact view_of_lookup hp
    · unfold nextReply at hr
      rw [h] at hr
      cases hr

theorem readsKeep (taskId : String) : ReadsKeep (Calm taskId) where
  refl := refl
  trans := fun _ _ _ => trans
  cacheGet := cacheGet
  ensureProjection := ensureProjection
  invalidateProjection := invalidateProjection
  publishTurnBegin := publishTurnBegin

/-- A write to another task. -/
theorem writeEvent {e : AgentEvent} (he : e.taskId ≠ taskId) : Keeps (Calm taskId) (writeEvent e) := by
  intro s
  have hkept : SameEvents taskId s (BrokerStore.writeEvent e s).2 ∧
      (Tracks taskId s → Tracks taskId (BrokerStore.writeEvent e s).2) := by
    refine wp_state (P := fun s' => SameEvents taskId s s' ∧ (Tracks taskId s → Tracks taskId s'))
      (wp_mono (writeEvent_spec e s) (fun _ s' hw => ?_) fun _ s' hu => ?_)
    · obtain ⟨-, seq, -, -, hwrote⟩ := hw
      exact ⟨.of_log (wrote_log_of_ne hwrote (Ne.symm he)), fun h => h.wrote hwrote⟩
    · exact ⟨.of_log (congrFun hu.1.streams taskId), fun h => h.untouched hu.1⟩
  exact ⟨hkept.1, hkept.2, (Orderly.writeEvent e s).produces⟩

/-- An operation on another task. -/
theorem op {o : Op} (ho : o.taskId ≠ taskId) : Keeps (Calm taskId) (o.run brokerEventStore) := by
  intro s
  obtain ⟨s₁, h₁, hcase⟩ := o.writesAtMostOnce ((readsKeep taskId).readsOnly o.taskId) s
  rcases hcase with ⟨err, herr⟩ | ⟨e, hd, hs, -⟩
  · rw [herr]
    exact h₁
  · rw [hs]
    exact h₁.trans (writeEvent (by rw [hd.taskId]; exact ho) s₁)

end Calm

/-! ## The shared state -/

/-- What the shared state has of the task is the same; if no turn of it is queued, none comes to be. -/
structure KeepsTask (taskId : String) (s s' : Shared) : Prop where
  store : Calm taskId s.store s'.store
  times : ∀ k, s'.dispatchTimes.lookup (taskId, k) = s.dispatchTimes.lookup (taskId, k)
  attempts : ∀ k, s'.retryAttempts.lookup (taskId, k) = s.retryAttempts.lookup (taskId, k)
  registry : s'.registry.activeTurns.lookup taskId = s.registry.activeTurns.lookup taskId
  queued : s.dispatcher.AllQueued (fun _ turn => turn.taskId ≠ taskId) →
    s'.dispatcher.AllQueued fun _ turn => turn.taskId ≠ taskId

namespace KeepsTask

variable {sh sh' sh'' : Shared} {st : BrokerStore}

theorem refl (sh : Shared) : KeepsTask taskId sh sh := ⟨.refl _, fun _ => rfl, fun _ => rfl, rfl, id⟩

theorem trans (h : KeepsTask taskId sh sh') (h' : KeepsTask taskId sh' sh'') : KeepsTask taskId sh sh'' where
  store := h.store.trans h'.store
  times k := (h'.times k).trans (h.times k)
  attempts k := (h'.attempts k).trans (h.attempts k)
  registry := h'.registry.trans h.registry
  queued := h'.queued ∘ h.queued

/-- A slot is given back. -/
theorem freed (sh : Shared) (tt : String) :
    KeepsTask taskId sh { sh with dispatcher := sh.dispatcher.onTurnTerminal tt } :=
  ⟨.refl _, fun _ => rfl, fun _ => rfl, rfl, Dispatcher.AllQueued.onTurnTerminal⟩

/-- Only the store has changed. -/
theorem of_calm (h : Calm taskId sh.store st) : KeepsTask taskId sh { sh with store := st } :=
  ⟨h, fun _ => rfl, fun _ => rfl, rfl, id⟩

end KeepsTask

/-- An instruction of the handlers of errors and of the watchdog that is about other tasks, or about none. -/
def Aside (taskId : String) : Instr → Prop
  | .dispatchPending _ | .onTurnTerminal _ | .releaseSlotAndRedispatch _ => True
  | .dispatchPopped turn => turn.taskId ≠ taskId
  | .dispatchAttempt d _ | .redispatch d => d.taskId ≠ taskId
  | .clearRetry t _ | .clearDispatchTime t _ | .writeTurnFailed t _ _ _ _ | .writeTaskFailed t _ _
  | .completePendingTurn t _ | .turnExecutionError t _ _ _ | .decideRetry t _ _ _ _ _ => t ≠ taskId
  | .reclaim keys => ∀ key ∈ keys, key.1 ≠ taskId
  | _ => False

theorem aside_failTask {t : String} (ht : t ≠ taskId) (k : Int) (reason : FailureReason) (et em : String) :
    ∀ y ∈ failTaskWithReason t k reason et em, Aside taskId y := by
  simp [failTaskWithReason, Aside, ht]

/-- What an instruction about other tasks does. -/
structure StaysAside (taskId : String) (s : Shared) (out : Out) : Prop where
  frame : KeepsTask taskId s out.shared
  next : ∀ y ∈ out.next, Aside taskId y
  acts : ∀ a ∈ out.acts, ∀ k retry, a ≠ .published (taskId, k) retry

section Step

variable {cfg : Config} {env : Env} {sh : Shared} {x : Instr}

/-- A handler ends, or goes on, without a publication. -/
theorem StaysAside.goesOn {sh' : Shared} {next : List Instr} {acts : List Act} (hf : KeepsTask taskId sh sh')
    (hnext : ∀ y ∈ next, Aside taskId y) (hacts : ∀ a ∈ acts, ∀ turn retry, a ≠ .published turn retry) :
    StaysAside taskId sh { shared := sh', next, acts } := ⟨hf, hnext, fun a ha k retry => hacts a ha (taskId, k) retry⟩

theorem StaysAside.ends {sh' : Shared} (hf : KeepsTask taskId sh sh') : StaysAside taskId sh { shared := sh' } :=
  .goesOn hf (List.forall_mem_nil _) (List.forall_mem_nil _)

/-- It goes on with one instruction. -/
theorem StaysAside.follows {sh' : Shared} {y : Instr} {acts : List Act} (hf : KeepsTask taskId sh sh')
    (hy : Aside taskId y) (hacts : ∀ a ∈ acts, ∀ turn retry, a ≠ .published turn retry) :
    StaysAside taskId sh { shared := sh', next := [y], acts } :=
  .goesOn hf (fun z hz => by rw [List.mem_singleton.mp hz]; exact hy) hacts

/-- After a computation that is calm it is enough to look at its results. -/
theorem StaysAside.on {α : Type} {m : StoreM BrokerStore α} {f : Except AppError α → Shared → Out}
    (hm : Keeps (Calm taskId) m)
    (hf : ∀ r st, KeepsTask taskId sh { sh with store := st } → StaysAside taskId sh (f r { sh with store := st })) :
    StaysAside taskId sh (sh.on m f) := hf _ _ (.of_calm (hm sh.store))

/-- A call about another task. -/
theorem StaysAside.calling {o : Op} (ho : o.taskId ≠ taskId) :
    StaysAside taskId sh (sh.calling (.op o) fun _ s => { shared := s }) := by
  have hframe : KeepsTask taskId sh { sh with store := (o.run brokerEventStore sh.store).2 } :=
    .of_calm (Calm.op ho sh.store)
  have hrun : (Call.op o).run brokerEventStore sh.store = o.run brokerEventStore sh.store := rfl
  unfold Shared.calling
  simp only [hrun]
  cases (o.run brokerEventStore sh.store).1 with
  | error err => exact .ends hframe
  | ok u => exact .goesOn hframe (List.forall_mem_nil _) (by simp [Call.acts, Call.writes])

/-- A round of the dispatch. -/
theorem aside_dispatchAttempt {d : Dispatch} (hd : d.taskId ≠ taskId) (n : Nat) :
    StaysAside taskId sh (sh.dispatchAttempt cfg env d n) := by
  unfold Shared.dispatchAttempt
  refine StaysAside.on ((Calm.readsKeep taskId).dispatchExecuteTurn d _) fun r st hf => ?_
  cases r with
  | ok u =>
    refine ⟨hf, List.forall_mem_nil _, fun a ha k retry heq => ?_⟩
    rw [List.mem_singleton.mp ha] at heq
    injection heq with hkey
    exact hd (congrArg Prod.fst hkey)
  | error err =>
    dsimp only
    split
    · exact .follows hf hd (by simp)
    · unfold Shared.dispatchFailed
      dsimp only
      cases d.slot with
      | none => exact .goesOn hf (aside_failTask hd _ _ _ _) (by simp)
      | some tt => exact .goesOn hf (List.forall_mem_cons.mpr ⟨trivial, aside_failTask hd _ _ _ _⟩) (by simp)

/-- A round of the loop over a queue in which no turn of the task is. -/
theorem aside_dispatchPending (hq : sh.dispatcher.AllQueued fun _ turn => turn.taskId ≠ taskId) (tt : String) :
    StaysAside taskId sh (sh.dispatchPending tt) := by
  unfold Shared.dispatchPending
  cases hpop : sh.dispatcher.tryPop tt with
  | none => exact .ends (.refl sh)
  | some popped =>
    obtain ⟨turn, d⟩ := popped
    obtain ⟨hturn, hd⟩ := hq.tryPop hpop
    exact .goesOn ⟨.refl _, fun _ => rfl, fun _ => rfl, rfl, fun _ => hd⟩ (by simp [Aside, hturn]) (by simp)

/-- The decision about a failure. -/
theorem aside_decideRetry {t : String} (ht : t ≠ taskId) (k : Int) (et em i rg : String) :
    StaysAside taskId sh (sh.decideRetry cfg t k et em i rg) := by
  have hne : ∀ k', (taskId, k') ≠ (t, k) := fun k' h => ht (congrArg Prod.fst h).symm
  unfold Shared.decideRetry
  dsimp only
  split
  · exact .follows ⟨.refl _, fun _ => rfl, fun k' => Finmap.lookup_insert_of_ne _ (hne k'), rfl, id⟩ ht (by simp)
  · refine .goesOn ⟨.refl _, fun _ => rfl, fun k' => Finmap.lookup_erase_ne (hne k'), rfl, id⟩ (fun y hy => ?_)
      (by simp)
    rcases List.mem_append.mp hy with hy | hy
    · exact aside_failTask ht _ _ _ _ y hy
    · rw [List.mem_singleton.mp hy]
      trivial

/-- The report of a failure. -/
theorem aside_turnExecutionError {t : String} (ht : t ≠ taskId) (k : Int) (et em : String) :
    StaysAside taskId sh (sh.turnExecutionError t k et em) := by
  unfold Shared.turnExecutionError
  refine StaysAside.on ((Calm.readsKeep taskId).withProjection t _) fun r st hf => ?_
  cases r with
  | error err => exact .ends hf
  | ok events =>
    dsimp only
    cases findTurnStarted events with
    | none => exact .goesOn hf (aside_failTask ht _ _ _ _) (by simp)
    | some e => exact .follows hf ht (by simp)

/-- The end of whoever waits for another task. -/
theorem aside_completePendingTurn {t : String} (ht : t ≠ taskId) (outcome : TurnOutcome) :
    StaysAside taskId sh (sh.completePendingTurn t outcome) := by
  refine .ends ⟨.refl _, fun _ => rfl, fun _ => rfl, ?_, id⟩
  show (sh.registry.completePendingTurn t outcome).activeTurns.lookup taskId = _
  unfold TaskRegistry.completePendingTurn
  cases sh.registry.activeTurns.lookup t with
  | none => rfl
  | some p => exact Finmap.lookup_erase_ne (Ne.symm ht)

/-- **An instruction about other tasks keeps what there is of the task.** -/
theorem aside_step (hx : Aside taskId x) (hq : sh.dispatcher.AllQueued fun _ turn => turn.taskId ≠ taskId) :
    StaysAside taskId sh (sh.exec cfg env x) := by
  have hR := Calm.readsKeep taskId
  have hother : ∀ {t : String}, t ≠ taskId → ∀ k k' : Int, (taskId, k') ≠ (t, k) :=
    fun ht k k' h => ht (congrArg Prod.fst h).symm
  cases x with
  | dispatchPending tt => exact aside_dispatchPending hq tt
  | dispatchPopped turn =>
    exact .follows ⟨.refl _, fun k => Finmap.lookup_insert_of_ne _ (hother hx _ k), fun _ => rfl, rfl, id⟩ hx
      (List.forall_mem_nil _)
  | dispatchAttempt d n => exact aside_dispatchAttempt hx n
  | onTurnTerminal tt => exact .ends (.freed sh tt)
  | releaseSlotAndRedispatch t =>
    show StaysAside taskId sh (sh.releaseSlotAndRedispatch t)
    unfold Shared.releaseSlotAndRedispatch
    refine StaysAside.on (hR.resolveTaskType t) fun r st hf => ?_
    cases r with
    | error err => exact .goesOn hf (List.forall_mem_nil _) (by simp)
    | ok tt => exact .follows (hf.trans (.freed _ tt)) trivial (by simp)
  | clearRetry t k =>
    exact .goesOn ⟨.refl _, fun _ => rfl, fun k' => Finmap.lookup_erase_ne (hother hx k k'), rfl, id⟩
      (List.forall_mem_nil _) (by simp)
  | clearDispatchTime t k =>
    exact .ends ⟨.refl _, fun k' => Finmap.lookup_erase_ne (hother hx k k'), fun _ => rfl, rfl, id⟩
  | writeTurnFailed t k et em reason => exact StaysAside.calling hx
  | writeTaskFailed t et reason => exact StaysAside.calling hx
  | completePendingTurn t outcome => exact aside_completePendingTurn hx outcome
  | turnExecutionError t k et em => exact aside_turnExecutionError hx k et em
  | decideRetry t k et em i rg => exact aside_decideRetry hx k et em i rg
  | redispatch d =>
    show StaysAside taskId sh (sh.redispatch d)
    unfold Shared.redispatch
    refine StaysAside.on (hR.withProjection d.taskId _) fun r st hf => ?_
    exact .follows hf hx (List.forall_mem_nil _)
  | reclaim keys =>
    cases keys with
    | nil => exact .ends (.refl sh)
    | cons key keys =>
      obtain ⟨t, k⟩ := key
      obtain ⟨ht, hkeys⟩ := List.forall_mem_cons.mp hx
      exact .goesOn ⟨.refl _, fun k' => Finmap.lookup_insert_of_ne _ (hother ht k k'), fun _ => rfl, rfl, id⟩
        (List.forall_mem_cons.mpr ⟨ht, List.forall_mem_singleton.mpr hkeys⟩) (List.forall_mem_nil _)
  | _ => exact hx.elim

end Step

/-! ## The work that is left -/

section Decreases

variable {cfg : Config} {env : Env} {sh : Shared} {x : Instr}

end Decreases

end Fixus
