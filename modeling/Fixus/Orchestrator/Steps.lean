import Fixus.Orchestrator.Reads

/-!
# What an instruction can do

`Step cfg s x out` lists, rule by rule, what executing the instruction `x` in `s` can result in. The reads of the store
are abstracted away: of the store a rule says which events were written.

- `Grows`: the logs grow by records of the given events and in no other way;
- `Call.grows`: a call that succeeds writes its events, and one that fails writes nothing;
- `exec_step`: the orchestrator follows the rules.
-/

namespace Fixus

open Lib Lib.Eff BrokerStore

/-! ## How the logs grow -/

/-- Each log grows by records of events in the list; the terminal record of a turn is one of an event with its tag. -/
def Grows (written : List (String × EventType × Option Int)) (st st' : BrokerStore) : Prop :=
  ∀ taskId, ∃ new, st'.log taskId = st.log taskId ++ new ∧ ∀ r ∈ new, ∀ et, EventType.fromStr r.eventType = some et →
    ∃ k, (taskId, et, k) ∈ written ∧ (et.isTurnTerminal = true → ∀ n, r.turnId = some n → k = some n)

variable {written : List (String × EventType × Option Int)} {st st' st'' : BrokerStore}

theorem Grows.of_streams (h : st'.streams = st.streams) : Grows written st st' :=
  fun taskId => ⟨[], by simp [BrokerStore.log, h], fun r hr => by cases hr⟩

theorem Grows.refl (st : BrokerStore) : Grows written st st := Grows.of_streams rfl

theorem Grows.trans (h₁ : Grows written st st') (h₂ : Grows written st' st'') : Grows written st st'' := by
  intro taskId
  obtain ⟨new₁, hl₁, hr₁⟩ := h₁ taskId
  obtain ⟨new₂, hl₂, hr₂⟩ := h₂ taskId
  refine ⟨new₁ ++ new₂, by rw [hl₂, hl₁, List.append_assoc], fun r hr => ?_⟩
  exact (List.mem_append.mp hr).elim (hr₁ r) (hr₂ r)

/-- A record goes to one stream. -/
theorem Grows.update {stream : String} {r : Record}
    (h : st'.streams = Function.update st.streams stream (st.streams stream ++ [r]))
    (hr : ∀ et, EventType.fromStr r.eventType = some et →
      ∃ k, (stream, et, k) ∈ written ∧ (et.isTurnTerminal = true → ∀ n, r.turnId = some n → k = some n)) :
    Grows written st st' := by
  intro taskId
  by_cases ht : taskId = stream
  · subst ht
    exact ⟨[r], by simp [BrokerStore.log, h], fun r' hr' => by rw [List.mem_singleton.mp hr']; exact hr⟩
  · exact ⟨[], by simp [BrokerStore.log, h, Function.update_of_ne ht], fun r' hr' => by cases hr'⟩

/-- The record of an event carries its type and at most its turn. -/
theorem recordOf_tags {e : AgentEvent} {seq : Nat} {et : EventType}
    (h : EventType.fromStr (recordOf seq e).eventType = some et) :
    e.eventType = et ∧ ∀ n, (recordOf seq e).turnId = some n → e.turnId = some n := by
  have hasStr : EventType.fromStr (recordOf seq e).eventType = some e.eventType := EventType.fromStr_asStr _
  refine ⟨Option.some.inj (hasStr.symm.trans h), fun n hn => ?_⟩
  have hl : (recordOf seq e).metadata.lookup "turn_id" = e.turnId.map toString := eventMeta_turnId e
  unfold Record.turnId at hn
  rw [hl] at hn
  cases hk : e.turnId with
  | none => rw [hk] at hn; cases hn
  | some k =>
    rw [hk] at hn
    have hp : (parseInt (toString k).toList).filter (fun n => decide (InI64 n)) = some n := hn
    rw [parseInt_toString] at hp
    simp only [Option.filter_some, Option.ite_none_right_eq_some, Option.some.injEq] at hp
    rw [hp.2]

/-- The records of a batch. -/
theorem Grows.batch {events : List AgentEvent} {seqs : List Nat}
    (h : st'.streams = appendAll st.streams (events.zip seqs)) :
    Grows (events.map fun e => (e.taskId, e.eventType, e.turnId)) st st' := by
  intro taskId
  refine ⟨_, by unfold BrokerStore.log; rw [h, appendAll_apply], fun r hr et het => ?_⟩
  obtain ⟨w, hw, rfl⟩ := List.mem_map.mp hr
  obtain ⟨hw, ht⟩ := List.mem_filter.mp hw
  obtain ⟨het, hk⟩ := recordOf_tags het
  refine ⟨w.1.turnId, List.mem_map.mpr ⟨w.1, (List.of_mem_zip hw).1, ?_⟩, fun _ => hk⟩
  rw [of_decide_eq_true ht, het]

/-- **A call that succeeds writes its events.** -/
theorem Call.grows {c : Call} (h : c.run brokerEventStore st = (.ok (), st')) : Grows c.writes st st' := by
  cases c with
  | op o =>
    have hrun : o.run brokerEventStore st = (.ok (), st') := h
    rcases op_spec o st with ⟨⟨err, herr⟩, -⟩ | ⟨-, e, seq, st₁, hd, hsame, -, -, hw⟩
    · rw [hrun] at herr; cases herr
    · rw [hrun] at hw
      refine (Grows.of_streams hsame.streams).trans (Grows.update hw.streams fun et het => ?_)
      obtain ⟨rfl, hk⟩ := recordOf_tags het
      refine ⟨o.turnId, by simp [Call.writes, hd.taskId, hd.eventType], fun hterm n hn => ?_⟩
      have hne : o.eventType ≠ .turnStarted := fun hs => by rw [hd.eventType, hs] at hterm; cases hterm
      rw [← hd.turnId hne, hk n hn]
  | createTask uuid taskType provenance body priority effectivePolicy =>
    obtain ⟨-, -, r, hr, hs⟩ := wp_ok (createTask_spec uuid taskType provenance body priority effectivePolicy st) h
    refine Grows.update hs fun et het => ?_
    rw [hr, EventType.fromStr_asStr] at het
    cases Option.some.inj het
    exact ⟨none, by simp [Call.writes], nofun⟩
  | writeEventsBatch events =>
    obtain ⟨-, seqs, -, hs, -⟩ := wp_ok (batch_spec events st) h
    exact Grows.batch hs

/-- **A call that fails writes nothing.** -/
theorem Call.grows_error {c : Call} {err : AppError} (h : c.run brokerEventStore st = (.error err, st')) :
    Grows [] st st' := by
  cases c with
  | op o =>
    have hrun : o.run brokerEventStore st = (.error err, st') := h
    rcases op_spec o st with ⟨-, hk⟩ | ⟨hok, -⟩
    · rw [hrun] at hk
      exact Grows.of_streams hk.streams
    · rw [hrun] at hok; cases hok
  | createTask uuid taskType provenance body priority effectivePolicy =>
    exact Grows.of_streams (wp_error (createTask_spec uuid taskType provenance body priority effectivePolicy st) h).2.2
  | writeEventsBatch events => exact Grows.of_streams (wp_error (batch_spec events st) h).2.1

/-! ## The reads of the handlers -/

/-- The computation writes no event. -/
abbrev Reads {α : Type} (m : StoreM BrokerStore α) : Prop := Keeps (Grows []) m

theorem reads_of_sameTask {α : Type} {m : StoreM BrokerStore α} {taskId : String} (h : Keeps (SameTask taskId) m) :
    Reads m := fun s => Grows.of_streams (h s).streams

/-- The reads write no event, and nor does a publication: its record is of no type that a log knows. -/
theorem readsKeep_grows : ReadsKeep (Grows []) where
  refl := Grows.refl
  trans := fun _ _ _ => Grows.trans
  cacheGet := fun taskId => reads_of_sameTask (keeps_cacheGet taskId taskId)
  ensureProjection := fun taskId => reads_of_sameTask (keeps_ensureProjection taskId)
  invalidateProjection := fun _ _ => Grows.of_streams rfl
  publishTurnBegin := by
    intro taskId taskType payload s
    refine wp_state (P := Grows [] s) ?_
    unfold BrokerStore.publishTurnBegin
    rw [wp_bind, wp_mapErr]
    exact wp_produce (fun _ _ _ hs _ _ _ => Grows.update hs fun et het => by cases het)
      fun _ _ _ hs _ _ => Grows.of_streams hs

theorem reads_getTurnEvents (taskId : String) (turnId : Int) : Reads (brokerEventStore.getTurnEvents taskId turnId) :=
  readsKeep_grows.withProjection taskId _

theorem reads_getIncompleteTurns (taskId : String) (order : List Int) :
    Reads (brokerEventStore.getIncompleteTurns taskId order) := readsKeep_grows.withProjection taskId _

theorem reads_resolveTaskType (taskId : String) : Reads (resolveTaskType brokerEventStore taskId) :=
  readsKeep_grows.resolveTaskType taskId

theorem reads_typeAndPriority (taskId : String) : Reads (typeAndPriority brokerEventStore taskId) :=
  readsKeep_grows.typeAndPriority taskId

theorem reads_nextTurnId (taskId : String) : Reads (nextTurnId brokerEventStore taskId) :=
  readsKeep_grows.nextTurnId taskId

theorem reads_recoverTurn (taskId : String) (turn : IncompleteTurn) (order : List String) :
    Reads (recoverTurn brokerEventStore taskId turn order) := readsKeep_grows.recoverTurn taskId turn order

theorem reads_dispatchExecuteTurn (d : Dispatch) (context : Except AppError LlmContext) :
    Reads (dispatchExecuteTurn brokerEventStore d context) := readsKeep_grows.dispatchExecuteTurn d context

/-! ## The rules -/

/-- The instruction gives a slot back. -/
def Instr.frees : Instr → Bool
  | .onTurnTerminal _ | .releaseSlotAndRedispatch _ => true
  | _ => false

/-- What an instruction can result in. -/
inductive Step (cfg : Config) (s : Shared) : Instr → Out → Prop
  /-- A handler ends here, for want of a reply or because it is done. -/
  | stop {x st} (h : Grows [] s.store st) (hx : x.frees = false) : Step cfg s x { shared := { s with store := st } }
  -- requests
  | checkedNone {t i rg st} (h : Grows [] s.store st) : Step cfg s (.executeTurn t i rg)
      { shared := { s with store := st }, next := [.startTurn t i rg], acts := [.checked t false] }
  | checkedSome {t i rg st} (h : Grows [] s.store st) : Step cfg s (.executeTurn t i rg)
      { shared := { s with store := st }, spawned := [.recoverTask t], acts := [.checked t true] }
  | numbered {t i rg st k rg'} (h : Grows [] s.store st) : Step cfg s (.startTurn t i rg)
      { shared := { s with store := st }, next := [.writeTurnStarted t k i rg'] }
  | started {t k i rg st} (h : Grows [(t, .turnStarted, some k)] s.store st) : Step cfg s (.writeTurnStarted t k i rg)
      { shared := { s with store := st }, next := [.runTurnToCompletion t k i rg]
        acts := [.wrote t .turnStarted (some k)] }
  | resolved {t k i rg st} (h : Grows [] s.store st) : Step cfg s (.runTurnToCompletion t k i rg)
      { shared := { s with store := st }, next := [.registerTurn t k i rg] }
  | registered {t k i rg} : Step cfg s (.registerTurn t k i rg)
      { shared := { s with registry := s.registry.registerPendingTurn t k rg }
        next := [.enqueueTurn t k i rg s.registry.nextChan], acts := [.registered (t, k)] }
  | enqueued {t k i rg chan st} {turn : QueuedTurn} (h : Grows [] s.store st) (hk : turn.key = (t, k)) :
      Step cfg s (.enqueueTurn t k i rg chan)
        { shared := { s with store := st, dispatcher := s.dispatcher.enqueue turn }
          next := [.dispatchPending turn.taskType, .awaitTurn t k chan 0], acts := [.enqueued (t, k) turn.taskType] }
  | awaited {t k chan n n'} : Step cfg s (.awaitTurn t k chan n) { shared := s, next := [.awaitTurn t k chan n'] }
  | timedOut {t k chan n et em} : Step cfg s (.awaitTurn t k chan n)
      { shared := s, next := failTurnAndRespond t k et em, acts := [.ended (t, k) true] }
  -- dispatch
  | popped {tt turn d} (h : s.dispatcher.tryPop tt = some (turn, d)) : Step cfg s (.dispatchPending tt)
      { shared := { s with dispatcher := d }, next := [.dispatchPopped turn, .dispatchPending tt]
        acts := [.popped turn.key] }
  | timed {turn times} {d : Dispatch} (hk : d.key = turn.key) (hs : d.slot = some turn.taskType) :
      Step cfg s (.dispatchPopped turn)
        { shared := { s with dispatchTimes := times }, next := [.dispatchAttempt d 0] }
  | published {d n st} (h : Grows [] s.store st) : Step cfg s (.dispatchAttempt d n)
      { shared := { s with store := st }, acts := [.published d.key d.slot.isNone] }
  | publishAgain {d n st} (h : Grows [] s.store st) : Step cfg s (.dispatchAttempt d n)
      { shared := { s with store := st }, next := [.dispatchAttempt d (n + 1)] }
  | popFailed {d n st tt em} (h : Grows [] s.store st) (hs : d.slot = some tt) : Step cfg s (.dispatchAttempt d n)
      { shared := { s with store := st }
        next := .onTurnTerminal tt :: failTaskWithReason d.taskId d.turnId .redoDispatchFailed "redo_dispatch_failed" em
        acts := [.ended d.key true] }
  | retryFailed {d n st em} (h : Grows [] s.store st) (hs : d.slot = none) : Step cfg s (.dispatchAttempt d n)
      { shared := { s with store := st }
        next := failTaskWithReason d.taskId d.turnId .redoDispatchFailed "redo_dispatch_failed" em
        acts := [.ended d.key false] }
  | slotFreed {tt} : Step cfg s (.onTurnTerminal tt)
      { shared := { s with dispatcher := s.dispatcher.onTurnTerminal tt } }
  | released {t tt st} (h : Grows [] s.store st) : Step cfg s (.releaseSlotAndRedispatch t)
      { shared := { s with store := st, dispatcher := s.dispatcher.onTurnTerminal tt }
        next := [.dispatchPending tt], acts := [.released t (some tt)] }
  | notReleased {t st} (h : Grows [] s.store st) : Step cfg s (.releaseSlotAndRedispatch t)
      { shared := { s with store := st }, acts := [.released t none] }
  -- the end of a turn
  | retryCleared {t k} : Step cfg s (.clearRetry t k)
      { shared := { s with retryAttempts := s.retryAttempts.erase (t, k) }
        acts := [.cleared (t, k) (s.attemptsOf (t, k))] }
  | timeCleared {t k times} : Step cfg s (.clearDispatchTime t k) { shared := { s with dispatchTimes := times } }
  | turnFailed {t k et em reason st} (h : Grows [(t, .turnFailed, some k)] s.store st) :
      Step cfg s (.writeTurnFailed t k et em reason)
        { shared := { s with store := st }, acts := [.wrote t .turnFailed (some k)] }
  | taskFailed {t et reason st} (h : Grows [(t, .taskFailed, none)] s.store st) :
      Step cfg s (.writeTaskFailed t et reason)
        { shared := { s with store := st }, acts := [.wrote t .taskFailed none] }
  | completed {t outcome} : Step cfg s (.completePendingTurn t outcome)
      { shared := { s with registry := s.registry.completePendingTurn t outcome } }
  | done {t k out st} (h : Grows [(t, .turnCompleted, some k)] s.store st) : Step cfg s (.turnExecutionDone t k out)
      { shared := { s with store := st }
        next := [.clearRetry t k, .clearDispatchTime t k, .releaseSlotAndRedispatch t, .countTurnEvents t k out]
        acts := [.wrote t .turnCompleted (some k), .ended (t, k) true] }
  | counted {t k out st outcome} (h : Grows [] s.store st) : Step cfg s (.countTurnEvents t k out)
      { shared := { s with store := st }, next := [.completePendingTurn t outcome] }
  | notStarted {t k et em st} (h : Grows [] s.store st) : Step cfg s (.turnExecutionError t k et em)
      { shared := { s with store := st }, next := failTaskWithReason t k (classifyFailure et) et em
        acts := [.ended (t, k) false] }
  | foundStarted {t k et em st i rg} (h : Grows [] s.store st) : Step cfg s (.turnExecutionError t k et em)
      { shared := { s with store := st }, next := [.decideRetry t k et em i rg] }
  | retried {t k et em i rg} {d : Dispatch} (hr : (classifyFailure et).isRetryable = true)
      (hb : s.attemptsOf (t, k) < cfg.retryPolicy.maxAttempts) (hk : d.key = (t, k)) (hs : d.slot = none) :
      Step cfg s (.decideRetry t k et em i rg)
        { shared := { s with retryAttempts := s.retryAttempts.insert (t, k) (s.attemptsOf (t, k) + 1) }
          next := [.redispatch d], acts := [.retried (t, k)] }
  | finallyFailed {t k et em i rg} : Step cfg s (.decideRetry t k et em i rg)
      { shared := { s with retryAttempts := s.retryAttempts.erase (t, k) }
        next := failTaskWithReason t k (classifyFailure et) et em ++ [.releaseSlotAndRedispatch t]
        acts := [.cleared (t, k) (s.attemptsOf (t, k)), .ended (t, k) true] }
  | redispatched {d st cached} (h : Grows [] s.store st) : Step cfg s (.redispatch d)
      { shared := { s with store := st }, next := [.dispatchAttempt { d with cachedLlm := cached } 0] }
  -- recovery
  | listed {t st turns} (h : Grows [] s.store st) (hn : (turns.map IncompleteTurn.turnId).Nodup) :
      Step cfg s (.recoverTask t)
      { shared := { s with store := st }, next := [.recoverTurns t turns []] }
  | decided {t redo} : Step cfg s (.recoverTurns t [] redo) { shared := s, next := [.redoAll t redo] }
  | safe {t turn turns redo st} {ctx : Option RedoContext} (h : Grows [] s.store st)
      (hr : ∀ r ∈ ctx.toList, r.turnId = turn.turnId) : Step cfg s (.recoverTurns t (turn :: turns) redo)
      { shared := { s with store := st }, next := [.recoverTurns t turns (redo ++ ctx.toList)] }
  | unsafeToRedo {t turn turns redo st steps n} (h : Grows [] s.store st) :
      Step cfg s (.recoverTurns t (turn :: turns) redo)
        { shared := { s with store := st }, next := [.skipSteps t turn.turnId steps n turns redo] }
  | skipped {t k n turns redo} : Step cfg s (.skipSteps t k [] n turns redo)
      { shared := s, next := [.failBlocked t k n turns redo] }
  | skippedStep {t k step steps n turns redo st} (h : Grows [(t, .toolFailed, some k)] s.store st) :
      Step cfg s (.skipSteps t k (step :: steps) n turns redo)
        { shared := { s with store := st }, next := [.skipSteps t k steps n turns redo]
          acts := [.wrote t .toolFailed (some k)] }
  | blocked {t k n turns redo st} (h : Grows [(t, .turnFailed, some k)] s.store st) :
      Step cfg s (.failBlocked t k n turns redo)
        { shared := { s with store := st }, next := [.recoverTurns t turns redo]
          acts := [.wrote t .turnFailed (some k), .ended (t, k) false, .recoveryFailed (t, k)] }
  | redoResolved {t redo st} (h : Grows [] s.store st) : Step cfg s (.redoAll t redo)
      { shared := { s with store := st }, next := [.redoTurns t redo] }
  | redoRegistered {t r redo} : Step cfg s (.redoTurns t (r :: redo))
      { shared := { s with registry := s.registry.registerPendingTurn t r.turnId r.redoGroup }
        next := [.redoCached t r s.registry.nextChan redo], acts := [.registered (t, r.turnId)] }
  | redoRead {t r chan redo st cached} (h : Grows [] s.store st) : Step cfg s (.redoCached t r chan redo)
      { shared := { s with store := st }, next := [.enqueueRedo t r cached chan redo] }
  | redoEnqueued {t r cached chan redo st} {turn : QueuedTurn} (h : Grows [] s.store st)
      (hk : turn.key = (t, r.turnId)) : Step cfg s (.enqueueRedo t r cached chan redo)
      { shared := { s with store := st, dispatcher := s.dispatcher.enqueue turn }
        next := [.dispatchPending turn.taskType, .awaitRedo t r.turnId chan 0 redo]
        acts := [.enqueued (t, r.turnId) turn.taskType] }
  | redoRejected {t r cached chan redo st et em} (h : Grows [] s.store st) :
      Step cfg s (.enqueueRedo t r cached chan redo)
        { shared := { s with store := st }, next := [.giveUpRedo t r.turnId et em redo] }
  | redoAwaited {t k chan n n' redo} : Step cfg s (.awaitRedo t k chan n redo)
      { shared := s, next := [.awaitRedo t k chan n' redo] }
  | redoDone {t k chan n redo} : Step cfg s (.awaitRedo t k chan n redo) { shared := s, next := [.redoTurns t redo] }
  | redoTimedOut {t k chan n redo et em} : Step cfg s (.awaitRedo t k chan n redo)
      { shared := s, next := [.giveUpRedo t k et em redo] }
  | redoGivenUp {t k et em redo} : Step cfg s (.giveUpRedo t k et em redo)
      { shared := s, next := failTurnAndRespond t k et em ++ [.redoTurns t redo]
        acts := [.ended (t, k) true, .recoveryFailed (t, k)] }
  -- watchdog and calls
  | scanned {keys} : Step cfg s .watchdog { shared := s, next := [.reclaim keys] }
  | reclaimed {t k keys times} : Step cfg s (.reclaim ((t, k) :: keys))
      { shared := { s with dispatchTimes := times }
        next := [.turnExecutionError t k "agent_unresponsive" "no terminal event within turn_lease", .reclaim keys] }
  | called {c st} (h : Grows c.writes s.store st) : Step cfg s (.call c)
      { shared := { s with store := st }, acts := c.acts ++ c.endedTurns.map fun turn => .ended turn false }

/-- A call reports writes and ends of turns only. -/
theorem mem_call_acts {c : Call} {a : Act} (h : a ∈ c.acts ++ c.endedTurns.map fun turn => .ended turn false) :
    (∃ t et k, a = .wrote t et k) ∨ ∃ turn, a = .ended turn false := by
  rcases List.mem_append.mp h with h | h
  · obtain ⟨⟨t, et, k⟩, -, rfl⟩ := List.mem_map.mp h
    exact Or.inl ⟨t, et, k, rfl⟩
  · obtain ⟨turn, -, rfl⟩ := List.mem_map.mp h
    exact Or.inr ⟨turn, rfl⟩

/-- What an instruction writes, it reports. -/
theorem Step.grows {cfg : Config} {s : Shared} {x : Instr} {out : Out} (h : Step cfg s x out) :
    ∃ written, Grows written s.store out.shared.store ∧ ∀ t et k, (t, et, k) ∈ written → .wrote t et k ∈ out.acts := by
  cases h with
  | called h =>
    refine ⟨_, h, fun t et k hw => List.mem_append_left _ (List.mem_map.mpr ⟨_, hw, rfl⟩)⟩
  | started h | turnFailed h | taskFailed h | done h | skippedStep h | blocked h =>
    exact ⟨_, h, by simp⟩
  | stop h _ | checkedNone h | checkedSome h | numbered h | resolved h | enqueued h _ | published h | publishAgain h
  | popFailed h _ | retryFailed h _ | released h | notReleased h | counted h | notStarted h | foundStarted h
  | redispatched h | listed h | safe h _ | unsafeToRedo h | redoResolved h | redoRead h | redoEnqueued h _
  | redoRejected h => exact ⟨[], h, nofun⟩
  | _ => exact ⟨[], Grows.refl _, nofun⟩

/-! ## The orchestrator follows the rules -/

variable {cfg : Config} {env : Env} {s : Shared} {x : Instr}

/-- After a computation that writes no event it is enough to look at its results. -/
theorem Step.on {α : Type} {m : StoreM BrokerStore α} {k : Except AppError α → Shared → Out} (hm : Reads m)
    (hk : ∀ r st, m s.store = (r, st) → Grows [] s.store st → Step cfg s x (k r { s with store := st })) :
    Step cfg s x (s.on m k) := hk _ _ rfl (hm s.store)

/-- A call fails and writes nothing, or writes its events. -/
theorem Step.calling {c : Call} {k : Except AppError Unit → Shared → Out}
    (herr : ∀ err st, Grows [] s.store st → Step cfg s x (k (.error err) { s with store := st }))
    (hok : ∀ st, Grows c.writes s.store st →
      Step cfg s x
        { k (.ok ()) { s with store := st } with acts := c.acts ++ (k (.ok ()) { s with store := st }).acts }) :
    Step cfg s x (s.calling c k) := by
  unfold Shared.calling
  cases h : c.run brokerEventStore s.store with
  | mk r st =>
    cases r with
    | error err => exact herr err st (Call.grows_error h)
    | ok u => exact hok st (Call.grows h)

/-- Nothing changes and nothing is left to do. -/
theorem Step.idle (hx : x.frees = false) : Step cfg s x { shared := s } := Step.stop (Grows.refl s.store) hx

/-- The incomplete turns are listed once each. -/
theorem nodup_getIncompleteTurns {taskId : String} {order : List Int} {st st' : BrokerStore}
    {turns : List IncompleteTurn}
    (h : brokerEventStore.getIncompleteTurns taskId order st = (.ok turns, st')) :
    (turns.map IncompleteTurn.turnId).Nodup := by
  have hspec : wp (withProjection taskId fun p => p.incompleteTurns order)
      (fun turns _ => (turns.map IncompleteTurn.turnId).Nodup) (fun _ _ => True) st := by
    unfold withProjection
    rw [wp_bind]
    refine wp_mono (Q := fun _ _ => True) (E := fun _ _ => True) ?_ (fun _ s₁ _ => ?_) fun _ _ _ => trivial
    · unfold wp
      split <;> trivial
    · rw [wp_bind]
      refine wp_mono (Q := fun _ _ => True) (E := fun _ _ => True) ?_ (fun found s₂ _ => ?_) fun _ _ _ => trivial
      · unfold wp
        split <;> trivial
      · cases found with
        | none => trivial
        | some p => exact p.nodup_incompleteTurns order
  exact (wp_ok hspec h :)

/-- A redo context is one of the turn it was built for. -/
theorem recoverTurn_turnId {σ : Type} {store : EventStore σ} {taskId : String} {turn : IncompleteTurn}
    {order : List String} {s s' : σ} {decision : RecoveryDecision} {ctx : Option RedoContext}
    (h : recoverTurn store taskId turn order s = (.ok (decision, ctx), s')) :
    ∀ r ∈ ctx.toList, r.turnId = turn.turnId := by
  have hspec : wp (recoverTurn store taskId turn order)
      (fun (a : RecoveryDecision × Option RedoContext) _ => ∀ r ∈ a.2.toList, r.turnId = turn.turnId)
        (fun _ _ => True) s := by
    unfold recoverTurn
    rw [wp_bind]
    refine wp_mono (Q := fun _ _ => True) (E := fun _ _ => True) ?_ (fun decision s₁ _ => ?_) fun _ _ _ => trivial
    · unfold wp
      split <;> trivial
    · cases decision with
      | requiresHumanIntervention k group blocking => exact fun r hr => absurd hr (by simp)
      | safeToRedo k group count steps =>
        simp only [wp_bind, buildRedoContext]
        refine wp_mono (Q := fun _ _ => True) (E := fun _ _ => True) ?_ (fun events s₂ _ => ?_) fun _ _ _ => trivial
        · unfold wp
          split <;> trivial
        · intro r hr
          obtain ⟨e, -, rfl⟩ := Option.map_eq_some_iff.mp (Option.mem_toList.mp hr)
          rfl
  exact wp_ok hspec h

/-- Waiting for a redone turn a bit longer. -/
theorem Step.extendRedo {t : String} {k : Int} {chan n n' : Nat} {redo : List RedoContext} :
    Step cfg s (.awaitRedo t k chan n redo) (s.extendRedo cfg t k chan n' redo) := by
  unfold Shared.extendRedo
  split
  · exact .redoTimedOut
  · exact .redoAwaited

/-- The end of a dispatch without success. -/
theorem Step.dispatchFailed {d : Dispatch} {n : Nat} {e : AppError} {st : BrokerStore} (h : Grows [] s.store st) :
    Step cfg s (.dispatchAttempt d n) (Shared.dispatchFailed cfg { s with store := st } d e) := by
  unfold Shared.dispatchFailed
  cases hs : d.slot with
  | none => exact .retryFailed h hs
  | some tt => exact .popFailed h hs

variable (cfg env s) in
/-- **The orchestrator follows the rules.** -/
theorem exec_step (x : Instr) : Step cfg s x (s.exec cfg env x) := by
  cases x with
  | executeTurn t i rg =>
    show Step cfg s _ (s.executeTurn env t i rg)
    refine Step.on (reads_getIncompleteTurns t _) fun r st _ h => ?_
    rcases r with err | (_ | ⟨turn, turns⟩)
    · exact .stop h rfl
    · exact .checkedNone h
    · exact .checkedSome h
  | startTurn t i rg =>
    show Step cfg s _ (s.startTurn env t i rg)
    refine Step.on (reads_nextTurnId t) fun r st _ h => ?_
    cases r with
    | error err => exact .stop h rfl
    | ok k => exact .numbered h
  | writeTurnStarted t k i rg =>
    show Step cfg s _ (s.writeTurnStarted t k i rg)
    exact Step.calling (fun err st h => .stop h rfl) fun st h => .started h
  | runTurnToCompletion t k i rg =>
    show Step cfg s _ (s.runTurnToCompletion t k i rg)
    refine Step.on (reads_resolveTaskType t) fun r st _ h => ?_
    cases r with
    | error err => exact .stop h rfl
    | ok tt => exact .resolved h
  | registerTurn t k i rg => exact .registered
  | enqueueTurn t k i rg chan =>
    show Step cfg s _ (s.enqueueAndDispatch _ _ _)
    refine Step.on (reads_typeAndPriority t) fun r st _ h => ?_
    cases r with
    | error err => exact .stop h rfl
    | ok tp => exact .enqueued h rfl
  | awaitTurn t k chan n =>
    show Step cfg s _ (s.awaitTurn cfg env t k chan n)
    unfold Shared.awaitTurn
    split
    · exact .idle rfl
    · exact .timedOut
    · split
      · exact .timedOut
      · exact .awaited
    · exact .awaited
  | dispatchPending tt =>
    show Step cfg s _ (s.dispatchPending tt)
    unfold Shared.dispatchPending
    split
    · exact .idle rfl
    · exact .popped ‹_›
  | dispatchPopped turn => exact .timed rfl rfl
  | dispatchAttempt d n =>
    show Step cfg s _ (s.dispatchAttempt cfg env d n)
    refine Step.on (reads_dispatchExecuteTurn d _) fun r st _ h => ?_
    cases r with
    | ok u => exact .published h
    | error e =>
      simp only
      split
      · exact .publishAgain h
      · exact Step.dispatchFailed h
  | onTurnTerminal tt => exact .slotFreed
  | releaseSlotAndRedispatch t =>
    show Step cfg s _ (s.releaseSlotAndRedispatch t)
    refine Step.on (reads_resolveTaskType t) fun r st _ h => ?_
    cases r with
    | error err => exact .notReleased h
    | ok tt => exact .released h
  | clearRetry t k => exact .retryCleared
  | clearDispatchTime t k => exact .timeCleared
  | writeTurnFailed t k et em reason =>
    show Step cfg s _ (s.writeTurnFailed t k et em reason)
    exact Step.calling (fun err st h => .stop h rfl) fun st h => .turnFailed h
  | writeTaskFailed t et reason =>
    show Step cfg s _ (s.writeTaskFailed t et reason)
    exact Step.calling (fun err st h => .stop h rfl) fun st h => .taskFailed h
  | completePendingTurn t outcome => exact .completed
  | turnExecutionDone t k out =>
    show Step cfg s _ (s.turnExecutionDone t k out)
    exact Step.calling (fun err st h => .stop h rfl) fun st h => .done h
  | countTurnEvents t k out =>
    show Step cfg s _ (s.countTurnEvents t k out)
    refine Step.on (reads_getTurnEvents t k) fun r st _ h => ?_
    cases r with
    | error err => exact .stop h rfl
    | ok events => exact .counted h
  | turnExecutionError t k et em =>
    show Step cfg s _ (s.turnExecutionError t k et em)
    refine Step.on (reads_getTurnEvents t k) fun r st _ h => ?_
    cases r with
    | error err => exact .stop h rfl
    | ok events =>
      simp only
      split
      · exact .notStarted h
      · exact .foundStarted h
  | decideRetry t k et em i rg =>
    show Step cfg s _ (s.decideRetry cfg t k et em i rg)
    unfold Shared.decideRetry
    dsimp only
    cases hd : cfg.retryPolicy.decide (classifyFailure et) (s.attemptsOf (t, k)) with
    | retry reason next =>
      exact .retried (cfg.retryPolicy.decide_retryable hd) (cfg.retryPolicy.decide_retry hd).1 rfl rfl
    | fail reason exhausted => exact .finallyFailed
  | redispatch d =>
    show Step cfg s _ (s.redispatch d)
    exact Step.on (reads_getTurnEvents d.taskId d.turnId) fun r st _ h => .redispatched h
  | recoverTask t =>
    show Step cfg s _ (s.recoverTask env t)
    refine Step.on (reads_getIncompleteTurns t _) fun r st hr h => ?_
    cases r with
    | error err => exact .stop h rfl
    | ok turns => exact .listed h (nodup_getIncompleteTurns hr)
  | recoverTurns t turns redo =>
    cases turns with
    | nil => exact .decided
    | cons turn turns =>
      show Step cfg s _ (s.recoverTurns env t (turn :: turns) redo)
      simp only [Shared.recoverTurns]
      refine Step.on (reads_recoverTurn t turn _) fun r st hr h => ?_
      rcases r with err | ⟨decision, ctx⟩
      · exact .stop h rfl
      · cases decision with
        | safeToRedo k group count steps => exact .safe h (recoverTurn_turnId hr)
        | requiresHumanIntervention k group blocking => exact .unsafeToRedo h
  | skipSteps t k steps n turns redo =>
    cases steps with
    | nil => exact .skipped
    | cons step steps =>
      show Step cfg s _ (s.skipSteps t k (step :: steps) n turns redo)
      simp only [Shared.skipSteps]
      exact Step.calling (fun err st h => .stop h rfl) fun st h => .skippedStep h
  | failBlocked t k n turns redo =>
    show Step cfg s _ (s.failBlocked t k n turns redo)
    exact Step.calling (fun err st h => .stop h rfl) fun st h => .blocked h
  | redoAll t redo =>
    show Step cfg s _ (s.redoAll t redo)
    unfold Shared.redoAll
    split
    · exact .idle rfl
    · refine Step.on (reads_resolveTaskType t) fun r st _ h => ?_
      cases r with
      | error err => exact .stop h rfl
      | ok tt => exact .redoResolved h
  | redoTurns t redo =>
    cases redo with
    | nil => exact .idle rfl
    | cons r redo => exact .redoRegistered
  | redoCached t r chan redo =>
    show Step cfg s _ (s.redoCached t r chan redo)
    exact Step.on (reads_getTurnEvents t r.turnId) fun _ st _ h => .redoRead h
  | enqueueRedo t r cached chan redo =>
    show Step cfg s _ (s.enqueueAndDispatch _ _ _)
    refine Step.on (reads_typeAndPriority t) fun r st _ h => ?_
    cases r with
    | error err => exact .redoRejected h
    | ok tp => exact .redoEnqueued h rfl
  | awaitRedo t k chan n redo =>
    show Step cfg s _ (s.awaitRedo cfg env t k chan n redo)
    unfold Shared.awaitRedo
    split
    · exact .extendRedo
    · exact .redoDone
    · exact .redoTimedOut
    · exact .extendRedo
    · exact .redoAwaited
  | giveUpRedo t k et em redo => exact .redoGivenUp
  | watchdog => exact .scanned
  | reclaim keys =>
    cases keys with
    | nil => exact .idle rfl
    | cons key keys => exact .reclaimed
  | call c =>
    show Step cfg s _ (s.call c)
    exact Step.calling (fun err st h => .stop h rfl) fun st h => .called h

end Fixus
