import Fixus.Orchestrator.RedoQueue
import Fixus.Orchestrator.Steps
import Fixus.Store.Context

/-!
# What is executed again

A turn that is dispatched once more executes all its tools once more. Two paths lead there: the redo queue of
`recover_task`, and the retry branch of the error handler. The one looks at the unfinished steps of the turn, the other
at the reported reason and the budget.

- `requeued_iff`: the queue has the active turns that no unfinished step blocks;
- `retried_iff`: the error handler publishes started turns again as long as the reason and the budget admit it;
- `never_repeats_iff`: when no tool is executed again that must not be;
- `payment_repeated`: a payment that was made before the crash.
-/

namespace Fixus

open Lib Lib.Eff BrokerStore TaskProjection

/-! ## What the log says about a turn -/

/-- No tool was invoked in the turn, whether it completed or not, that is neither read-only nor idempotent. -/
def OnlyRepeatable (taskId : String) (log : List Record) (k : Int) : Prop :=
  ∀ e ∈ eventsOf taskId log, e.eventType = .toolInvoked → e.turnId = some k →
    classifyTool (invokedTool e) ≠ .nonIdempotentWrite

/-- The turn was started. -/
def TurnStarted (taskId : String) (log : List Record) (k : Int) : Prop :=
  ∃ e ∈ eventsOf taskId log, e.eventType = .turnStarted ∧ e.turnId = some k

variable {taskId : String} {k : Int} {s s' : BrokerStore}

/-! ## The turns that are open -/

/-- A turn becomes active by its start. -/
theorem applyHead_activeTurns {p : TaskProjection} {ae : AgentEvent} (h : k ∈ (p.applyHead ae).activeTurns) :
    k ∈ p.activeTurns ∨ (ae.eventType = .turnStarted ∧ ae.turnId = some k) := by
  unfold applyHead at h
  cases he : ae.eventType with
  | turnStarted =>
    rw [he] at h
    rcases Finset.mem_union.mp h with h | h
    · exact Or.inl h
    · exact Or.inr ⟨rfl, Option.mem_toFinset.mp h⟩
  | turnCompleted | turnFailed | turnCanceled | turnBlocked =>
    rw [he] at h
    exact Or.inl (Finset.mem_sdiff.mp h).1
  | llmInvoked | toolInvoked =>
    rw [he] at h
    cases hs : ae.stepId <;> simp only [hs] at h <;> exact Or.inl h
  | _ =>
    simp only [he, addUsage_activeTurns, (closeStep_frame p ae).2.1] at h
    exact Or.inl h

/-- An active turn was started. -/
theorem started_of_active {log : List Record} (h : k ∈ (replay taskId log).activeTurns) : TurnStarted taskId log k := by
  induction log using List.reverseRecOn with
  | nil => exact absurd h (Finset.notMem_empty k)
  | append_singleton log r ih =>
    rw [replay_append] at h
    cases he : EventType.fromStr r.eventType with
    | none =>
      rw [applyIgnoring_none he] at h
      obtain ⟨e, hmem, hstart⟩ := ih h
      exact ⟨e, by simpa [eventsOf, he] using hmem, hstart⟩
    | some et =>
      have hmore : eventsOf taskId (log ++ [r]) = eventsOf taskId log ++ [eventOf taskId et r] := by simp [eventsOf, he]
      rw [applyIgnoring_some he, replay_taskId] at h
      unfold TurnStarted
      rw [hmore]
      rcases applyHead_activeTurns h with h | h
      · rw [index_activeTurns] at h
        obtain ⟨e, hmem, hstart⟩ := ih h
        exact ⟨e, List.mem_append_left _ hmem, hstart⟩
      · exact ⟨_, List.mem_append_right _ (List.mem_singleton_self _), h⟩

/-- The start event of a started turn is found among its events. -/
theorem findTurnStarted_iff {log : List Record} (hn : ((eventsOf taskId log).map AgentEvent.seq).Nodup) :
    (∃ e, findTurnStarted ((replay taskId log).turnEvents k) = some e) ↔ TurnStarted taskId log k := by
  rw [replay_turnEvents hn, ← Option.isSome_iff_exists]
  unfold findTurnStarted
  rw [List.find?_isSome]
  constructor
  · rintro ⟨e, hmem, hstart⟩
    obtain ⟨hmem, hk⟩ := List.mem_filter.mp hmem
    exact ⟨e, hmem, of_decide_eq_true hstart, of_decide_eq_true hk⟩
  · rintro ⟨e, hmem, hstart, hk⟩
    exact ⟨e, List.mem_filter.mpr ⟨hmem, decide_eq_true hk⟩, decide_eq_true hstart⟩

/-- An active turn can come first among the incomplete ones. -/
theorem incompleteTurns_first {log : List Record} (hn : ((eventsOf taskId log).map AgentEvent.seq).Nodup)
    (h : k ∈ (replay taskId log).activeTurns) :
    ∃ turn turns, (replay taskId log).incompleteTurns [k] = turn :: turns ∧ turn.turnId = k := by
  obtain ⟨e, hmem, -, hk⟩ := started_of_active h
  have he : e ∈ (eventsOf taskId log).filter fun e => e.turnId = some k := List.mem_filter.mpr ⟨hmem, decide_eq_true hk⟩
  obtain ⟨e₀, es, hevents⟩ := List.exists_cons_of_ne_nil (List.ne_nil_of_mem he)
  have hseqs : ((replay taskId log).byTurnId.lookup k).getD [] =
      ((eventsOf taskId log).filter fun e => e.turnId = some k).map AgentEvent.seq := replay_turnSeqs k
  rw [hevents, List.map_cons] at hseqs
  have he₀ : (replay taskId log).bySeq.lookup e₀.seq = some e₀ := by
    have hm : e₀ ∈ (eventsOf taskId log).filter fun e => e.turnId = some k := by
      rw [hevents]
      exact List.mem_cons_self
    exact (replay_bySeq hn).mpr ⟨List.mem_of_mem_filter hm, rfl⟩
  cases hl : (replay taskId log).byTurnId.lookup k with
  | none =>
    rw [hl] at hseqs
    cases hseqs
  | some seqs =>
    rw [hl, Option.getD_some] at hseqs
    subst hseqs
    unfold incompleteTurns
    rw [walk_of_mem (List.nodup_singleton k) (by simpa using h), List.singleton_append, List.filterMap_cons]
    simp [hl, he₀]

/-! ## Both ways to dispatch a turn again -/

/-- For some replies of the broker and some orders of the tables the recovery of the task queues the turn. -/
def Requeued (taskId : String) (s : BrokerStore) (k : Int) : Prop :=
  ∃ produces turnOrder stepOrder queue s', recoverTask brokerEventStore taskId turnOrder stepOrder { s with produces } =
    (.ok queue, s') ∧ ∃ r ∈ queue, r.turnId = k

/-- A report that the turn failed makes the error handler publish it once more. -/
def Retried (cfg : Config) (env : Env) (s : Shared) (taskId : String) (k : Int)
    (errorType errorMessage : String) : Prop :=
  ∃ x ∈ (s.turnExecutionError taskId k errorType errorMessage).next, Act.retried (taskId, k) ∈
    ((s.turnExecutionError taskId k errorType errorMessage).shared.exec cfg env x).acts

/-- What is queued is active and not blocked. -/
theorem open_of_requeued (hs : Healthy s) (h : Requeued taskId s k) :
    k ∈ (s.view taskId).activeTurns ∧ ¬ Dangling (s.view taskId) k := by
  obtain ⟨produces, turnOrder, stepOrder, queue, s', hrun, r, hr, rfl⟩ := h
  have hs₀ : Healthy { s with produces } := ⟨hs.sessions, hs.ok⟩
  have hspec : wp (recoverTask brokerEventStore taskId turnOrder stepOrder) (fun queue _ => ∀ r ∈ queue,
      r.turnId ∈ (s.view taskId).activeTurns ∧ ¬ Dangling (s.view taskId) r.turnId) (fun _ _ => True)
      { s with produces } := by
    unfold recoverTask
    rw [wp_bind]
    refine wp_mono (withProjection_healthy hs₀ _) (fun turns s₁ h₁ => ?_) fun _ _ h => h.elim
    obtain ⟨rfl, hloaded⟩ := h₁
    refine wp_mono (recoverEach_spec stepOrder (nodup_incompleteTurns _ _) hloaded.healthy) (fun queue _ hq r hr => ?_)
      fun _ _ _ => trivial
    obtain ⟨hmem, hfree⟩ := hq r hr
    rw [hloaded.view] at hfree
    exact ⟨active_of_incomplete hmem, hfree⟩
  exact wp_ok hspec hrun r hr

/-- **The recovery queues exactly the active turns that no step blocks.** -/
theorem requeued_iff (hs : Healthy s) (hv : s.view taskId = replay taskId (s.log taskId))
    (hn : ((eventsOf taskId (s.log taskId)).map AgentEvent.seq).Nodup) :
    Requeued taskId s k ↔ k ∈ (s.view taskId).activeTurns ∧ ¬ Dangling (s.view taskId) k := by
  refine ⟨open_of_requeued hs, fun ⟨hactive, hfree⟩ => ?_⟩
  have hs₀ : Healthy { s with produces := [] } := ⟨hs.sessions, hs.ok⟩
  rw [hv] at hactive
  obtain ⟨turn, turns, hturns, hk⟩ := incompleteTurns_first hn hactive
  obtain ⟨e, he⟩ := (findTurnStarted_iff hn).mpr (started_of_active hactive)
  have hnodup := nodup_incompleteTurns (replay taskId (s.log taskId)) [k]
  rw [hturns] at hnodup
  have hspec : wp (recoverTask brokerEventStore taskId [k] fun _ => []) (fun queue _ => ∃ r ∈ queue, r.turnId = k)
      (fun _ _ => False) { s with produces := [] } := by
    unfold recoverTask
    rw [wp_bind]
    refine wp_mono (withProjection_healthy hs₀ _) (fun answer s₁ h₁ => ?_) fun _ _ h => h
    obtain ⟨rfl, hloaded⟩ := h₁
    have hview : s₁.view taskId = replay taskId (s.log taskId) := hloaded.view.trans hv
    have hanswer : (BrokerStore.view { s with produces := [] } taskId).incompleteTurns [k] = turn :: turns := by
      rw [← hturns, ← hv]
      rfl
    have hfree₁ : ¬ Dangling (s₁.view taskId) turn.turnId := by
      rw [hview, ← hv, hk]
      exact hfree
    have he₁ : findTurnStarted ((s₁.view taskId).turnEvents turn.turnId) = some e := by
      rw [hview, hk]
      exact he
    rw [hanswer, ← hk]
    exact recoverEach_first _ (List.nodup_cons.mp hnodup).2 hloaded.healthy hloaded.produces hfree₁ he₁
  obtain ⟨queue, s', hrun, hq⟩ := wp_total hspec
  exact ⟨[], [k], fun _ => [], queue, s', hrun, hq⟩

section Retry

variable {cfg : Config} {env : Env} {sh : Shared} {errorType errorMessage : String}

/-- Only the error handler decides to publish a turn once more. -/
theorem decides_of_retried {x : Instr} {turn : TurnKey} (h : Act.retried turn ∈ (sh.exec cfg env x).acts) :
    ∃ t k et em i rg, x = .decideRetry t k et em i rg := by
  have hstep : Step cfg sh x (sh.exec cfg env x) := exec_step cfg env sh x
  generalize sh.exec cfg env x = out at h hstep
  cases hstep with
  | retried _ _ _ _ => exact ⟨_, _, _, _, _, _, rfl⟩
  | called _ => rcases mem_call_acts h with ⟨t, et, k, he⟩ | ⟨turn', he⟩ <;> cases he
  | _ => simp at h

/-- What a retry needs. -/
theorem retried_decideRetry {i rg : String} :
    Act.retried (taskId, k) ∈ (sh.exec cfg env (.decideRetry taskId k errorType errorMessage i rg)).acts ↔
      (classifyFailure errorType).isRetryable = true ∧ sh.attemptsOf (taskId, k) < cfg.retryPolicy.maxAttempts := by
  show Act.retried (taskId, k) ∈ (sh.decideRetry cfg taskId k errorType errorMessage i rg).acts ↔ _
  unfold Shared.decideRetry RetryPolicy.decide
  by_cases h : (classifyFailure errorType).isRetryable = true ∧ sh.attemptsOf (taskId, k) < cfg.retryPolicy.maxAttempts
  · simp [h]
  · simp [h]

/-- **The error handler publishes exactly the started turns once more whose reported reason and budget admit it.** -/
theorem retried_iff (hs : Healthy sh.store) (hv : sh.store.view taskId = replay taskId (sh.store.log taskId))
    (hn : ((eventsOf taskId (sh.store.log taskId)).map AgentEvent.seq).Nodup) :
    Retried cfg env sh taskId k errorType errorMessage ↔ TurnStarted taskId (sh.store.log taskId) k ∧
      (classifyFailure errorType).isRetryable = true ∧ sh.attemptsOf (taskId, k) < cfg.retryPolicy.maxAttempts := by
  have hspec : wp (brokerEventStore.getTurnEvents taskId k)
      (fun events st => events = (sh.store.view taskId).turnEvents k ∧ Loaded taskId sh.store st)
        (fun _ _ => False) sh.store :=
    withProjection_healthy hs _
  obtain ⟨events, st, hanswer, rfl, -⟩ := wp_total hspec
  unfold Retried Shared.turnExecutionError Shared.on
  rw [hanswer, hv, ← findTurnStarted_iff hn]
  dsimp only
  cases hf : findTurnStarted ((replay taskId (sh.store.log taskId)).turnEvents k) with
  | none =>
    constructor
    · rintro ⟨x, hx, hact⟩
      obtain ⟨t, k', et, em, i, rg, rfl⟩ := decides_of_retried hact
      simp [failTaskWithReason] at hx
    · rintro ⟨⟨e, he⟩, -⟩
      cases he
  | some e =>
    constructor
    · rintro ⟨x, hx, hact⟩
      rw [List.mem_singleton.mp hx] at hact
      have hdecision := retried_decideRetry.mp hact
      exact ⟨⟨e, rfl⟩, hdecision⟩
    · rintro ⟨-, hdecision⟩
      have hact : Act.retried (taskId, k) ∈
        (Shared.exec cfg env { sh with store := st } (.decideRetry taskId k errorType
          errorMessage (startedText e "user_input" "") (startedText e "redo_group" "unknown"))).acts :=
        retried_decideRetry.mpr hdecision
      exact ⟨_, List.mem_singleton_self _, hact⟩

end Retry

/-! ## What is executed again -/

section Repeats

variable (cfg : Config) (env : Env) (sh : Shared) (taskId : String) (k : Int) (errorType errorMessage : String)

/-- If the turn is dispatched again, by the recovery or upon the report, no tool of it was invoked that must not be
repeated. -/
def NeverRepeats : Prop :=
  Requeued taskId sh.store k ∨ Retried cfg env sh taskId k errorType errorMessage →
    OnlyRepeatable taskId (sh.store.log taskId) k

/-- No tool of the turn was invoked that must not be repeated; or the turn is not dispatched again: it is no longer
active or a step blocks it, and the retry is ruled out by the reason, by the budget, or for want of a start. -/
def Spared : Prop :=
  OnlyRepeatable taskId (sh.store.log taskId) k ∨
    ((k ∉ (sh.store.view taskId).activeTurns ∨ Dangling (sh.store.view taskId) k) ∧
      (¬ TurnStarted taskId (sh.store.log taskId) k ∨ (classifyFailure errorType).isRetryable = false ∨
        cfg.retryPolicy.maxAttempts ≤ sh.attemptsOf (taskId, k)))

end Repeats

/-- **No turn is dispatched again after a call that must not be repeated exactly if one of its own unfinished steps
stops the recovery, or its end does, and the reason or the budget stops the error handler.** A call that completed
stops neither. -/
theorem never_repeats_iff {cfg : Config} {env : Env} {sh : Shared} {errorType errorMessage : String}
    (hs : Healthy sh.store) (hv : sh.store.view taskId = replay taskId (sh.store.log taskId))
    (ha : Ascending (sh.store.log taskId)) (hseq : ∀ r ∈ sh.store.log taskId, r.seq < 2 ^ 64) :
    NeverRepeats cfg env sh taskId k errorType errorMessage ↔ Spared cfg sh taskId k errorType := by
  have hn : ((eventsOf taskId (sh.store.log taskId)).map AgentEvent.seq).Nodup := nodup_seqs ha hseq
  unfold NeverRepeats Spared
  rw [requeued_iff hs hv hn, retried_iff hs hv hn]
  constructor
  · intro h
    by_cases honly : OnlyRepeatable taskId (sh.store.log taskId) k
    · exact Or.inl honly
    · have hno := mt h honly
      rw [not_or] at hno
      refine Or.inr ⟨?_, ?_⟩
      · by_contra hopen
        rw [not_or, not_not] at hopen
        exact hno.1 hopen
      · by_contra hretry
        rw [not_or, not_or, not_not, Bool.not_eq_false, not_le] at hretry
        exact hno.2 hretry
  · rintro (honly | ⟨hclosed, hfinal⟩) h
    · exact honly
    · rcases h with ⟨hactive, hfree⟩ | ⟨hstart, hretryable, hbudget⟩
      · rcases hclosed with hclosed | hclosed
        · exact absurd hactive hclosed
        · exact absurd hclosed hfree
      · rcases hfinal with hfinal | hfinal | hfinal
        · exact absurd hstart hfinal
        · rw [hretryable] at hfinal
          cases hfinal
        · omega

/-- A turn with a call of the tool that has completed. -/
def calledLog (tool : String) : List Record :=
  let turn : Metadata := (∅ : Metadata).insert "turn_id" "1"
  [⟨1, "task_created", .obj [], ∅⟩, ⟨2, "task_ready", .obj [], ∅⟩,
    ⟨3, "turn_started", .obj [("user_input", .str "pay the invoice")], turn⟩,
    ⟨4, "tool_invoked", .obj [("tool_name", .str tool)], turn.insert "step_id" "a"⟩,
    ⟨5, "tool_completed", .obj [("output", .str "done")], turn.insert "step_id" "a"⟩]

/-- An orchestrator over this log. -/
def calledState (tool : String) : Shared := { store := freshStore (calledLog tool), dispatcher := Dispatcher.new 1 }

/-- The theorem at a turn that has read a file. -/
theorem never_repeats_read :
    NeverRepeats {} {} (calledState "read_file") "task_1" 1 "agent_process_exited" "boom" := by
  refine (never_repeats_iff (freshStore_healthy _) (freshStore_view _ _) (by decide) (by decide)).mpr (Or.inl ?_)
  intro e he htool _
  simp [calledState, freshStore, BrokerStore.log, eventsOf, calledLog, EventType.fromStr] at he
  rcases he with rfl | rfl | rfl | rfl | rfl
  · cases htool
  · cases htool
  · cases htool
  · exact (by decide : classifyTool "read_file" ≠ .nonIdempotentWrite)
  · cases htool

/-- A payment was made before the crash. The recovery queues its turn, and a report of the crash publishes it. -/
theorem payment_repeated :
    Requeued "task_1" (calledState "process_payment").store 1 ∧
      Retried {} {} (calledState "process_payment") "task_1" 1 "agent_process_exited" "boom" ∧
      ¬ NeverRepeats {} {} (calledState "process_payment") "task_1" 1 "agent_process_exited" "boom" := by
  have hqueue : (recoverTask brokerEventStore "task_1" [1] (fun _ => []) (calledState "process_payment").store).1.map
      (List.map RedoContext.turnId) = .ok [1] := by decide +kernel
  have hrequeued : Requeued "task_1" (calledState "process_payment").store 1 := by
    refine ⟨[], [1], fun _ => [], ?_⟩
    change ∃ queue s', recoverTask brokerEventStore "task_1" [1] (fun _ => []) (calledState "process_payment").store =
      (.ok queue, s') ∧ _
    cases hrun : recoverTask brokerEventStore "task_1" [1] (fun _ => []) (calledState "process_payment").store with
    | mk answer s' =>
      rw [hrun] at hqueue
      cases answer with
      | error err => cases hqueue
      | ok queue =>
        have hturns : queue.map RedoContext.turnId = [1] := Except.ok.inj hqueue
        have hmem : (1 : Int) ∈ queue.map RedoContext.turnId := by simp [hturns]
        exact ⟨queue, s', rfl, List.mem_map.mp hmem⟩
  have hretried : Retried {} {} (calledState "process_payment") "task_1" 1 "agent_process_exited" "boom" := by
    have hnext : ((calledState "process_payment").turnExecutionError "task_1" 1 "agent_process_exited" "boom").next =
        [.decideRetry "task_1" 1 "agent_process_exited" "boom" "pay the invoice" "unknown"] := rfl
    exact ⟨_, hnext ▸ List.mem_singleton_self _, List.mem_singleton_self _⟩
  have hpayment : eventOf "task_1" .toolInvoked ⟨4, "tool_invoked", .obj [("tool_name", .str "process_payment")],
      ((∅ : Metadata).insert "turn_id" "1").insert "step_id" "a"⟩ ∈
      eventsOf "task_1" ((calledState "process_payment").store.log "task_1") := by
    simp [calledState, freshStore, BrokerStore.log, eventsOf, calledLog, EventType.fromStr]
  refine ⟨hrequeued, hretried, fun h => ?_⟩
  have hclass := h (Or.inl hrequeued) _ hpayment rfl (by decide)
  exact hclass (by decide)

end Fixus
