import Fixus.Orchestrator.Sealed
import Fixus.Orchestrator.Steps

/-!
# Policies on the way to the agents

The policy of a task is written down once, when the task is created, and read off its projection for every turn.begin.
No other event touches it, so whatever has been granted at the creations bounds what the agents are sent.

- `grantIn`, `applyIgnoring_policy`: where a projection has its policy from;
- `Rightful`: a record whose policy was granted, and whose turn.begin was published with such a policy;
- `sealed_dispatchExecuteTurn`: a publication writes a rightful record;
- `Ruled`, `Ruled.move`: the invariant of the orchestrator.
-/

namespace Fixus

open Lib Lib.Eff BrokerStore

/-- The policy in the payload of a creation. -/
def grantIn (payload : Json) : Option EffectivePolicy :=
  ((payload.get "effective_policy").filter fun v => !v.isNull).bind EffectivePolicy.ofJson

/-- The record is the turn.begin of the turn, with the policy. -/
def Begins (content : Json) (turn : TurnKey) (policy : Option EffectivePolicy) : Prop :=
  ∃ userInput ctx redoGroup redoCount,
    content = buildTurnBeginPayload turn.1 turn.2 userInput ctx redoGroup redoCount policy

/-- A record that creates a task has a policy that was granted, or none; and a turn.begin is one of a published turn,
with such a policy. -/
structure Rightful (granted : EffectivePolicy → Prop) (published : TurnKey → Prop) (r : Record) : Prop where
  grant : EventType.fromStr r.eventType = some .taskCreated → ∀ p, grantIn r.content = some p → granted p
  begins : r.eventType = "execute_turn" →
    ∃ turn policy, published turn ∧ (∀ p, policy = some p → granted p) ∧ Begins r.content turn policy

/-- The policy of the projection was granted. -/
def HasGranted (granted : EffectivePolicy → Prop) (p : TaskProjection) : Prop :=
  ∀ e, p.effectivePolicy = some e → granted e

variable {granted : EffectivePolicy → Prop} {published published' : TurnKey → Prop} {s : BrokerStore}

/-! ## The policy of a projection -/

namespace TaskProjection

theorem index_effectivePolicy (p : TaskProjection) (ae : AgentEvent) :
    (p.index ae).effectivePolicy = p.effectivePolicy := by
  unfold index
  cases ae.turnId <;> rfl

theorem closeStep_effectivePolicy (p : TaskProjection) (ae : AgentEvent) :
    (p.closeStep ae).effectivePolicy = p.effectivePolicy := by
  unfold closeStep
  split
  · rfl
  · split <;> rfl

theorem addUsage_effectivePolicy (p : TaskProjection) (v : Json) :
    (p.addUsage v).effectivePolicy = p.effectivePolicy := by
  unfold addUsage
  cases v.get "usage" <;> rfl

/-- Only the creation of a task sets its policy. -/
theorem applyHead_effectivePolicy (p : TaskProjection) (ae : AgentEvent) : (p.applyHead ae).effectivePolicy =
    if ae.eventType = .taskCreated then grantIn ae.payload else p.effectivePolicy := by
  unfold applyHead
  cases ae.eventType <;> first
    | rfl
    | (cases ae.stepId <;> rfl)
    | simp [closeStep_effectivePolicy, addUsage_effectivePolicy]

/-- **The policy after one more record** is that of the record, if it creates the task. -/
theorem applyIgnoring_policy (p : TaskProjection) (r : Record) : (p.applyIgnoring r).effectivePolicy =
    if EventType.fromStr r.eventType = some .taskCreated then grantIn r.content else p.effectivePolicy := by
  cases h : EventType.fromStr r.eventType with
  | none => simp [applyIgnoring_none h]
  | some et =>
    rw [applyIgnoring_some h, applyHead_effectivePolicy, index_effectivePolicy]
    by_cases hc : et = .taskCreated <;> simp [eventOf, hc]

end TaskProjection

theorem folds_rightful : Folds (Rightful granted published) (HasGranted granted) where
  new _ e he := by cases he
  apply p r hp hr e he := by
    rw [TaskProjection.applyIgnoring_policy] at he
    split at he
    · exact hr.grant ‹_› e he
    · exact hp e he

theorem quietKeep_rightful (granted : EffectivePolicy → Prop) (published : TurnKey → Prop) :
    QuietKeep fun s s' => Sealed (Rightful granted published) (HasGranted granted) s →
      Sealed (Rightful granted published) (HasGranted granted) s' := quietKeep_sealed folds_rightful

/-! ## Rightful records -/

theorem Rightful.mono {r : Record} (h : Rightful granted published r) (hp : ∀ turn, published turn → published' turn) :
    Rightful granted published' r where
  grant := h.grant
  begins ht := by
    obtain ⟨turn, policy, hturn, hpolicy, hb⟩ := h.begins ht
    exact ⟨turn, policy, hp turn hturn, hpolicy, hb⟩

/-- A record of another kind. -/
theorem rightful_of_ne {r : Record} (hc : EventType.fromStr r.eventType ≠ some .taskCreated)
    (hb : r.eventType ≠ "execute_turn") : Rightful granted published r :=
  ⟨fun h => absurd h hc, fun h => absurd h hb⟩

/-- No event has the type of a turn.begin. -/
theorem EventType.asStr_ne_execute_turn (et : EventType) : et.asStr ≠ "execute_turn" := by cases et <;> decide

/-- The record of an event, which may create a task only with a policy that was granted. -/
theorem rightful_recordOf {e : AgentEvent} {seq : Nat}
    (h : e.eventType = .taskCreated → ∀ p, grantIn e.payload = some p → granted p) :
    Rightful granted published (recordOf seq e) where
  grant hc := by
    have het : EventType.fromStr (recordOf seq e).eventType = some e.eventType := EventType.fromStr_asStr _
    exact h (Option.some.inj (het.symm.trans hc))
  begins hb := absurd hb (EventType.asStr_ne_execute_turn e.eventType)

/-- The record of a creation carries the policy that was resolved. -/
theorem grantIn_createdPayload (taskType : String) (provenance : Provenance) (body : Option Json) (priority : Int)
    (policy : Option EffectivePolicy) : grantIn (createdPayload taskType provenance body priority policy) = policy := by
  have hget : (createdPayload taskType provenance body priority policy).get "effective_policy" =
      some ((policy.map EffectivePolicy.toJson).getD .null) := rfl
  unfold grantIn
  rw [hget]
  cases policy with
  | none => rfl
  | some p => exact EffectivePolicy.ofJson_toJson p

/-! ## Publications -/

/-- The policy that is read for a turn.begin was granted. -/
theorem wp_readPolicy {taskId : String} (h : Sealed (Rightful granted published) (HasGranted granted) s) :
    wp (readPolicy brokerEventStore taskId)
      (fun policy s' => Sealed (Rightful granted published) (HasGranted granted) s' ∧ ∀ p, policy = some p → granted p)
      (fun _ _ => False) s := by
  have hquiet := quietKeep_rightful granted published
  unfold readPolicy
  rw [wp_bind, wp_attempt]
  have htask : wp (brokerEventStore.getTask taskId)
      (fun task s' => Sealed (Rightful granted published) (HasGranted granted) s' ∧
        ∀ t, task = some t → ∀ p, t.effectivePolicy = some p → granted p)
      (fun _ s' => Sealed (Rightful granted published) (HasGranted granted) s') s := by
    show wp (BrokerStore.getTask taskId) _ _ s
    unfold BrokerStore.getTask
    rw [wp_bind, wp_attempt]
    refine wp_mono (wp_of_state (hquiet.ensureProjection taskId s h)) (fun _ s₁ h₁ => ?_)
      fun _ s₁ h₁ => ⟨h₁, fun t ht => by cases ht⟩
    show wp (withProjection taskId _) _ _ s₁
    unfold withProjection
    rw [wp_bind]
    refine wp_mono (wp_of_state (hquiet.ensureProjection taskId s₁ h₁)) (fun _ s₂ h₂ => ?_) fun _ s₂ h₂ => h₂
    rw [wp_bind]
    refine wp_cacheGet fun s₃ hu _ => ?_
    cases hl : s₂.cache.map.lookup taskId with
    | none => exact h₂.untouched hu
    | some p =>
      refine ⟨h₂.untouched hu, fun t ht => ?_⟩
      obtain rfl := Option.some.inj ht
      exact h₂.cached taskId p hl
  refine wp_mono htask (fun task s₁ h₁ => ?_) fun err s₁ h₁ => ⟨h₁, fun p hp => by cases hp⟩
  cases task with
  | none => exact ⟨h₁.1, fun p hp => by cases hp⟩
  | some t => exact ⟨h₁.1, h₁.2 t rfl⟩

/-- **A publication writes a rightful record**, if the turn counts as published from then on. -/
theorem sealed_dispatchExecuteTurn (d : Dispatch) (context : Except AppError LlmContext)
    (h : Sealed (Rightful granted published) (HasGranted granted) s) :
    wp (dispatchExecuteTurn brokerEventStore d context)
      (fun _ s' => Sealed (Rightful granted fun turn => published turn ∨ turn = d.key) (HasGranted granted) s')
      (fun _ s' => Sealed (Rightful granted published) (HasGranted granted) s') s := by
  have hquiet := quietKeep_rightful granted published
  unfold dispatchExecuteTurn
  cases context with
  | error err => exact h
  | ok ctx =>
    rw [wp_bind]
    show wp (readPolicy brokerEventStore d.taskId >>= _) _ _ s
    rw [wp_bind]
    refine wp_mono (wp_readPolicy h) (fun policy s₁ h₁ => ?_) fun _ _ hf => hf.elim
    rw [wp_bind]
    refine wp_mono (wp_of_state (hquiet.resolveTaskType d.taskId s₁ h₁.1)) (fun taskType s₂ h₂ => ?_) fun _ s₂ h₂ => h₂
    unfold publishAs
    rw [wp_bind, wp_attempt]
    show wp (BrokerStore.publishTurnBegin d.taskId taskType _) _ _ s₂
    unfold BrokerStore.publishTurnBegin
    rw [wp_bind, wp_mapErr]
    refine wp_produce (fun seq s₃ _ hs hc hss _ => ?_) fun msg s₃ _ hs hc hss => ?_
    · have hwide : Sealed (Rightful granted fun turn => published turn ∨ turn = d.key) (HasGranted granted) s₂ :=
        h₂.mono fun r hr => hr.mono fun turn => Or.inl
      refine hwide.appended ⟨fun hne => ?_, fun _ => ?_⟩ hs (congrArg LruMap.map hc) hss
      · cases hne
      · exact ⟨d.key, policy, Or.inr rfl, h₁.2, _, ctx, d.redoGroup, d.redoCount, rfl⟩
    · exact h₂.congr hs (congrArg LruMap.map hc) hss

/-! ## Calls -/

/-- The call creates no task, except with a policy that was granted. An operation on a turn or a step creates none. -/
def Call.Rightful (granted : EffectivePolicy → Prop) : Call → Prop
  | .op o => o.eventType = .taskCreated → o.turnId ≠ none ∨ o.stepId ≠ none
  | .createTask _ _ _ _ _ policy => ∀ p, policy = some p → granted p
  | .writeEventsBatch events =>
    ∀ e ∈ events, e.eventType = .taskCreated → ∀ p, grantIn e.payload = some p → granted p

/-- The instruction is no call, or a rightful one. -/
def Instr.Rightful (granted : EffectivePolicy → Prop) : Instr → Prop
  | .call c => c.Rightful granted
  | _ => True

/-- An operation that keeps the rule writes a rightful event: the checks refuse a creation with a turn or a step. -/
theorem sealed_rightfulOp {o : Op} (ho : (Call.op o).Rightful granted) :
    KeepsSealed (Rightful granted published) (HasGranted granted) ((Call.op o).run brokerEventStore) := by
  refine sealed_op folds_rightful fun e seq hd hscope => rightful_recordOf fun he => ?_
  have hcreated : o.eventType = .taskCreated := hd.eventType ▸ he
  have hnone := e.validateScope_ok_iff.mp hscope
  rw [he] at hnone
  have hturn : o.turnId = none := by rw [← hd.turnId (by rw [hcreated]; decide)]; exact hnone.1
  have hstep : o.stepId = none := by rw [← hd.stepId]; exact hnone.2
  rcases ho hcreated with h | h
  · exact absurd hturn h
  · exact absurd hstep h

/-- **A rightful call keeps all records rightful.** -/
theorem sealed_call {c : Call} (hc : c.Rightful granted) :
    KeepsSealed (Rightful granted published) (HasGranted granted) (c.run brokerEventStore) := by
  cases c with
  | op o => exact sealed_rightfulOp hc
  | createTask uuid taskType provenance body priority policy =>
    refine sealed_createTask fun r ht hcontent => ⟨fun _ p hp => ?_, fun hb => ?_⟩
    · rw [hcontent, grantIn_createdPayload] at hp
      exact hc p hp
    · rw [ht] at hb
      exact absurd hb (by decide)
  | writeEventsBatch events => exact sealed_batch folds_rightful fun e he seq => rightful_recordOf (hc e he)

/-! ## Instructions -/

/-- The turns that an outcome publishes. -/
def Publishes (acts : List Act) (turn : TurnKey) : Prop := ∃ retry, .published turn retry ∈ acts

/-- **An instruction keeps all records rightful.** -/
theorem sealed_exec (cfg : Config) (env : Env) {sh : Shared} {x : Instr} (hx : x.Rightful granted)
    (h : Sealed (Rightful granted published) (HasGranted granted) sh.store) :
    Sealed (Rightful granted fun turn => published turn ∨ Publishes (sh.exec cfg env x).acts turn) (HasGranted granted)
      (sh.exec cfg env x).shared.store := by
  by_cases hd : ∃ d n, x = .dispatchAttempt d n
  · obtain ⟨d, n, rfl⟩ := hd
    have hspec := sealed_dispatchExecuteTurn d env.context h
    show Sealed _ _ (sh.dispatchAttempt cfg env d n).shared.store
    unfold Shared.dispatchAttempt Shared.on
    cases hrun : dispatchExecuteTurn brokerEventStore d env.context sh.store with
    | mk r st =>
      cases r with
      | ok u =>
        refine (wp_ok hspec hrun).mono fun r hr => hr.mono fun turn hturn => hturn.imp id fun he => ⟨d.slot.isNone, ?_⟩
        simp [Shared.exec, Shared.dispatchAttempt, Shared.on, hrun, he]
      | error err =>
        have hst := wp_error hspec hrun
        dsimp only
        split
        · exact hst.mono fun r hr => hr.mono fun turn => Or.inl
        · rw [dispatchFailed_store]
          exact hst.mono fun r hr => hr.mono fun turn => Or.inl
  · have hmoves := exec_moves (x := x) (quietKeep_rightful granted published)
      (fun d n _ he => absurd ⟨d, n, he⟩ hd)
      (fun o _ ho => sealed_rightfulOp (fun he => absurd he ho) _)
      (fun c _ he => sealed_call (by rw [he] at hx; exact hx) _) cfg env sh
    exact (hmoves h).mono fun r hr => hr.mono fun turn => Or.inl

/-- The handlers make no calls of others. -/
theorem Step.next_rightful {cfg : Config} {sh : Shared} {x : Instr} {out : Out} (h : Step cfg sh x out) :
    ∀ y ∈ out.next ++ out.spawned, y.Rightful granted := by
  cases h with
  | _ => simp [Instr.Rightful, failTaskWithReason, failTurnAndRespond]

/-! ## Runs -/

/-- All records are rightful, and so are all calls that are still to come. -/
structure Ruled (granted : EffectivePolicy → Prop) (published : TurnKey → Prop) (o : Orchestrator) : Prop where
  store : Sealed (Rightful granted published) (HasGranted granted) o.shared.store
  calls : Everywhere (Instr.Rightful granted) o.pool

/-- What comes in is rightful. -/
def EntersRightful (granted : EffectivePolicy → Prop) : OMove → Prop
  | .enter x => x.Rightful granted
  | .exec _ _ => True

/-- **A move of the orchestrator keeps the rule**; the turns that it publishes count from then on. -/
theorem Ruled.move (cfg : Config) {o : Orchestrator} {m : OMove} (h : Ruled granted published o)
    (hm : EntersRightful granted m) :
    Ruled granted (fun turn => published turn ∨ Publishes (actsOf cfg o m) turn) (orchestrate cfg o m) := by
  have hwide : Sealed (Rightful granted fun turn => published turn ∨ Publishes (actsOf cfg o m) turn)
      (HasGranted granted) o.shared.store := h.store.mono fun r hr => hr.mono fun turn => Or.inl
  cases m with
  | enter x =>
    show Ruled _ _ (if x.isEntry then { o with pool := o.pool ++ [[x]] } else o)
    split
    · refine ⟨hwide, fun stack hs y hy => ?_⟩
      rcases List.mem_append.mp hs with hs | hs
      · exact h.calls stack hs y hy
      · rw [List.mem_singleton.mp hs] at hy
        exact List.mem_singleton.mp hy ▸ hm
    · exact ⟨hwide, h.calls⟩
  | exec k env =>
    cases hf : fetched o (.exec k env : OMove) with
    | none =>
      unfold orchestrate
      rw [move_of_not_fetched hf]
      exact ⟨hwide, h.calls⟩
    | some x =>
      obtain ⟨rest, he⟩ := executes_of_fetched (execWith cfg) Instr.isEntry hf
      refine ⟨?_, he.everywhere h.calls (exec_step cfg env o.shared x).next_rightful⟩
      have hstore := sealed_exec cfg env (he.of_everywhere h.calls) h.store
      unfold orchestrate
      rw [he.shared]
      refine hstore.mono fun r hr => hr.mono fun turn => Or.imp id fun hp => ?_
      obtain ⟨retry, hp⟩ := hp
      exact ⟨retry, show _ ∈ acts _ o (.exec k env) from he.acts ▸ hp⟩

end Fixus
