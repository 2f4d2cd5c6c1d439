import Fixus.Orchestrator.Idempotence
import Fixus.Orchestrator.Requests
import Fixus.Orchestrator.Restarts

/-!
# Redo counts

A turn is offered to the agents when it is started, when the error handler retries it, and when a recovery redoes it.
The message names how often it has been redone, and the group that the attempts belong to. A retry takes the number from
a counter in memory, a recovery from the start event in the log, and neither writes it anywhere.

- `Offer`, `Instr.offers`: the messages of a turn, and those that an instruction still has to send;
- `exec_handsOn`: offers are handed on, and made by a start, a retry or a redo;
- `Offered.step`: the orchestrator with restarts, and the messages of a turn so far;
- `RedosInTurn`: a turn is sent once more only with a number that knows of the redos so far;
- `Redoing.step`, `redoCounts_increase`: then the numbers increase strictly, within one group;
- `recoveries_repeat_count`: two recoveries send the same number.
-/

namespace Fixus

open Lib Lib.Eff BrokerStore TaskProjection

/-! ## Offers -/

/-- What a message says about the attempt. -/
structure Offer where
  redoCount : Int
  redoGroup : String
  deriving DecidableEq, Repr

def QueuedTurn.offer (q : QueuedTurn) : Offer := ⟨q.redoCount, q.redoGroup⟩

def Dispatch.offer (d : Dispatch) : Offer := ⟨d.redoCount, d.redoGroup⟩

def RedoContext.offer (r : RedoContext) : Offer := ⟨r.redoCount, r.redoGroup⟩

/-- The offers of a turn in a redo queue. -/
def redoOffers (turn : TurnKey) (taskId : String) (redo : List RedoContext) : List Offer :=
  (redo.filter fun r => (taskId, r.turnId) = turn).map RedoContext.offer

/-- The offers of a turn that an instruction still has to make. -/
def Instr.offers (turn : TurnKey) : Instr → List Offer
  | .runTurnToCompletion t k _ rg | .registerTurn t k _ rg | .enqueueTurn t k _ rg _ =>
    if (t, k) = turn then [⟨0, rg⟩] else []
  | .dispatchPopped q => if q.key = turn then [q.offer] else []
  | .redispatch d | .dispatchAttempt d _ => if d.key = turn then [d.offer] else []
  | .recoverTurns t _ redo | .skipSteps t _ _ _ _ redo | .failBlocked t _ _ _ redo | .redoAll t redo
  | .redoTurns t redo | .awaitRedo t _ _ _ redo | .giveUpRedo t _ _ _ redo => redoOffers turn t redo
  | .redoCached t r _ redo | .enqueueRedo t r _ _ redo => redoOffers turn t (r :: redo)
  | _ => []

/-- The offer of the turn that an instruction makes when it performs the acts. -/
def Instr.made (turn : TurnKey) (acts : List Act) : Instr → List Offer
  | .dispatchAttempt d _ => if d.key = turn ∧ .published d.key d.slot.isNone ∈ acts then [d.offer] else []
  | _ => []

/-- How many offers of the turn an instruction still has to make. -/
def offersLeft (turn : TurnKey) (x : Instr) : Nat := (x.offers turn).length

variable {cfg : Config} {env : Env} {s : Shared} {x : Instr} {out : Out} {turn : TurnKey} {P : Offer → Prop}

@[simp] theorem redoOffers_nil (t : String) : redoOffers turn t [] = [] := rfl

@[simp] theorem redoOffers_append (t : String) (redo redo' : List RedoContext) :
    redoOffers turn t (redo ++ redo') = redoOffers turn t redo ++ redoOffers turn t redo' := by
  simp [redoOffers]

theorem redoOffers_cons (t : String) (r : RedoContext) (redo : List RedoContext) :
    redoOffers turn t (r :: redo) = (if (t, r.turnId) = turn then [r.offer] else []) ++ redoOffers turn t redo := by
  unfold redoOffers
  by_cases h : (t, r.turnId) = turn <;> simp [h]

@[simp] theorem offersLeft_failTask (t : String) (k : Int) (reason : FailureReason) (et em : String) :
    weight (offersLeft turn) (failTaskWithReason t k reason et em) = 0 := rfl

@[simp] theorem offersLeft_failTurn (t : String) (k : Int) (et em : String) :
    weight (offersLeft turn) (failTurnAndRespond t k et em) = 0 := rfl

@[simp] theorem Instr.made_nil : x.made turn [] = [] := by
  unfold Instr.made
  split <;> simp

/-- What is made was to be made. -/
theorem Instr.made_subset {acts : List Act} {p : Offer} (h : p ∈ x.made turn acts) : p ∈ x.offers turn := by
  unfold Instr.made at h
  split at h
  · rename_i d n
    split at h
    · rename_i hd
      simpa [Instr.offers, hd.1] using h
    · cases h
  · cases h

/-- Every queued message of the turn has the property. -/
abbrev QueuedOffers (turn : TurnKey) (P : Offer → Prop) (d : Dispatcher) : Prop :=
  d.AllQueued fun _ q => q.key = turn → P q.offer

/-- The instruction hands its offers on, makes some of them, and adds the given ones. -/
structure HandsOn (turn : TurnKey) (s : Shared) (x : Instr) (out : Out) (added : List Offer) : Prop where
  balance : (x.made turn out.acts).length + out.shared.dispatcher.pendingOf turn + weight (offersLeft turn) out.next +
    weight (offersLeft turn) out.spawned ≤ s.dispatcher.pendingOf turn + offersLeft turn x + added.length
  passed : ∀ P : Offer → Prop, (∀ p ∈ x.offers turn, P p) → (∀ p ∈ added, P p) → QueuedOffers turn P s.dispatcher →
    QueuedOffers turn P out.shared.dispatcher ∧ ∀ y ∈ out.next ++ out.spawned, ∀ p ∈ y.offers turn, P p

/-- Nothing is queued, and what is left to offer was there before. -/
theorem HandsOn.of_offers (hd : out.shared.dispatcher = s.dispatcher) (hm : x.made turn out.acts = [])
    (hw : weight (offersLeft turn) out.next + weight (offersLeft turn) out.spawned ≤ offersLeft turn x)
    (hsub : ∀ y ∈ out.next ++ out.spawned, ∀ p ∈ y.offers turn, p ∈ x.offers turn) : HandsOn turn s x out [] := by
  refine ⟨?_, fun P hx _ hq => ⟨hd ▸ hq, fun y hy p hp => hx p (hsub y hy p hp)⟩⟩
  rw [hd, hm, List.length_nil]
  omega

/-- The new start of a turn, a retry that is decided, and a turn that a recovery decides to redo. -/
inductive Makes (turn : TurnKey) (s : Shared) : Instr → Offer → Prop
  | start {i rg} : Makes turn s (.writeTurnStarted turn.1 turn.2 i rg) ⟨0, rg⟩
  | retry {et em i rg} : Makes turn s (.decideRetry turn.1 turn.2 et em i rg) ⟨s.attemptsOf turn + 1, rg⟩
  | redo {incomplete turns redo} (h : incomplete.turnId = turn.2) :
      Makes turn s (.recoverTurns turn.1 (incomplete :: turns) redo)
        ⟨wrapI32 (incomplete.redoCount + 1), incomplete.redoGroup⟩

/-- The rules that do not say what is in a message or in a redo queue. -/
def Instr.loose : Instr → Bool
  | .writeTurnStarted _ _ _ _ | .enqueueTurn _ _ _ _ _ | .dispatchPopped _ | .decideRetry _ _ _ _ _ _
  | .recoverTurns _ (_ :: _) _ | .enqueueRedo _ _ _ _ _ => true
  | _ => false

/-- The rules for the other instructions hand the offers on. -/
theorem Step.handsOn (h : Step cfg s x out) (turn : TurnKey) (hx : x.loose = false) : HandsOn turn s x out [] := by
  cases h with
  | started _ | enqueued _ _ | timed _ _ | retried _ _ _ _ | finallyFailed | safe _ _ | unsafeToRedo _
  | redoEnqueued _ _ | redoRejected _ => cases hx
  | stop _ _ => exact .of_offers rfl Instr.made_nil (by simp) (fun y hy => by cases hy)
  | @popped tt q d h =>
    have hpop := Dispatcher.pendingOf_tryPop h turn
    refine ⟨?_, fun P _ _ hq => ?_⟩
    · by_cases hk : q.key = turn <;> simp [Instr.made, offersLeft, Instr.offers, hk] at hpop ⊢ <;> omega
    · obtain ⟨hp, hd⟩ := hq.tryPop h
      refine ⟨hd, fun y hy p hy' => ?_⟩
      simp only [List.append_nil, List.mem_cons, List.not_mem_nil, or_false] at hy
      rcases hy with rfl | rfl
      · by_cases hk : q.key = turn
        · simp only [Instr.offers, hk, if_true, List.mem_singleton] at hy'
          exact hy' ▸ hp hk
        · simp [Instr.offers, hk] at hy'
      · cases hy'
  | @published d n st h =>
    refine ⟨?_, fun P _ _ hq => ⟨hq, fun y hy => by cases hy⟩⟩
    by_cases hk : d.key = turn <;> simp [Instr.made, offersLeft, Instr.offers, hk, Nat.add_comm]
  | @redispatched d st cached h =>
    have hkey : ({ d with cachedLlm := cached } : Dispatch).key = d.key := rfl
    have hoffer : ({ d with cachedLlm := cached } : Dispatch).offer = d.offer := rfl
    exact .of_offers rfl rfl (by simp [offersLeft, Instr.offers, hkey, hoffer]) (by simp [Instr.offers, hkey, hoffer])
  | slotFreed =>
    exact ⟨by simp [Instr.made, offersLeft, Instr.offers, Dispatcher.pendingOf_onTurnTerminal],
      fun P _ _ hq => ⟨hq.onTurnTerminal, fun y hy => by cases hy⟩⟩
  | released h =>
    refine ⟨by simp [Instr.made, offersLeft, Instr.offers, Dispatcher.pendingOf_onTurnTerminal], fun P _ _ hq => ?_⟩
    exact ⟨hq.onTurnTerminal, by simp [Instr.offers]⟩
  | _ =>
    exact .of_offers rfl (by simp [Instr.made]) (by simp [offersLeft, Instr.offers, redoOffers_cons])
      (by simp [Instr.offers, redoOffers_cons, failTaskWithReason, failTurnAndRespond])

/-- What is queued comes from the offers left. -/
theorem HandsOn.enqueue {q : QueuedTurn} {st : BrokerStore} {p : Offer} {acts : List Act} {next : List Instr}
    (hm : x.made turn acts = []) (hp : q.key = turn → p ∈ x.offers turn ∧ q.offer = p)
    (hw : (if q.key = turn then 1 else 0) + weight (offersLeft turn) next ≤ offersLeft turn x)
    (hsub : ∀ y ∈ next, ∀ p ∈ y.offers turn, p ∈ x.offers turn) :
    HandsOn turn s x { shared := { s with store := st, dispatcher := s.dispatcher.enqueue q }, next, acts } [] := by
  refine ⟨?_, fun P hx _ hq => ⟨hq.enqueue fun hk => ?_, fun y hy p hy' => ?_⟩⟩
  · rw [hm, Dispatcher.pendingOf_enqueue]
    simp only [List.length_nil, weight_nil]
    omega
  · obtain ⟨hmem, rfl⟩ := hp hk
    exact hx _ hmem
  · rw [List.append_nil] at hy
    exact hx p (hsub y hy p hy')

/-- An instruction that nothing comes of. -/
theorem HandsOn.nothing {st : BrokerStore} {acts : List Act} (hm : x.made turn acts = []) :
    HandsOn turn s x { shared := { s with store := st }, acts } [] :=
  .of_offers rfl hm (by simp) (fun y hy => by cases hy)

/-- Afterwards one more message of the turn is to be sent. -/
def SendsAgain (turn : TurnKey) (s : Shared) (x : Instr) (out : Out) : Prop :=
  s.dispatcher.pendingOf turn + offersLeft turn x <
    out.shared.dispatcher.pendingOf turn + weight (offersLeft turn) out.next

instance (turn : TurnKey) (s : Shared) (x : Instr) (out : Out) : Decidable (SendsAgain turn s x out) :=
  inferInstanceAs (Decidable (_ < _))

/-- The offers are handed on, and at most one is made. -/
def MakesOffers (turn : TurnKey) (s : Shared) (x : Instr) (out : Out) : Prop :=
  ∃ added, HandsOn turn s x out added ∧
    (added = [] ∨ ∃ p, added = [p] ∧ Makes turn s x p ∧ SendsAgain turn s x out)

theorem MakesOffers.none (h : HandsOn turn s x out []) : MakesOffers turn s x out := ⟨[], h, Or.inl rfl⟩

/-- A computation of the store leaves it to its results. -/
theorem MakesOffers.on {α : Type} {m : StoreM BrokerStore α} {k : Except AppError α → Shared → Out}
    (h : ∀ r st, m s.store = (r, st) → MakesOffers turn s x (k r { s with store := st })) :
    MakesOffers turn s x (s.on m k) := h _ _ rfl

theorem makesOffers_writeTurnStarted {t : String} {k : Int} {i rg : String} :
    MakesOffers turn s (.writeTurnStarted t k i rg) (s.exec cfg env (.writeTurnStarted t k i rg)) := by
  have hstep := exec_step cfg env s (.writeTurnStarted t k i rg)
  generalize s.exec cfg env (.writeTurnStarted t k i rg) = out at hstep
  cases hstep with
  | stop _ _ => exact .none (.nothing rfl)
  | started _ =>
    by_cases hk : (t, k) = turn
    · subst hk
      refine ⟨[⟨0, rg⟩], ⟨?_, fun P _ hp hq => ⟨hq, ?_⟩⟩, Or.inr ⟨_, rfl, .start, ?_⟩⟩
      · simp [Instr.made, offersLeft, Instr.offers]
      · simpa [Instr.offers] using hp
      · simp [SendsAgain, offersLeft, Instr.offers]
    · exact .none (.of_offers rfl rfl (by simp [offersLeft, Instr.offers, hk]) (by simp [Instr.offers, hk]))

theorem makesOffers_enqueueTurn {t : String} {k : Int} {i rg : String} {chan : Nat} :
    MakesOffers turn s (.enqueueTurn t k i rg chan) (s.exec cfg env (.enqueueTurn t k i rg chan)) := by
  show MakesOffers turn s _ (s.enqueueTurn t k i rg chan)
  unfold Shared.enqueueTurn Shared.enqueueAndDispatch
  refine MakesOffers.on fun r st _ => ?_
  cases r with
  | error err => exact .none (.nothing rfl)
  | ok found =>
    refine .none (.enqueue (p := ⟨0, rg⟩) rfl (fun hk => ?_) ?_ (by simp [Instr.offers]))
    · have hkey : (t, k) = turn := hk
      exact ⟨by simp [Instr.offers, hkey], rfl⟩
    · by_cases hk : (t, k) = turn <;> simp [offersLeft, Instr.offers, QueuedTurn.key, hk]

theorem makesOffers_enqueueRedo {t : String} {r : RedoContext} {cached : List String} {chan : Nat}
    {redo : List RedoContext} :
    MakesOffers turn s (.enqueueRedo t r cached chan redo) (s.exec cfg env (.enqueueRedo t r cached chan redo)) := by
  show MakesOffers turn s _ (s.enqueueRedo t r cached chan redo)
  unfold Shared.enqueueRedo Shared.enqueueAndDispatch
  refine MakesOffers.on fun found st _ => ?_
  cases found with
  | error err =>
    refine .none (.of_offers rfl rfl ?_ ?_)
    · simp [offersLeft, Instr.offers, redoOffers_cons]
    · simp +contextual [Instr.offers, redoOffers_cons]
  | ok found =>
    refine .none (.enqueue (p := r.offer) rfl (fun hk => ?_) ?_ ?_)
    · have hkey : (t, r.turnId) = turn := hk
      exact ⟨by simp [Instr.offers, redoOffers_cons, hkey], rfl⟩
    · by_cases hk : (t, r.turnId) = turn <;>
        simp [offersLeft, Instr.offers, QueuedTurn.key, redoOffers_cons, hk, Nat.add_comm]
    · simp +contextual [Instr.offers, redoOffers_cons]

theorem makesOffers_dispatchPopped {q : QueuedTurn} :
    MakesOffers turn s (.dispatchPopped q) (s.exec cfg env (.dispatchPopped q)) := by
  have hsame : Instr.offers turn (.dispatchAttempt
      { taskId := q.taskId, turnId := q.turnId, userInput := q.userInput, redoGroup := q.redoGroup
        redoCount := q.redoCount, cachedLlm := q.cachedLlm, slot := some q.taskType } 0) =
      Instr.offers turn (.dispatchPopped q) := rfl
  refine .none (.of_offers rfl rfl ?_ ?_)
  · simp [Shared.exec, Shared.dispatchPopped, offersLeft, hsame]
  · simp [Shared.exec, Shared.dispatchPopped, hsame]

theorem makesOffers_decideRetry {t : String} {k : Int} {et em i rg : String} :
    MakesOffers turn s (.decideRetry t k et em i rg) (s.exec cfg env (.decideRetry t k et em i rg)) := by
  show MakesOffers turn s _ (s.decideRetry cfg t k et em i rg)
  unfold Shared.decideRetry
  dsimp only
  cases hd : cfg.retryPolicy.decide (classifyFailure et) (s.attemptsOf (t, k)) with
  | retry reason next =>
    obtain ⟨-, rfl⟩ := RetryPolicy.decide_retry hd
    by_cases hk : (t, k) = turn
    · subst hk
      refine ⟨[⟨s.attemptsOf (t, k) + 1, rg⟩], ⟨?_, fun P _ hp hq => ⟨hq, ?_⟩⟩, Or.inr ⟨_, rfl, .retry, ?_⟩⟩
      · simp [Instr.made, offersLeft, Instr.offers, Dispatch.key]
      · simpa [Instr.offers, Dispatch.key, Dispatch.offer] using hp
      · simp [SendsAgain, offersLeft, Instr.offers, Dispatch.key]
    · exact .none (.of_offers rfl rfl (by simp [offersLeft, Instr.offers, Dispatch.key, hk])
        (by simp [Instr.offers, Dispatch.key, hk]))
  | fail reason spent =>
    refine .none (.of_offers rfl rfl ?_ ?_)
    · simp [offersLeft, Instr.offers]
    · simp [failTaskWithReason, Instr.offers]

/-- The context of a redo has the number after that of the incomplete turn, and its group. -/
theorem recoverTurn_offer {t : String} {incomplete : IncompleteTurn} {order : List String} {st st' : BrokerStore}
    {decision : RecoveryDecision} {ctx : Option RedoContext}
    (h : recoverTurn brokerEventStore t incomplete order st = (.ok (decision, ctx), st')) : ∀ r ∈ ctx.toList,
      r.turnId = incomplete.turnId ∧ r.offer = ⟨wrapI32 (incomplete.redoCount + 1), incomplete.redoGroup⟩ := by
  obtain ⟨decision', s₁, -, h⟩ := bind_eq_ok.mp h
  cases decision' with
  | requiresHumanIntervention k group blocking =>
    cases h
    exact nofun
  | safeToRedo k group count steps =>
    obtain ⟨ctx', s₂, hctx, h⟩ := bind_eq_ok.mp h
    obtain ⟨events, s₃, -, hctx⟩ := bind_eq_ok.mp hctx
    cases h
    cases hctx
    intro r hr
    obtain ⟨e, -, rfl⟩ := Option.map_eq_some_iff.mp (Option.mem_toList.mp hr)
    exact ⟨rfl, rfl⟩

/-- It is an offer of the turn, or of another. -/
theorem redoOffers_context {k : Int} {p : Offer} {ctx : Option RedoContext}
    (h : ∀ r ∈ ctx.toList, r.turnId = k ∧ r.offer = p) (turn : TurnKey) (t : String) :
    redoOffers turn t ctx.toList = [] ∨ ((t, k) = turn ∧ redoOffers turn t ctx.toList = [p]) := by
  cases ctx with
  | none => exact Or.inl rfl
  | some r =>
    obtain ⟨rfl, rfl⟩ := h r (by simp)
    by_cases hk : (t, r.turnId) = turn
    · exact Or.inr ⟨hk, by simp [redoOffers_cons, hk]⟩
    · exact Or.inl (by simp [redoOffers_cons, hk])

theorem makesOffers_recoverTurns {t : String} {incomplete : IncompleteTurn} {turns : List IncompleteTurn}
    {redo : List RedoContext} : MakesOffers turn s (.recoverTurns t (incomplete :: turns) redo)
      (s.exec cfg env (.recoverTurns t (incomplete :: turns) redo)) := by
  show MakesOffers turn s _ (s.recoverTurns env t (incomplete :: turns) redo)
  unfold Shared.recoverTurns
  refine MakesOffers.on fun r st hr => ?_
  rcases r with err | ⟨decision, ctx⟩
  · exact .none (.nothing rfl)
  · have hoffer := recoverTurn_offer hr
    cases decision with
    | requiresHumanIntervention k group blocking =>
      exact .none (.of_offers rfl rfl (by simp [offersLeft, Instr.offers]) (by simp [Instr.offers]))
    | safeToRedo k group count steps =>
      rcases redoOffers_context hoffer turn t with hnone | ⟨rfl, hone⟩
      · refine .none (.of_offers rfl rfl ?_ ?_)
        · simp [offersLeft, Instr.offers, hnone]
        · simp [Instr.offers, hnone]
      · refine ⟨_, ⟨?_, fun P hx hp hq => ⟨hq, ?_⟩⟩, Or.inr ⟨_, rfl, .redo rfl, ?_⟩⟩
        · simp [Instr.made, offersLeft, Instr.offers, hone, Nat.add_assoc]
        · simp only [List.append_nil, List.mem_singleton, forall_eq, Instr.offers, redoOffers_append, hone]
          intro p hmem
          exact (List.mem_append.mp hmem).elim (hx p) (hp p)
        · simp [SendsAgain, offersLeft, Instr.offers, hone]

variable (cfg env s) in
/-- **Offers are handed on**, and made by a start, by a retry and by a redo. -/
theorem exec_handsOn (x : Instr) (turn : TurnKey) : MakesOffers turn s x (s.exec cfg env x) := by
  cases x with
  | writeTurnStarted t k i rg => exact makesOffers_writeTurnStarted
  | enqueueTurn t k i rg chan => exact makesOffers_enqueueTurn
  | dispatchPopped q => exact makesOffers_dispatchPopped
  | decideRetry t k et em i rg => exact makesOffers_decideRetry
  | enqueueRedo t r cached chan redo => exact makesOffers_enqueueRedo
  | recoverTurns t turns redo =>
    cases turns with
    | nil => exact .none ((exec_step cfg env s _).handsOn turn rfl)
    | cons incomplete turns => exact makesOffers_recoverTurns
  | _ => exact .none ((exec_step cfg env s _).handsOn turn rfl)

/-! ## The messages of a turn -/

/-- The orchestrator, and the messages of a turn so far, the last one first. -/
structure Offered where
  orch : Orchestrator
  published : List Offer := []

/-- The messages of the turn that a move sends. -/
def publishedBy (cfg : Config) (turn : TurnKey) (o : Orchestrator) (m : OMove) : List Offer :=
  ((fetched o m).map (Instr.made turn (actsOf cfg o m))).getD []

def Offered.step (cfg : Config) (turn : TurnKey) (w : Offered) : Happening → Offered
  | .move m => { orch := orchestrate cfg w.orch m, published := publishedBy cfg turn w.orch m ++ w.published }
  | .restart produces sessions n => { w with orch := happen cfg w.orch (.restart produces sessions n) }

/-- From one message to the next the number grows and the group stays. -/
def Increasing (published : List Offer) : Prop :=
  published.Pairwise fun p q => q.redoCount < p.redoCount ∧ p.redoGroup = q.redoGroup

instance (published : List Offer) : Decidable (Increasing published) := inferInstanceAs (Decidable (List.Pairwise _ _))

/-- The first event of the turn is its start, in the group. -/
def StartedIn (turn : TurnKey) (group : String) (log : List Record) : Prop :=
  ∃ e rest input, (eventsOf turn.1 log).filter (fun e => e.turnId = some turn.2) = e :: rest ∧
    e.eventType = .turnStarted ∧ e.payload = turnStartedPayload input group 0

/-- What an instruction has read about the turn is from its start. -/
def Instr.Told (turn : TurnKey) (group : String) : Instr → Prop
  | .decideRetry t k _ _ _ rg => (t, k) = turn → rg = group
  | .recoverTurns t turns _ | .skipSteps t _ _ _ turns _ | .failBlocked t _ _ turns _ =>
    ∀ i ∈ turns, (t, i.turnId) = turn → i.redoGroup = group ∧ i.redoCount = 0
  | _ => True

/-- How many messages of the turn are under way. -/
def underWay (turn : TurnKey) (o : Orchestrator) : Nat :=
  o.shared.dispatcher.pendingOf turn + total (offersLeft turn) o.pool

/-- Every message of the turn that is under way has the property. -/
structure EveryOffer (turn : TurnKey) (P : Offer → Prop) (o : Orchestrator) : Prop where
  queued : QueuedOffers turn P o.shared.dispatcher
  left : Everywhere (fun x => ∀ p ∈ x.offers turn, P p) o.pool

/-- The turn has been started in the group, and at most one message of it, in the group, is under way. -/
structure Begun (turn : TurnKey) (group : String) (o : Orchestrator) : Prop where
  started : StartedIn turn group (o.shared.store.log turn.1)
  told : Everywhere (Instr.Told turn group) o.pool
  single : underWay turn o ≤ 1
  grouped : EveryOffer turn (fun p => p.redoGroup = group) o

/-- The instruction looks up the start of the turn. -/
def Instr.looksUp (turn : TurnKey) : Instr → Bool
  | .turnExecutionError t k _ _ => (t, k) = turn
  | .recoverTask t => t = turn.1
  | _ => false

/-- How often the turn was redone, as far as the instruction knows: a retry asks the counter in memory, a recovery the
start event, which says 0 for ever. -/
def Instr.knownCount (s : Shared) (turn : TurnKey) : Instr → Int
  | .decideRetry _ _ _ _ _ _ => s.attemptsOf turn
  | _ => 0

/-- The turn is sent once more only by a retry or a recovery that knows of every redo so far, and only when no message
of it is under way. -/
def KnowsRedos (cfg : Config) (turn : TurnKey) (published : List Offer) (o : Orchestrator) (env : Env)
    (x : Instr) : Prop :=
  SendsAgain turn o.shared x (execWith cfg env o.shared x) →
    x.starts ≠ some turn ∧ underWay turn o = 0 ∧ ∀ p ∈ published, p.redoCount ≤ x.knownCount o.shared turn

instance (cfg : Config) (turn : TurnKey) (published : List Offer) (o : Orchestrator) (env : Env) (x : Instr) :
    Decidable (KnowsRedos cfg turn published o env x) := inferInstanceAs (Decidable (_ → _))

/-- And the start of the turn is looked up in the whole log. -/
def RedoneInTurn (cfg : Config) (turn : TurnKey) (published : List Offer) (o : Orchestrator) (env : Env) (x : Instr) :
    Prop :=
  (x.looksUp turn = true → UpToDate turn.1 o.shared.store) ∧ KnowsRedos cfg turn published o env x

/-- The condition on what comes next. -/
def RedosInTurn (cfg : Config) (turn : TurnKey) (w : Offered) : Happening → Prop
  | .move m => Executing (RedoneInTurn cfg turn w.published) w.orch m
  | .restart _ _ _ => True

/-! ## What is looked up -/

section LookUp

variable {group : String} {log : List Record}

theorem StartedIn.append (h : StartedIn turn group log) {log' : List Record} (hp : log <+: log') :
    StartedIn turn group log' := by
  obtain ⟨e, rest, input, hevents, hstart⟩ := h
  obtain ⟨new, rfl⟩ := hp
  refine ⟨e, rest ++ (eventsOf turn.1 new).filter (fun e => e.turnId = some turn.2), input, ?_, hstart⟩
  rw [eventsOf, List.filterMap_append, List.filter_append]
  exact congrArg (· ++ _) hevents

/-- The group of the start event. -/
theorem StartedIn.found (h : StartedIn turn group (s.store.log turn.1)) (hs : UpToDate turn.1 s.store) {e : AgentEvent}
    (he : findTurnStarted ((s.store.view turn.1).turnEvents turn.2) = some e) :
    startedText e "redo_group" "unknown" = group := by
  obtain ⟨e₀, rest, input, hevents, hstart, hpayload⟩ := h
  rw [hs.view, replay_turnEvents hs.nodup, hevents] at he
  have hfirst : findTurnStarted (e₀ :: rest) = some e₀ := List.find?_cons_of_pos (decide_eq_true hstart)
  obtain rfl := Option.some.inj (hfirst.symm.trans he)
  rw [startedText, hpayload]
  rfl

/-- An incomplete turn has the group and the number of the start event. -/
theorem StartedIn.incomplete (h : StartedIn turn group (s.store.log turn.1)) (hs : UpToDate turn.1 s.store)
    {order : List Int} {i : IncompleteTurn} (hi : i ∈ (s.store.view turn.1).incompleteTurns order)
    (hk : i.turnId = turn.2) : i.redoGroup = group ∧ i.redoCount = 0 := by
  obtain ⟨e₀, rest, input, hevents, hstart, hpayload⟩ := h
  rw [hs.view, incompleteTurns_replay hs.nodup] at hi
  obtain ⟨k, -, hi⟩ := List.mem_filterMap.mp hi
  obtain rfl : k = turn.2 := (incompleteTurnOf_turnId hi).symm.trans hk
  rw [replay_turnEvents hs.nodup, hevents] at hi
  have hturn := Option.some.inj hi
  dsimp only at hturn
  rw [hpayload] at hturn
  subst hturn
  exact ⟨rfl, rfl⟩

/-- The rules for the other instructions pass on what was read. -/
theorem Step.told (h : Step cfg s x out) (hx : x.Told turn group)
    (hfree : ∀ t k et em, x ≠ .turnExecutionError t k et em)
    (hrec : ∀ t, x ≠ .recoverTask t) : ∀ y ∈ out.next ++ out.spawned, y.Told turn group := by
  cases h with
  | foundStarted _ => exact absurd rfl (hfree _ _ _ _)
  | listed _ => exact absurd rfl (hrec _)
  | safe _ _ | unsafeToRedo _ =>
    simpa [Instr.Told] using fun i hi => hx i (List.mem_cons_of_mem _ hi)
  | skipped | skippedStep _ | blocked _ => simpa [Instr.Told] using hx
  | _ => simp [Instr.Told, failTaskWithReason, failTurnAndRespond]

variable (cfg env) in
/-- What comes of an instruction knows the start of the turn, if it was looked up in the whole log. -/
theorem told_next (hlog : StartedIn turn group (s.store.log turn.1)) (hx : x.Told turn group)
    (hread : x.looksUp turn = true → UpToDate turn.1 s.store) :
    ∀ y ∈ (s.exec cfg env x).next ++ (s.exec cfg env x).spawned, y.Told turn group := by
  have hother := fun hfree hrec => (exec_step cfg env s x).told hx hfree hrec
  cases x with
  | turnExecutionError t k et em =>
    show ∀ y ∈ (s.turnExecutionError t k et em).next ++ (s.turnExecutionError t k et em).spawned, _
    unfold Shared.turnExecutionError Shared.on
    cases hr : brokerEventStore.getTurnEvents t k s.store with
    | mk r st =>
      cases r with
      | error err => simp
      | ok events =>
        dsimp only
        cases he : findTurnStarted events with
        | none => simp [Instr.Told, failTaskWithReason]
        | some e =>
          simp only [List.append_nil, List.mem_singleton, forall_eq]
          rintro rfl
          have hs := hread (decide_eq_true rfl)
          obtain ⟨rfl, -⟩ := wp_ok (withProjection_healthy hs.healthy _) hr
          exact hlog.found hs he
  | recoverTask t =>
    show ∀ y ∈ (s.recoverTask env t).next ++ (s.recoverTask env t).spawned, _
    unfold Shared.recoverTask Shared.on
    cases hr : brokerEventStore.getIncompleteTurns t env.turnOrder s.store with
    | mk r st =>
      cases r with
      | error err => simp
      | ok turns =>
        simp only [List.append_nil, List.mem_singleton, forall_eq]
        intro i hi hk
        obtain rfl : t = turn.1 := congrArg Prod.fst hk
        have hs := hread (decide_eq_true rfl)
        obtain ⟨rfl, -⟩ := wp_ok (withProjection_healthy hs.healthy _) hr
        exact hlog.incomplete hs hi (congrArg Prod.snd hk)
  | _ => exact hother (by simp) (by simp)

end LookUp

/-! ## The invariant -/

section Invariant

variable {group : String} {o o' : Orchestrator} {w : Offered} {m : OMove} {k : Nat} {rest : List Instr}

theorem EveryOffer.mono {P' : Offer → Prop} (h : EveryOffer turn P o) (hP : ∀ p, P p → P' p) : EveryOffer turn P' o :=
  ⟨h.queued.mono fun _ _ hq hk => hP _ (hq hk), fun stack hs x hx p hp => hP p (h.left stack hs x hx p hp)⟩

/-- Nothing is under way. -/
theorem EveryOffer.of_none (h : underWay turn o = 0) : EveryOffer turn P o := by
  unfold underWay at h
  refine ⟨(Dispatcher.allQueued_of_pendingOf (by omega)).mono fun _ _ hne hk => absurd hk hne,
    fun stack hs x hx p hp => ?_⟩
  have hle : offersLeft turn x ≤ total (offersLeft turn) o.pool := le_total hs hx
  have hpos : 0 < offersLeft turn x := List.length_pos_of_mem hp
  omega

/-- A message in the group, with a number beyond those so far. -/
def Ahead (group : String) (published : List Offer) (p : Offer) : Prop :=
  p.redoGroup = group ∧ ∀ q ∈ published, q.redoCount < p.redoCount

/-- The messages so far are in order, and the next one, if it is under way, is in order behind them. -/
structure Redoing (turn : TurnKey) (group : String) (w : Offered) : Prop where
  started : StartedIn turn group (w.orch.shared.store.log turn.1)
  told : Everywhere (Instr.Told turn group) w.orch.pool
  single : underWay turn w.orch ≤ 1
  ahead : EveryOffer turn (Ahead group w.published) w.orch
  increasing : Increasing w.published
  grouped : ∀ p ∈ w.published, p.redoGroup = group

/-- A process that is started over has no message under way. -/
theorem begun_start {store : BrokerStore} (n : Nat) (h : StartedIn turn group (store.log turn.1)) :
    Begun turn group (.start store n) :=
  ⟨h, fun _ hs => by (cases hs), Nat.zero_le 1, .of_none rfl⟩

theorem Begun.redoing (h : Begun turn group o) : Redoing turn group { orch := o } where
  started := h.started
  told := h.told
  single := h.single
  ahead := h.grouped.mono fun p hp => ⟨hp, fun q hq => by cases hq⟩
  increasing := List.Pairwise.nil
  grouped p hp := by cases hp

/-- What an instruction adds is behind the messages so far. -/
theorem Makes.ahead {published : List Offer} {p : Offer} (hp : Makes turn s x p) (hx : x.Told turn group)
    (hstart : x.starts ≠ some turn) (hknown : ∀ q ∈ published, q.redoCount ≤ x.knownCount s turn) :
    Ahead group published p := by
  cases hp with
  | start => exact absurd rfl hstart
  | retry =>
    refine ⟨hx rfl, fun q hq => ?_⟩
    exact Int.lt_add_one_of_le (hknown q hq)
  | @redo incomplete turns redo hk =>
    obtain ⟨hgroup, hzero⟩ := hx incomplete List.mem_cons_self (by rw [hk])
    refine ⟨hgroup, fun q hq => ?_⟩
    have hle : q.redoCount ≤ 0 := hknown q hq
    have hone : wrapI32 (incomplete.redoCount + 1) = 1 := by rw [hzero]; rfl
    dsimp only
    omega

/-- A message that is sent comes behind those so far; then no other one is under way. -/
theorem Redoing.exec (h : Redoing turn group w) (he : Executes (execWith cfg) w.orch m o' k env x rest)
    (hreads : x.looksUp turn = true → UpToDate turn.1 w.orch.shared.store)
    (hc : KnowsRedos cfg turn w.published w.orch env x) : Redoing turn group
      { orch := o', published := x.made turn (execWith cfg env w.orch.shared x).acts ++ w.published } := by
  obtain ⟨added, hon, hadded⟩ := exec_handsOn cfg env w.orch.shared x turn
  have htold : x.Told turn group := he.of_everywhere h.told
  have hbalance : (x.made turn (execWith cfg env w.orch.shared x).acts).length + underWay turn o' ≤
      underWay turn w.orch + added.length := by
    have htotal := he.total (offersLeft turn)
    have hle := hon.balance
    unfold underWay
    rw [he.shared]
    unfold execWith at htotal ⊢
    omega
  have hnew : underWay turn w.orch + added.length ≤ 1 ∧ ∀ p ∈ added, Ahead group w.published p := by
    rcases hadded with rfl | ⟨p, rfl, hmakes, hmore⟩
    · exact ⟨h.single, fun p hp => by cases hp⟩
    · obtain ⟨hstart, hnone, hknown⟩ := hc hmore
      refine ⟨by rw [hnone]; rfl, fun q hq => ?_⟩
      rw [List.mem_singleton.mp hq]
      exact hmakes.ahead htold hstart hknown
  have hleft := he.of_everywhere h.ahead.left
  obtain ⟨hqueued, hnext⟩ := hon.passed _ hleft hnew.2 h.ahead.queued
  have hahead : EveryOffer turn (Ahead group w.published) o' :=
    ⟨by rw [he.shared]; exact hqueued, he.everywhere h.ahead.left hnext⟩
  have hstarted : StartedIn turn group (o'.shared.store.log turn.1) := by
    obtain ⟨written, hgrows, -⟩ := (exec_step cfg env w.orch.shared x).grows
    rw [he.shared]
    exact h.started.append (hgrows.log_prefix turn.1)
  have hall : Everywhere (Instr.Told turn group) o'.pool :=
    he.everywhere h.told (told_next cfg env h.started htold hreads)
  have hmade : ∀ p ∈ x.made turn (execWith cfg env w.orch.shared x).acts, Ahead group w.published p :=
    fun p hp => hleft p (Instr.made_subset hp)
  generalize x.made turn (execWith cfg env w.orch.shared x).acts = made at hbalance hmade ⊢
  cases made with
  | nil =>
    rw [List.length_nil] at hbalance
    have hsingle : underWay turn o' ≤ 1 := by omega
    exact ⟨hstarted, hall, hsingle, hahead, h.increasing, h.grouped⟩
  | cons p made =>
    rw [List.length_cons] at hbalance
    have hnone : underWay turn o' = 0 := by omega
    obtain rfl : made = [] := List.eq_nil_of_length_eq_zero (by omega)
    obtain ⟨hgroup, hbeyond⟩ := hmade p List.mem_cons_self
    refine ⟨hstarted, hall, hnone.trans_le (Nat.zero_le 1), .of_none hnone, ?_, ?_⟩
    · exact List.pairwise_cons.mpr ⟨fun q hq => ⟨hbeyond q hq, hgroup.trans (h.grouped q hq).symm⟩, h.increasing⟩
    · exact fun q hq => (List.mem_cons.mp hq).elim (fun heq => heq ▸ hgroup) (h.grouped q)

variable (turn group) in
/-- What comes in from outside has no message and has read nothing. -/
theorem entry_offers (hx : x.isEntry = true) : x.offers turn = [] ∧ x.Told turn group := by
  cases x <;> first
    | exact ⟨rfl, trivial⟩
    | cases hx

theorem publishedBy_of_acts (h : actsOf cfg o m = []) : publishedBy cfg turn o m = [] := by
  unfold publishedBy
  rw [h]
  cases fetched o m <;> simp

/-- **The next step keeps the messages in order.** -/
theorem Redoing.step (h : Redoing turn group w) {i : Happening} (hc : RedosInTurn cfg turn w i) :
    Redoing turn group (Offered.step cfg turn w i) := by
  cases i with
  | restart produces sessions n =>
    have hnone : underWay turn (happen cfg w.orch (.restart produces sessions n)) = 0 := rfl
    exact ⟨h.started, fun _ hs => by (cases hs), hnone.trans_le (Nat.zero_le 1), .of_none hnone,
      h.increasing, h.grouped⟩
  | move m =>
    show Redoing turn group
      { orch := move (execWith cfg) Instr.isEntry w.orch m, published := publishedBy cfg turn w.orch m ++ w.published }
    have hc' : Executing (RedoneInTurn cfg turn w.published) w.orch m := hc
    rcases move_cases_when (execWith cfg) Instr.isEntry hc' with ⟨heq, hacts⟩ | ⟨x, hx, heq, hacts⟩ |
      ⟨k, env, x, rest, he, hreads, hc⟩
    · rw [heq, publishedBy_of_acts hacts]
      exact h
    · rw [heq, publishedBy_of_acts hacts]
      obtain ⟨hoffers, htold⟩ := entry_offers turn group hx
      have hend : ∀ {Q : Instr → Prop}, Everywhere Q w.orch.pool → Q x → Everywhere Q (w.orch.pool ++ [[x]]) := by
        intro Q hold hnew stack hs y hy
        rcases List.mem_append.mp hs with hs | hs
        · exact hold stack hs y hy
        · rw [List.mem_singleton.mp hs, List.mem_singleton] at hy
          exact hy ▸ hnew
      refine ⟨h.started, hend h.told htold, ?_, ⟨h.ahead.queued, hend h.ahead.left (by rw [hoffers]; simp)⟩,
        h.increasing, h.grouped⟩
      have hsingle := h.single
      simpa [underWay, offersLeft, hoffers] using hsingle
    · have hmade : publishedBy cfg turn w.orch m = x.made turn (execWith cfg env w.orch.shared x).acts := by
        unfold publishedBy actsOf
        rw [he.fetched, he.acts]
        rfl
      rw [hmade]
      exact h.exec he hreads hc

end Invariant

/-- **The numbers of the messages increase strictly, and the group stays**, in every run with any retries, recoveries
and restarts in which every redo goes by a number that knows of the redos before. -/
theorem redoCounts_increase {group : String} {o : Orchestrator} {is : List Happening} (h : Begun turn group o)
    (hm : Meets (Offered.step cfg turn) (RedosInTurn cfg turn) { orch := o } is) :
    Increasing (run (Offered.step cfg turn) { orch := o } is).published :=
  (run_invariant (Redoing turn group) (fun _ _ h hc => h.step hc) h.redoing hm).increasing

/-- A turn that was started and not sent yet. -/
def startedLog : List Record :=
  [⟨1, "task_created", .obj [("task_type", .str "chat")], ∅⟩, ⟨2, "task_ready", .obj [], ∅⟩,
    ⟨3, "turn_started", turnStartedPayload "go" "rg_1" 0, (∅ : Metadata).insert "turn_id" "1"⟩]

/-- The request that has started it. -/
def afterStart : Orchestrator :=
  { Orchestrator.start (freshStore startedLog) 1 with pool := [[.runTurnToCompletion "task_1" 1 "go" "rg_1"]] }

theorem afterStart_begun : Begun ("task_1", 1) "rg_1" afterStart where
  started := ⟨_, [], "go", rfl, rfl, rfl⟩
  told := by simp [afterStart, Everywhere, Instr.Told]
  single := by decide
  grouped := ⟨Dispatcher.allQueued_new 1, by simp [afterStart, Everywhere, Instr.offers]⟩

/-- The turn fails at once; the report is looked at before its first message is sent, and decided on after that. -/
def retriedOnce : List Happening :=
  [.move (.enter (.turnExecutionError "task_1" 1 "agent_process_exited" "boom")), .move (.exec 1 {})] ++
    (List.replicate 6 (.move (.exec 0 {})) ++ List.replicate 3 (.move (.exec 1 {})))

/-- A step that knows of the redos and looks nothing up. -/
def RedosKnown (cfg : Config) (turn : TurnKey) (w : Offered) : Happening → Prop
  | .move m => Executing (fun o env x => x.looksUp turn = false ∧ KnowsRedos cfg turn w.published o env x) w.orch m
  | .restart _ _ _ => True

instance (cfg : Config) (turn : TurnKey) (w : Offered) (i : Happening) : Decidable (RedosKnown cfg turn w i) := by
  cases i with
  | move m => exact Executing.decidable (fun o env x => x.looksUp turn = false ∧
      KnowsRedos cfg turn w.published o env x) _ _
  | restart _ _ _ => exact isTrue trivial

theorem RedosKnown.inTurn {w : Offered} {i : Happening} (h : RedosKnown cfg turn w i) : RedosInTurn cfg turn w i := by
  cases i with
  | restart _ _ _ => trivial
  | move m =>
    cases m with
    | enter x => trivial
    | exec k env =>
      refine (executing_iff (C := RedoneInTurn cfg turn w.published)).mpr fun x hx => ?_
      obtain ⟨hlook, hknows⟩ := (executing_iff (C := fun (o : Orchestrator) (env : Env) (x : Instr) =>
        x.looksUp turn = false ∧ KnowsRedos cfg turn w.published o env x)).mp h x hx
      exact ⟨fun hlook' => absurd (hlook.symm.trans hlook') (by simp), hknows⟩

/-- The theorem at a turn that is retried once. -/
theorem redoCounts_increase_retry :
    Increasing (run (Offered.step {} ("task_1", 1)) { orch := afterStart } retriedOnce).published := by
  have hs : UpToDate "task_1" (freshStore startedLog) := upToDate_restart (by decide) (by decide)
  have hrest : Meets (Offered.step {} ("task_1", 1)) (RedosKnown {} ("task_1", 1))
      (run (Offered.step {} ("task_1", 1)) { orch := afterStart } (retriedOnce.take 2)) (retriedOnce.drop 2) := by
    decide +kernel
  refine redoCounts_increase afterStart_begun ⟨trivial, ⟨fun _ => hs, by decide +kernel⟩, ?_⟩
  exact meets_of_invariant (fun _ => True) (fun _ _ _ _ => trivial) (fun _ _ _ h => h.inTurn) trivial hrest

/-- A request finds the turn incomplete, and the recovery redoes it. -/
def recoveredOnce : List Happening :=
  [.move (.enter (.executeTurn "task_1" "again" none)), .move (.exec 0 {})] ++ List.replicate 10 (.move (.exec 1 {}))

/-- Two recoveries, with a restart in between, send the same number. -/
theorem recoveries_repeat_count :
    let w : Offered := { orch := .start (freshStore startedLog) 1 }
    Begun ("task_1", 1) "rg_1" w.orch ∧
      (run (Offered.step {} ("task_1", 1)) w (recoveredOnce ++ .restart [] [] 1 :: recoveredOnce)).published =
        [⟨1, "rg_1"⟩, ⟨1, "rg_1"⟩] ∧
      ¬ Increasing (run (Offered.step {} ("task_1", 1)) w
        (recoveredOnce ++ .restart [] [] 1 :: recoveredOnce)).published := by
  have hpublished : (run (Offered.step {} ("task_1", 1)) { orch := .start (freshStore startedLog) 1 }
      (recoveredOnce ++ .restart [] [] 1 :: recoveredOnce)).published = [⟨1, "rg_1"⟩, ⟨1, "rg_1"⟩] := by decide +kernel
  refine ⟨begun_start 1 ⟨_, [], "go", rfl, rfl, rfl⟩, hpublished, ?_⟩
  rw [hpublished]
  decide

end Fixus
