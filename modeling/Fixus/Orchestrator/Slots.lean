import Fixus.Lib.Run
import Fixus.Orchestrator.Steps

/-!
# The slots of the dispatcher

A popped turn holds a slot of its type until it reaches its terminal event or is given up; the handler that ends it
goes on to give the slot back.

- `held`: the turns that hold a slot, read off the trace; `owed`: the releases that handlers still have to make;
- `Step.slots`, `Slots.move`: every instruction keeps the balance of slots taken, turns held and releases owed;
- `slots_conserved`: the balance in every run in which a slot is given back by those handlers, and only by those, that
  end a turn holding one;
- `late_report_frees_twice`: a late report gives back a slot that another turn holds.
-/

namespace Fixus

open Lib BrokerStore

variable {cfg : Config} {s : Shared} {x : Instr} {out : Out} {trace : List Act} {τ : String → String}

/-! ## Held turns and owed releases -/

/-- What an act does to the turns that hold a slot. -/
def Act.hold : Act → Finset TurnKey → Finset TurnKey
  | .popped turn, held => insert turn held
  | .ended turn _, held => held.erase turn
  | _, held => held

/-- The turns that were popped and have neither reached their terminal event nor been given up. -/
def held (trace : List Act) : Finset TurnKey := trace.foldr Act.hold ∅

@[simp] theorem held_cons (a : Act) : held (a :: trace) = a.hold (held trace) := rfl

/-- How many of them are of a type, with `τ` the types of the tasks. -/
def heldOf (τ : String → String) (taskType : String) (turns : Finset TurnKey) : Nat :=
  (turns.filter fun turn => τ turn.1 = taskType).card

/-- The releases of a type that an instruction will make. -/
def owed (τ : String → String) (taskType : String) : Instr → Nat
  | .onTurnTerminal tt => if tt = taskType then 1 else 0
  | .releaseSlotAndRedispatch t => if τ t = taskType then 1 else 0
  | _ => 0

theorem heldOf_insert {turns : Finset TurnKey} {turn : TurnKey} (h : turn ∉ turns) (tt : String) :
    heldOf τ tt (insert turn turns) = heldOf τ tt turns + if τ turn.1 = tt then 1 else 0 := by
  unfold heldOf
  by_cases htt : τ turn.1 = tt
  · rw [Finset.filter_insert, if_pos htt, if_pos htt, Finset.card_insert_of_notMem (by simp [h])]
  · rw [Finset.filter_insert, if_neg htt, if_neg htt, Nat.add_zero]

theorem heldOf_erase {turns : Finset TurnKey} {t : String} {k : Int} (h : (t, k) ∈ turns) (tt : String) :
    heldOf τ tt turns = heldOf τ tt (turns.erase (t, k)) + if τ t = tt then 1 else 0 := by
  have hi := heldOf_insert (τ := τ) (Finset.notMem_erase (t, k) turns) tt
  rwa [Finset.insert_erase h] at hi

/-! ## The condition -/

/-- The act fits the turns that hold a slot: a task is always found to be of its type, a popped turn holds no slot yet,
and a turn is ended by a handler that gives a slot back exactly if it holds one. -/
def Act.fits (τ : String → String) (held : Finset TurnKey) : Act → Bool
  | .enqueued turn tt => tt = τ turn.1
  | .popped turn => turn ∉ held
  | .ended turn releases => releases = decide (turn ∈ held)
  | .released t tt => tt = some (τ t)
  | _ => true

/-- All acts of the move fit. -/
abbrev SlotsFit (cfg : Config) (τ : String → String) (o : Orchestrator) (m : OMove) : Prop :=
  ∀ a ∈ actsOf cfg o m, a.fits τ (held o.trace) = true

/-- A queued turn is of the type of its queue, which is the type of its task. -/
def Queued (τ : String → String) (tt : String) (turn : QueuedTurn) : Prop := turn.taskType = tt ∧ τ turn.taskId = tt

/-- A turn that is being offered is of the type of its slot. -/
def Instr.Typed (τ : String → String) : Instr → Prop
  | .dispatchPopped turn => τ turn.taskId = turn.taskType
  | .redispatch d | .dispatchAttempt d _ => ∀ tt, d.slot = some tt → τ d.taskId = tt
  | _ => True

theorem QueuedTurn.key_fst (turn : QueuedTurn) : turn.key.1 = turn.taskId := rfl

/-- The queues and the dispatched turns stay typed. -/
theorem Step.typed (h : Step cfg s x out) (hq : s.dispatcher.AllQueued (Queued τ)) (hx : x.Typed τ)
    (hf : ∀ a ∈ out.acts, a.fits τ (held trace) = true) :
    out.shared.dispatcher.AllQueued (Queued τ) ∧ ∀ y ∈ out.next ++ out.spawned, y.Typed τ := by
  have henq : ∀ turn : QueuedTurn, turn.taskType = τ turn.key.1 → Queued τ turn.taskType turn :=
    fun turn h => ⟨rfl, h.symm⟩
  cases h with
  | @enqueued t k i rg chan st turn h hk =>
    have ht : turn.taskType = τ turn.key.1 := by simpa [Act.fits, hk] using hf
    exact ⟨hq.enqueue (henq turn ht), by simp [Instr.Typed]⟩
  | @redoEnqueued t r cached chan redo st turn h hk =>
    have ht : turn.taskType = τ turn.key.1 := by simpa [Act.fits, hk] using hf
    exact ⟨hq.enqueue (henq turn ht), by simp [Instr.Typed]⟩
  | @popped tt turn d h =>
    obtain ⟨⟨h₁, h₂⟩, hd⟩ := hq.tryPop h
    exact ⟨hd, by simp [Instr.Typed, h₁, h₂]⟩
  | @timed turn times d hk hs =>
    have hd : d.taskId = turn.taskId := congrArg Prod.fst hk
    exact ⟨hq, by simp_all [Instr.Typed]⟩
  | @publishAgain d n st h => exact ⟨hq, by simpa [Instr.Typed] using hx⟩
  | @retried t k et em i rg d hr hb hk hs => exact ⟨hq, by simp [Instr.Typed, hs]⟩
  | @redispatched d st cached h => exact ⟨hq, by simpa [Instr.Typed] using hx⟩
  | slotFreed => exact ⟨hq.onTurnTerminal, by simp⟩
  | released h => exact ⟨hq.onTurnTerminal, by simp [Instr.Typed]⟩
  | _ => exact ⟨hq, by simp [Instr.Typed, failTaskWithReason, failTurnAndRespond]⟩

/-! ## The balance -/

/-- Acts that change nothing at the turns held. -/
theorem held_reverse_append {acts : List Act} (h : ∀ a ∈ acts, a.hold (held trace) = held trace) :
    held (acts.reverse ++ trace) = held trace := by
  induction acts generalizing trace with
  | nil => rfl
  | cons a acts ih =>
    have ha : held (a :: trace) = held trace := h a List.mem_cons_self
    rw [List.reverse_cons, List.append_assoc, List.singleton_append, ih fun b hb => ?_, ha]
    rw [ha]
    exact h b (List.mem_cons_of_mem _ hb)

/-- **Slots taken, turns held and releases owed stay in balance.** -/
theorem Step.slots (h : Step cfg s x out) (hq : s.dispatcher.AllQueued (Queued τ)) (hx : x.Typed τ)
    (hf : ∀ a ∈ out.acts, a.fits τ (held trace) = true) (tt : String)
    (hpos : owed τ tt x ≤ s.dispatcher.inFlight tt) :
    out.shared.dispatcher.inFlight tt + owed τ tt x + heldOf τ tt (held trace) =
      s.dispatcher.inFlight tt + heldOf τ tt (held (out.acts.reverse ++ trace)) + weight (owed τ tt) out.next +
        weight (owed τ tt) out.spawned := by
  have hfinal : ∀ {t k reason et em}, weight (owed τ tt) (failTaskWithReason t k reason et em) = 0 := rfl
  have hreleasing : ∀ {t k et em}, weight (owed τ tt) (failTurnAndRespond t k et em) = if τ t = tt then 1 else 0 := by
    simp [failTurnAndRespond, failTaskWithReason, owed]
  -- a turn that is ended with a release holds a slot, and one that is ended without holds none
  have hgone : ∀ t k, Act.ended (t, k) true ∈ out.acts →
      heldOf τ tt (held trace) = heldOf τ tt ((held trace).erase (t, k)) + if τ t = tt then 1 else 0 :=
    fun t k ha => heldOf_erase (by simpa [Act.fits] using hf _ ha) tt
  have hkeep : ∀ turn, Act.ended turn false ∈ out.acts → (held trace).erase turn = held trace :=
    fun turn ha => Finset.erase_eq_of_notMem (by simpa [Act.fits] using hf _ ha)
  cases h with
  | @popped tt' turn d h =>
    have hnew : turn.key ∉ held trace := by simpa [Act.fits] using hf
    have hi := heldOf_insert (τ := τ) hnew tt
    have hp := Dispatcher.inFlight_tryPop h tt
    simp only [QueuedTurn.key_fst, (hq.tryPop h).1.2, eq_comm (b := tt)] at hi
    simp [Act.hold, owed, hi, hp]
    omega
  | @slotFreed tt' =>
    simp only [owed, eq_comm (b := tt)] at hpos
    simp [Dispatcher.inFlight_onTurnTerminal, owed, eq_comm (b := tt)]
    omega
  | @released t tt' st h =>
    have htype : tt' = τ t := by simpa [Act.fits] using hf
    subst htype
    simp only [owed, eq_comm (b := tt)] at hpos
    simp [Dispatcher.inFlight_onTurnTerminal, owed, Act.hold, eq_comm (b := tt)]
    omega
  | notReleased h => simp [Act.fits] at hf
  | @timedOut t k chan n et em =>
    have hg := hgone t k (by simp)
    simp [Act.hold, owed, hreleasing]
    omega
  | @popFailed d n st tt' em h hs =>
    have hg := hgone d.taskId d.turnId (by simp [Dispatch.key])
    cases hx tt' hs
    simp [Act.hold, owed, hfinal, Dispatch.key]
    omega
  | @done t k o st h =>
    have hg := hgone t k (by simp)
    simp [Act.hold, owed]
    omega
  | @finallyFailed t k et em i rg =>
    have hg := hgone t k (by simp)
    simp [Act.hold, owed, hfinal]
    omega
  | @redoGivenUp t k et em redo =>
    have hg := hgone t k (by simp)
    simp [Act.hold, owed, hreleasing]
    omega
  | @retryFailed d n st em h hs => simp [Act.hold, owed, hfinal, hkeep d.key (by simp)]
  | @notStarted t k et em st h => simp [Act.hold, owed, hfinal, hkeep (t, k) (by simp)]
  | @blocked t k n turns redo st h => simp [Act.hold, owed, hkeep (t, k) (by simp)]
  | @called c st h =>
    have hall : held ((c.acts ++ c.endedTurns.map fun turn => Act.ended turn false).reverse ++ trace) = held trace := by
      refine held_reverse_append fun a ha => ?_
      rcases mem_call_acts ha with ⟨t, et, k, rfl⟩ | ⟨turn, rfl⟩
      · rfl
      · exact hkeep turn ha
    simp only [hall, owed, weight_nil]
    omega
  | stop h hx =>
    have hno : owed τ tt x = 0 := by cases x <;> first | rfl | cases hx
    simp [hno]
  | _ => simp [owed, Act.hold]

/-! ## The invariant -/

/-- The slots are in balance, and everything that will take or give one is typed. -/
structure Slots (τ : String → String) (o : Orchestrator) : Prop where
  balance : ∀ tt, o.shared.dispatcher.inFlight tt = heldOf τ tt (held o.trace) + total (owed τ tt) o.pool
  queued : o.shared.dispatcher.AllQueued (Queued τ)
  typed : Everywhere (Instr.Typed τ) o.pool

theorem Slots.start (store : BrokerStore) (n : Nat) : Slots τ (.start store n) where
  balance _ := rfl
  queued := Dispatcher.allQueued_new n
  typed := fun _ h => by cases h

/-- What comes in owes nothing and offers nothing. -/
theorem Instr.isEntry_slots {x : Instr} (h : x.isEntry = true) : x.Typed τ ∧ ∀ tt, owed τ tt x = 0 := by
  cases x <;> first | exact ⟨trivial, fun _ => rfl⟩ | cases h

/-- **Every move whose acts fit keeps the balance.** -/
theorem Slots.move {o : Orchestrator} {m : OMove} (ho : Slots τ o) (hc : SlotsFit cfg τ o m) :
    Slots τ (orchestrate cfg o m) := by
  refine move_invariant ho (fun x hx => ?_) fun o' k env x rest he => ?_
  · obtain ⟨ht, hw⟩ := Instr.isEntry_slots (τ := τ) hx
    refine ⟨fun tt => ?_, ho.queued, fun stack hs y hy => ?_⟩
    · simpa [hw] using ho.balance tt
    · rcases List.mem_append.mp hs with hs | hs
      · exact ho.typed stack hs y hy
      · rw [List.mem_singleton.mp hs] at hy
        rw [List.mem_singleton.mp hy]
        exact ht
  · have hstep := exec_step cfg env o.shared x
    have hx := he.of_everywhere ho.typed
    have hf : ∀ a ∈ (execWith cfg env o.shared x).acts, a.fits τ (held o.trace) = true := he.acts ▸ hc
    obtain ⟨hq, hn⟩ := hstep.typed ho.queued hx hf
    refine ⟨fun tt => ?_, by rw [he.shared]; exact hq, he.everywhere ho.typed hn⟩
    have hbal := he.total (owed τ tt)
    have htop := he.le_total (owed τ tt)
    have hold := ho.balance tt
    have hslots := hstep.slots ho.queued hx hf tt (by omega)
    rw [he.shared, he.trace]
    unfold execWith at *
    omega

/-- **Slots are conserved**: the turns of a type in flight are those that hold a slot, and those whose handler is about
to give it back. -/
theorem slots_conserved {store : BrokerStore} {n : Nat} {moves : List OMove}
    (hm : Meets (orchestrate cfg) (SlotsFit cfg τ) (.start store n) moves) (tt : String) :
    let o := run (orchestrate cfg) (.start store n) moves
    o.shared.dispatcher.inFlight tt = heldOf τ tt (held o.trace) + total (owed τ tt) o.pool :=
  (run_invariant (Slots τ) (fun _ _ => Slots.move) (Slots.start store n) hm).balance tt

/-- Two tasks, with room for one turn: the second turn is published when the first one is done. -/
def twoTasks : List OMove :=
  firstTurn ++ handle (.call (.createTask "2" "chat" {} none 0 none)) 3 1 ++
    handle (.call (.op (.markTaskReady "task_2"))) 4 1 ++ handle (.executeTurn "task_2" "hi" none) 5 7 ++
    handle (.turnExecutionDone "task_1" 1 "done") 6 10

/-- The theorem at the two tasks. -/
theorem slots_conserved_twoTasks :
    let o := run (orchestrate {}) (.start empty 1) twoTasks
    o.shared.dispatcher.inFlight "chat" =
      heldOf (fun _ => "chat") "chat" (held o.trace) + total (owed (fun _ => "chat") "chat") o.pool :=
  slots_conserved (τ := fun _ => "chat") (by decide +kernel) "chat"

/-- A late report about the first turn gives back the slot of the second. -/
theorem late_report_frees_twice :
    let o := run (orchestrate {}) (.start empty 1)
      (twoTasks ++ handle (.turnExecutionError "task_1" 1 "application_error" "late") 7 9)
    total (owed (fun _ => "chat") "chat") o.pool = 0 ∧ heldOf (fun _ => "chat") "chat" (held o.trace) = 1 ∧
      o.shared.dispatcher.inFlight "chat" = 0 := by decide +kernel

end Fixus
