import Fixus.Lib.Run
import Fixus.Orchestrator.Steps

/-!
# Publications of closed turns

A turn is closed when its own terminal event or one of its task is in the log. Between the decision to offer a turn to
the agents and the publication it may wait in a queue or for a retry, and nobody looks at the log again.

- `isOpen`, `Grows.isOpen`: open turns, and which events close them;
- `AllOutstanding`: what holds of all turns that wait for their publication;
- `Step.outstanding`: which turns start to wait;
- `published_open`: only open turns are published, in every run in which a turn is queued or retried only while it is
  open and closed only while it does not wait;
- `canceled_then_published`: a turn that was canceled is published again.
-/

namespace Fixus

open Lib BrokerStore

variable {cfg : Config} {s : Shared} {x : Instr} {out : Out} {turn : TurnKey}

/-! ## Open turns -/

/-- An event of the type, with the tag, closes the turn. -/
def EventType.closes (et : EventType) (tag : Option Int) (turnId : Int) : Bool :=
  et.isTaskTerminal || (et.isTurnTerminal && tag = some turnId)

/-- The record closes the turn. -/
def Record.closes (r : Record) (turnId : Int) : Bool :=
  match EventType.fromStr r.eventType with
  | some et => et.closes r.turnId turnId
  | none => false

/-- Neither the turn nor its task has a terminal event. -/
def BrokerStore.isOpen (st : BrokerStore) (turn : TurnKey) : Bool := (st.log turn.1).all fun r => !r.closes turn.2

/-- The act writes nothing that closes the turn. -/
def Act.leavesOpen (turn : TurnKey) : Act → Bool
  | .wrote t et k => !(t = turn.1 && et.closes k turn.2)
  | _ => true

/-- A tag that says less closes less. -/
theorem EventType.closes_of_tag {et : EventType} {tag tag' : Option Int} {n : Int}
    (htag : et.isTurnTerminal = true → tag = some n → tag' = some n) (h : et.closes tag' n = false) :
    et.closes tag n = false := by
  unfold EventType.closes at *
  cases hterm : et.isTurnTerminal with
  | false => simpa [hterm] using h
  | true =>
    simp only [hterm, Bool.true_and, Bool.or_eq_false_iff, decide_eq_false_iff_not] at h ⊢
    exact ⟨h.1, fun he => h.2 (htag hterm he)⟩

/-- A turn stays open under events that do not close it. -/
theorem Grows.isOpen {written : List (String × EventType × Option Int)} {st st' : BrokerStore}
    (h : Grows written st st') (ho : st.isOpen turn = true)
    (hw : ∀ t et k, (t, et, k) ∈ written → (Act.wrote t et k).leavesOpen turn = true) : st'.isOpen turn = true := by
  obtain ⟨new, hl, hnew⟩ := h turn.1
  unfold BrokerStore.isOpen at *
  rw [hl, List.all_append, ho, Bool.true_and, List.all_eq_true]
  intro r hr
  cases het : EventType.fromStr r.eventType with
  | none => simp [Record.closes, het]
  | some et =>
    obtain ⟨k, hk, htag⟩ := hnew r hr et het
    have hleaves : et.closes k turn.2 = false := by simpa [Act.leavesOpen] using hw _ _ _ hk
    simpa [Record.closes, het] using EventType.closes_of_tag (fun ht he => htag ht _ he) hleaves

/-! ## Turns that wait for their publication -/

/-- The turn that an instruction is about to publish. -/
def publishes : Instr → Option TurnKey
  | .dispatchPopped turn => some turn.key
  | .redispatch d | .dispatchAttempt d _ => some d.key
  | _ => none

/-- Every queued turn has the property. -/
abbrev Dispatcher.AllPending (P : TurnKey → Prop) (d : Dispatcher) : Prop :=
  ∀ tt ∈ d.queues.keys, ∀ e ∈ ((d.queues.lookup tt).getD {}).pending, P e.turn.key

/-- Every turn that waits in a queue or is being offered has the property. -/
abbrev AllOutstanding (P : TurnKey → Prop) (o : Orchestrator) : Prop :=
  o.shared.dispatcher.AllPending P ∧ Everywhere (fun x => ∀ turn ∈ publishes x, P turn) o.pool

theorem Dispatcher.allPending_iff {P : TurnKey → Prop} {d : Dispatcher} :
    d.AllPending P ↔ d.AllQueued fun _ turn => P turn.key := by
  constructor
  · intro h tt q hq e he
    exact h tt (Finmap.mem_keys.mpr (Finmap.lookup_isSome.mp (by rw [hq]; rfl))) e (by rw [hq]; exact he)
  · intro h tt _ e he
    cases hq : d.queues.lookup tt with
    | none => rw [hq] at he; cases he
    | some q => exact h tt q hq e (by rw [hq] at he; exact he)

/-- The turns that an instruction starts to wait for were waiting already, or it reports them. -/
theorem Step.outstanding {P : TurnKey → Prop} (h : Step cfg s x out)
    (hq : s.dispatcher.AllQueued fun _ turn => P turn.key)
    (hx : ∀ turn ∈ publishes x, P turn)
    (hn : ∀ turn, (∃ tt, Act.enqueued turn tt ∈ out.acts) ∨ Act.retried turn ∈ out.acts → P turn) :
    (out.shared.dispatcher.AllQueued fun _ turn => P turn.key) ∧
      ∀ y ∈ out.next ++ out.spawned, ∀ turn ∈ publishes y, P turn := by
  cases h with
  | @enqueued t k i rg chan st turn h hk =>
    exact ⟨hq.enqueue (hk ▸ hn (t, k) (Or.inl ⟨turn.taskType, by simp⟩)), by simp [publishes]⟩
  | @redoEnqueued t r cached chan redo st turn h hk =>
    exact ⟨hq.enqueue (hk ▸ hn (t, r.turnId) (Or.inl ⟨turn.taskType, by simp⟩)), by simp [publishes]⟩
  | popped h =>
    obtain ⟨ht, hd⟩ := hq.tryPop h
    exact ⟨hd, by simp [publishes, ht, -Prod.forall]⟩
  | @timed turn times d hk hs => exact ⟨hq, by simpa [publishes, hk, -Prod.forall] using hx⟩
  | publishAgain h => exact ⟨hq, by simpa [publishes, -Prod.forall] using hx⟩
  | @retried t k et em i rg d hr hb hk hs =>
    exact ⟨hq, by simpa [publishes, hk, -Prod.forall] using hn (t, k) (Or.inr (by simp))⟩
  | redispatched h => exact ⟨hq, by simpa [publishes, Dispatch.key, -Prod.forall] using hx⟩
  | slotFreed => exact ⟨hq.onTurnTerminal, by simp⟩
  | released h => exact ⟨hq.onTurnTerminal, by simp [publishes]⟩
  | _ => exact ⟨hq, by simp [publishes, failTaskWithReason, failTurnAndRespond]⟩

/-- An instruction that starts to offer a turn writes nothing. -/
theorem Step.starts_writes (h : Step cfg s x out)
    (ha : (∃ tt, Act.enqueued turn tt ∈ out.acts) ∨ Act.retried turn ∈ out.acts) (t : String) (et : EventType)
    (k : Option Int) : Act.wrote t et k ∉ out.acts := by
  cases h with
  | called h =>
    rcases ha with ⟨tt, ha⟩ | ha
    · rcases mem_call_acts ha with ⟨t, et, k, he⟩ | ⟨turn', he⟩ <;> cases he
    · rcases mem_call_acts ha with ⟨t, et, k, he⟩ | ⟨turn', he⟩ <;> cases he
  | _ => simp at ha ⊢

/-- What is published was being offered. -/
theorem Step.published_publishes (h : Step cfg s x out) {retry : Bool} (hp : Act.published turn retry ∈ out.acts) :
    publishes x = some turn := by
  cases h with
  | @published d n st h =>
    obtain ⟨rfl, -⟩ := by simpa using hp
    rfl
  | called h =>
    rcases mem_call_acts hp with ⟨t, et, k, he⟩ | ⟨turn', he⟩ <;> cases he
  | _ => simp at hp

/-! ## Runs -/

/-- A turn is queued or retried only while it is open. -/
def Act.startsOpen (st : BrokerStore) : Act → Bool
  | .enqueued turn _ | .retried turn => st.isOpen turn
  | _ => true

/-- The move starts to offer open turns only, and closes no turn that waits for its publication. -/
abbrev OffersOpen (cfg : Config) (o : Orchestrator) (m : OMove) : Prop :=
  ∀ a ∈ actsOf cfg o m, a.startsOpen o.shared.store = true ∧ AllOutstanding (fun turn => a.leavesOpen turn = true) o

/-- All turns that wait for their publication are open. -/
abbrev WaitingOpen (o : Orchestrator) : Prop := AllOutstanding (fun turn => o.shared.store.isOpen turn = true) o

theorem WaitingOpen.start (store : BrokerStore) (n : Nat) : WaitingOpen (.start store n) :=
  ⟨Dispatcher.allPending_iff.mpr (Dispatcher.allQueued_new n), fun _ h => by cases h⟩

/-- **Every such move keeps the waiting turns open.** -/
theorem WaitingOpen.move {o : Orchestrator} {m : OMove} (ho : WaitingOpen o) (hc : OffersOpen cfg o m) :
    WaitingOpen (orchestrate cfg o m) := by
  refine move_invariant ho (fun x hx => ⟨ho.1, fun stack hs y hy => ?_⟩) fun o' k env x rest he => ?_
  · rcases List.mem_append.mp hs with hs | hs
    · exact ho.2 stack hs y hy
    · rw [List.mem_singleton.mp hs] at hy
      have hnone : publishes x = none := by cases x <;> first | rfl | cases hx
      rw [List.mem_singleton.mp hy, hnone]
      exact nofun
  · have hstep := exec_step cfg env o.shared x
    have hf : ∀ a ∈ (o.shared.exec cfg env x).acts, a.startsOpen o.shared.store = true ∧
        AllOutstanding (fun turn => a.leavesOpen turn = true) o := he.acts ▸ hc
    -- what waited is not closed by the move, and what starts to wait is open and the move closes nothing
    obtain ⟨written, hg, hw⟩ := hstep.grows
    have hold : ∀ turn, o.shared.store.isOpen turn = true → (∀ t et k, (t, et, k) ∈ written →
        (Act.wrote t et k).leavesOpen turn = true) → o'.shared.store.isOpen turn = true :=
      fun turn h₁ h₂ => by rw [he.shared]; exact hg.isOpen h₁ h₂
    have hqueued : o.shared.dispatcher.AllQueued fun _ turn => o'.shared.store.isOpen turn.key = true :=
      (Dispatcher.allPending_iff (P := fun turn => o'.shared.store.isOpen turn = true)).mp fun tt htt e he' =>
        hold _ (ho.1 tt htt e he') fun t et k hm => (hf _ (hw t et k hm)).2.1 tt htt e he'
    have hpool : Everywhere (fun y => ∀ turn ∈ publishes y, o'.shared.store.isOpen turn = true) o.pool :=
      fun stack hs y hy turn ht =>
        hold _ (ho.2 stack hs y hy turn ht) fun t et k hm => (hf _ (hw t et k hm)).2.2 stack hs y hy turn ht
    obtain ⟨hq, hn⟩ := hstep.outstanding (P := fun turn => o'.shared.store.isOpen turn = true) hqueued
      (he.of_everywhere hpool) fun turn ha => hold turn (ha.elim (fun ⟨_, h⟩ => (hf _ h).1) fun h => (hf _ h).1)
        fun t et k hm => absurd (hw t et k hm) (hstep.starts_writes ha t et k)
    have hd : o'.shared.dispatcher = (o.shared.exec cfg env x).shared.dispatcher := congrArg Shared.dispatcher he.shared
    exact ⟨Dispatcher.allPending_iff.mpr (hd ▸ hq), he.everywhere hpool hn⟩

/-- **Only open turns are published**, in every run in which turns are offered while they are open and not closed while
they wait. -/
theorem published_open {store : BrokerStore} {n : Nat} {moves : List OMove}
    (hm : Meets (orchestrate cfg) (OffersOpen cfg) (.start store n) moves) :
    Along (orchestrate cfg) (fun o m _ => ∀ turn retry, Act.published turn retry ∈ actsOf cfg o m →
      o.shared.store.isOpen turn = true) (.start store n) moves := by
  refine along_of_invariant WaitingOpen (fun _ _ => WaitingOpen.move) (fun o m ho _ turn retry hp => ?_)
    (WaitingOpen.start store n) hm
  obtain ⟨k, env, x, rest, he, hp⟩ : ∃ k env x rest, Executes (execWith cfg) o m (orchestrate cfg o m) k env x rest ∧
      Act.published turn retry ∈ (execWith cfg env o.shared x).acts := mem_acts hp
  have hx := (exec_step cfg env o.shared x).published_publishes hp
  exact he.of_everywhere ho.2 turn (Option.mem_def.mpr hx)

/-- The theorem at a turn that crashes, is published again and is then done. -/
theorem published_open_crash :
    Along (orchestrate {}) (fun o m _ => ∀ turn retry, Act.published turn retry ∈ actsOf {} o m →
      o.shared.store.isOpen turn = true) (.start empty 1)
      (firstTurn ++ handle (.turnExecutionError "task_1" 1 "agent_process_exited" "boom") 3 4 ++
        handle (.turnExecutionDone "task_1" 1 "done") 4 6) :=
  published_open (by decide +kernel)

/-- A turn that was canceled is published again when its crash is reported. -/
theorem canceled_then_published :
    let o := run (orchestrate {}) (.start empty 1)
      (firstTurn ++ handle (.call (.op (.cancelTurn "task_1" 1 "no longer needed"))) 3 1 ++
        handle (.turnExecutionError "task_1" 1 "agent_process_exited" "boom") 4 3)
    Act.published ("task_1", 1) true ∈ actsOf {} o (.exec 4 {}) ∧ o.shared.store.isOpen ("task_1", 1) = false := by
  decide +kernel

end Fixus
