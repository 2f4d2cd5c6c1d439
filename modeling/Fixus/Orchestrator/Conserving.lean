import Fixus.Orchestrator.Steps

/-!
# No slot stays free

A handler that gives a slot back, or puts a turn in a queue, runs the loop over the queue afterwards. Handlers take
turns at any point, so between the two a turn can wait while a slot is free; but then the loop is still to come.

- `Idle`: of a type no turn waits, or no slot is free;
- `Backed`: below an instruction that may give a slot back stands the loop over the queue of its type;
- `Step.serves`, `Step.backed`: what one instruction does to them;
- `work_conserving`: at any time a type is idle, or its loop is still to come.
-/

namespace Fixus

open Lib BrokerStore

/-! ## Idle types -/

namespace Dispatcher

/-- How many turns of a type wait. -/
def pendingCount (d : Dispatcher) (taskType : String) : Nat :=
  ((d.queues.lookup taskType).map fun q => q.pending.length).getD 0

/-- No turn of the type waits, or no slot is free for it. -/
def Idle (d : Dispatcher) (taskType : String) : Prop :=
  d.pendingCount taskType = 0 ∨ d.maxConcurrent ≤ d.inFlight taskType

variable {d d' : Dispatcher} {taskType tt : String} {turn : QueuedTurn}

/-- There is a first entry as soon as there is any. -/
theorem popFirst_isSome {es : List PriEntry} (h : es ≠ []) : ∃ r, PriEntry.popFirst es = some r := by
  cases es with
  | nil => exact absurd rfl h
  | cons e es =>
    unfold PriEntry.popFirst
    cases PriEntry.popFirst es with
    | none => exact ⟨_, rfl⟩
    | some r =>
      dsimp only
      split <;> exact ⟨_, rfl⟩

/-- Nothing can be popped only of an idle type. -/
theorem idle_of_tryPop (h : d.tryPop taskType = none) : d.Idle taskType := by
  unfold tryPop at h
  unfold Idle pendingCount inFlight
  cases hq : d.queues.lookup taskType with
  | none => exact Or.inl rfl
  | some q =>
    simp only [hq] at h
    by_cases hfull : q.inFlight ≥ d.maxConcurrent
    · exact Or.inr hfull
    · rw [if_neg hfull] at h
      by_cases hempty : q.pending = []
      · left
        simp [hempty]
      · obtain ⟨r, hr⟩ := popFirst_isSome hempty
        rw [hr] at h
        cases h

/-- Only its own queue decides whether a type is idle. -/
theorem Idle.congr (h : d.Idle tt) (hq : d'.queues.lookup tt = d.queues.lookup tt)
    (hmax : d'.maxConcurrent = d.maxConcurrent) : d'.Idle tt := by
  unfold Idle pendingCount inFlight at *
  rw [hq, hmax]
  exact h

theorem Idle.enqueue (h : d.Idle tt) (hne : tt ≠ turn.taskType) : (d.enqueue turn).Idle tt :=
  h.congr (Finmap.lookup_insert_of_ne _ hne) rfl

theorem Idle.onTurnTerminal (h : d.Idle tt) (hne : tt ≠ taskType) : (d.onTurnTerminal taskType).Idle tt := by
  unfold Dispatcher.onTurnTerminal
  cases hq : d.queues.lookup taskType with
  | none => exact h
  | some q => exact h.congr (Finmap.lookup_insert_of_ne _ hne) rfl

theorem Idle.tryPop (h : d.Idle tt) (hpop : d.tryPop taskType = some (turn, d')) (hne : tt ≠ taskType) :
    d'.Idle tt := by
  unfold Dispatcher.tryPop at hpop
  cases hq : d.queues.lookup taskType with
  | none => simp [hq] at hpop
  | some q =>
    simp only [hq] at hpop
    split at hpop
    · cases hpop
    · cases hp : PriEntry.popFirst q.pending with
      | none => simp [hp] at hpop
      | some r =>
        simp only [hp, Option.some.injEq, Prod.mk.injEq] at hpop
        obtain ⟨-, rfl⟩ := hpop
        exact h.congr (Finmap.lookup_insert_of_ne _ hne) rfl

end Dispatcher

/-! ## The loop below -/

/-- The type of which the instruction, or what it leads to, may give a slot back and leave the queue to others. -/
def Instr.letsGo : Instr → Option String
  | .onTurnTerminal tt => some tt
  | .dispatchPopped turn => some turn.taskType
  | .redispatch d | .dispatchAttempt d _ => d.slot
  | _ => none

/-- Below each such instruction stands the loop over the queue of the type. -/
def Backed : List Instr → Prop
  | [] => True
  | x :: rest => (∀ tt, x.letsGo = some tt → .dispatchPending tt ∈ rest) ∧ Backed rest

/-- A queued turn has the type of its queue. -/
abbrev OwnType : String → QueuedTurn → Prop := fun tt turn => turn.taskType = tt

variable {cfg : Config} {s : Shared} {x : Instr} {out : Out} {rest : List Instr}

/-- Instructions that let nothing go need nothing below. -/
theorem Backed.append {next : List Instr} (h : Backed rest) (hn : ∀ x ∈ next, x.letsGo = none) :
    Backed (next ++ rest) := by
  induction next with
  | nil => exact h
  | cons x next ih =>
    refine ⟨fun tt hx => ?_, ih fun y hy => hn y (List.mem_cons_of_mem _ hy)⟩
    rw [hn x List.mem_cons_self] at hx
    cases hx

theorem backed_singleton {x : Instr} (h : x.letsGo = none) : Backed [x] :=
  ⟨fun tt hx => (by rw [h] at hx; cases hx), trivial⟩

/-- What comes in lets nothing go. -/
theorem Instr.isEntry_letsGo {x : Instr} (h : x.isEntry = true) : x.letsGo = none := by
  cases x <;> first | rfl | cases h

theorem failTask_letsGo (t : String) (k : Int) (reason : FailureReason) (et em : String) :
    ∀ x ∈ failTaskWithReason t k reason et em, x.letsGo = none := by
  simp [failTaskWithReason, Instr.letsGo]

/-- **What comes instead of an instruction is backed as well.** -/
theorem Step.backed (h : Step cfg s x out) (hq : s.dispatcher.AllQueued OwnType) (hb : Backed (x :: rest)) :
    Backed (out.next ++ rest) ∧ (∀ y ∈ out.spawned, y.letsGo = none) ∧ out.shared.dispatcher.AllQueued OwnType := by
  obtain ⟨hx, hrest⟩ := hb
  cases h with
  | @popped tt turn d h =>
    obtain ⟨hown, hd⟩ := hq.tryPop h
    refine ⟨⟨fun tt' htt => ?_, ?_, hrest⟩, by simp, hd⟩
    · -- the turn that was popped is of the type of the loop, which comes next
      simp only [Instr.letsGo, Option.some.injEq] at htt
      rw [← htt, hown]
      exact List.mem_cons_self
    · simp [Instr.letsGo]
  | @timed turn times d hk hs =>
    exact ⟨⟨fun tt htt => hx tt (by simpa [Instr.letsGo, hs] using htt), hrest⟩, by simp, hq⟩
  | publishAgain h => exact ⟨⟨hx, hrest⟩, by simp, hq⟩
  | @popFailed d n st tt em h hs =>
    have hloop : Instr.dispatchPending tt ∈ rest := hx tt hs
    refine ⟨⟨fun tt' htt => ?_, hrest.append (failTask_letsGo _ _ _ _ _)⟩, by simp, hq⟩
    simp only [Instr.letsGo, Option.some.injEq] at htt
    rw [← htt]
    exact List.mem_append_right _ hloop
  | @retried t k et em i rg d hr hb hk hs => exact ⟨⟨by simp [Instr.letsGo, hs], hrest⟩, by simp, hq⟩
  | redispatched h => exact ⟨⟨hx, hrest⟩, by simp, hq⟩
  | enqueued h hk => exact ⟨hrest.append (by simp [Instr.letsGo]), by simp, hq.enqueue rfl⟩
  | redoEnqueued h hk => exact ⟨hrest.append (by simp [Instr.letsGo]), by simp, hq.enqueue rfl⟩
  | slotFreed => exact ⟨hrest, by simp, hq.onTurnTerminal⟩
  | released h => exact ⟨hrest.append (by simp [Instr.letsGo]), by simp, hq.onTurnTerminal⟩
  | _ =>
    exact ⟨hrest.append (by simp [Instr.letsGo, failTaskWithReason, failTurnAndRespond]), by simp [Instr.letsGo], hq⟩

/-- **An instruction other than the loop leaves an idle type idle**, or brings the loop in, or stands above it. -/
theorem Step.serves (h : Step cfg s x out) {tt : String} (hx : x ≠ .dispatchPending tt) (hidle : s.dispatcher.Idle tt) :
    out.shared.dispatcher.Idle tt ∨ .dispatchPending tt ∈ out.next ∨ x.letsGo = some tt := by
  cases h with
  | @enqueued t k i rg chan st turn h hk =>
    by_cases htt : tt = turn.taskType
    · subst htt
      exact Or.inr (Or.inl List.mem_cons_self)
    · exact Or.inl (hidle.enqueue htt)
  | @redoEnqueued t r cached chan redo st turn h hk =>
    by_cases htt : tt = turn.taskType
    · subst htt
      exact Or.inr (Or.inl List.mem_cons_self)
    · exact Or.inl (hidle.enqueue htt)
  | @popped tt' turn d h => exact Or.inl (hidle.tryPop h fun htt => hx (htt ▸ rfl))
  | @slotFreed tt' =>
    by_cases htt : tt = tt'
    · exact Or.inr (Or.inr (htt ▸ rfl))
    · exact Or.inl (hidle.onTurnTerminal htt)
  | @released t tt' st h =>
    by_cases htt : tt = tt'
    · exact Or.inr (Or.inl (by simp [htt]))
    · exact Or.inl (hidle.onTurnTerminal htt)
  | _ => exact Or.inl hidle

/-! ## Runs -/

/-- The loop over the queue of a type is still to come. -/
def LoopPending (o : Orchestrator) (tt : String) : Prop := ∃ stack ∈ o.pool, .dispatchPending tt ∈ stack

/-- A type is idle, or its loop is still to come. -/
structure Conserving (o : Orchestrator) : Prop where
  served : ∀ tt, o.shared.dispatcher.Idle tt ∨ LoopPending o tt
  queued : o.shared.dispatcher.AllQueued OwnType
  backed : ∀ stack ∈ o.pool, Backed stack

theorem Conserving.start (store : BrokerStore) (n : Nat) : Conserving (.start store n) where
  served _ := Or.inl (Or.inl rfl)
  queued := Dispatcher.allQueued_new n
  backed := fun _ h => by cases h

/-- The loop finds the type idle, or pops a turn and goes on. -/
theorem dispatchPending_serves (cfg : Config) (env : Env) (s : Shared) (tt : String) :
    (s.exec cfg env (.dispatchPending tt)).shared.dispatcher.Idle tt ∨
      .dispatchPending tt ∈ (s.exec cfg env (.dispatchPending tt)).next := by
  show (s.dispatchPending tt).shared.dispatcher.Idle tt ∨ _ ∈ (s.dispatchPending tt).next
  unfold Shared.dispatchPending
  cases hpop : s.dispatcher.tryPop tt with
  | none => exact Or.inl (Dispatcher.idle_of_tryPop hpop)
  | some r => exact Or.inr (by simp)

/-- **A move leaves no slot free for a turn that waits**, unless the loop is still to come. -/
theorem Conserving.move {o : Orchestrator} (ho : Conserving o) (m : OMove) : Conserving (orchestrate cfg o m) := by
  refine move_invariant ho (fun x hx => ?_) fun o' k env x rest he => ?_
  · refine ⟨fun tt => (ho.served tt).imp id ?_, ho.queued, fun stack hs => ?_⟩
    · rintro ⟨stack, hs, hy⟩
      exact ⟨stack, List.mem_append_left _ hs, hy⟩
    · rcases List.mem_append.mp hs with hs | hs
      · exact ho.backed stack hs
      · rw [List.mem_singleton.mp hs]
        exact backed_singleton (Instr.isEntry_letsGo hx)
  · have hstep := exec_step cfg env o.shared x
    have htop := List.mem_of_getElem? he.top
    obtain ⟨hnext, hspawned, hq⟩ := hstep.backed ho.queued (ho.backed _ htop)
    refine ⟨fun tt => ?_, by rw [he.shared]; exact hq, fun stack hs => ?_⟩
    · rw [he.shared]
      by_cases hx : x = .dispatchPending tt
      · subst hx
        exact (dispatchPending_serves cfg env o.shared tt).imp id he.comes
      · rcases ho.served tt with hidle | ⟨stack, hs, hy⟩
        · rcases hstep.serves hx hidle with h | h | h
          · exact Or.inl h
          · exact Or.inr (he.comes h)
          · -- the loop stands below
            have hloop := (ho.backed _ htop).1 tt h
            exact Or.inr (he.stays htop (List.mem_cons_of_mem _ hloop) (Ne.symm hx))
        · exact Or.inr (he.stays hs hy (Ne.symm hx))
    · rw [he.pool] at hs
      rcases List.mem_append.mp hs with hs | hs
      · rcases List.mem_or_eq_of_mem_set hs with hs | rfl
        · exact ho.backed stack hs
        · exact hnext
      · obtain ⟨y, hy, rfl⟩ := List.mem_map.mp hs
        exact backed_singleton (hspawned y hy)

/-- **The scheduler is work-conserving**: at any time of any run, of each type no turn waits, or all slots are taken, or
a handler is still to fill them. -/
theorem work_conserving (cfg : Config) (store : BrokerStore) (n : Nat) (moves : List OMove) (tt : String) :
    let o := run (orchestrate cfg) (.start store n) moves
    o.shared.dispatcher.pendingCount tt = 0 ∨ o.shared.dispatcher.maxConcurrent ≤ o.shared.dispatcher.inFlight tt ∨
      ∃ stack ∈ o.pool, Instr.dispatchPending tt ∈ stack := by
  intro o
  have ho : Conserving o := run_invariant (C := fun _ _ => True) Conserving (fun _ m h _ => h.move m)
    (Conserving.start store n) meets_true
  rcases ho.served tt with (h | h) | h
  · exact Or.inl h
  · exact Or.inr (Or.inl h)
  · exact Or.inr (Or.inr h)

end Fixus
