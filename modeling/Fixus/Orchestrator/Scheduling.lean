import Fixus.Data.Models
import Fixus.Lib.Table

/-!
# Dispatcher, retry budget and registry

The parts of the orchestrator that do no I/O: the priority queues with their capacity gate, the retry decision, and
the table of the turns somebody waits for.

- `AllQueued`, with one lemma for each operation: what holds of every queued turn;
- `pendingOf_enqueue`, `pendingOf_tryPop`, `pendingOf_onTurnTerminal`: how often a turn is queued;
- `inFlight_enqueue`, `inFlight_tryPop`, `inFlight_onTurnTerminal`: who changes the slot counts;
- `decide_retry`: a retry is within the budget.

The time of entry of a queued turn feeds a metric only and is left out.
-/

namespace Fixus

/-- A turn of a task. -/
abbrev TurnKey := String × Int

/-! ## The dispatcher -/

/-- A turn that waits for a slot. -/
structure QueuedTurn where
  taskType : String
  taskId : String
  turnId : Int
  userInput : String
  redoGroup : String
  redoCount : Int
  cachedLlm : List String
  priority : Int

def QueuedTurn.key (t : QueuedTurn) : TurnKey := (t.taskId, t.turnId)

/-- An entry of a priority queue. -/
structure PriEntry where
  priority : Int
  seq : Nat
  turn : QueuedTurn

namespace PriEntry

/-- The larger priority goes first, and the earlier entry among equals. -/
def before (a b : PriEntry) : Bool := b.priority < a.priority || (a.priority = b.priority && a.seq < b.seq)

/-- Take the first entry out. -/
def popFirst : List PriEntry → Option (PriEntry × List PriEntry)
  | [] => none
  | e :: es =>
    match popFirst es with
    | none => some (e, [])
    | some (m, rest) => if e.before m then some (e, es) else some (m, e :: rest)

/-- What is taken and what stays are what was there. -/
theorem popFirst_perm {es rest : List PriEntry} {m : PriEntry} (h : popFirst es = some (m, rest)) :
    es.Perm (m :: rest) := by
  induction es generalizing m rest with
  | nil => cases h
  | cons e es ih =>
    unfold popFirst at h
    cases hes : popFirst es with
    | none =>
      rw [hes] at h
      cases Option.some.inj h
      cases es with
      | nil => exact List.Perm.refl _
      | cons e' es' =>
        unfold popFirst at hes
        cases hes' : popFirst es' with
        | none => simp [hes'] at hes
        | some r =>
          simp only [hes'] at hes
          split at hes <;> cases hes
    | some r =>
      obtain ⟨m', rest'⟩ := r
      simp only [hes] at h
      split at h
      · cases Option.some.inj h
        exact List.Perm.refl _
      · cases Option.some.inj h
        exact ((ih hes).cons e).trans (List.Perm.swap _ _ _)

end PriEntry

/-- The queue of a task type. -/
structure TypeQueue where
  pending : List PriEntry := []
  inFlight : Nat := 0

/-- The queues, and how many turns of one type may be in flight. -/
structure Dispatcher where
  queues : Finmap fun _ : String => TypeQueue := ∅
  maxConcurrent : Nat
  nextSeq : Nat := 0

namespace Dispatcher

def new (maxConcurrent : Nat) : Dispatcher := { maxConcurrent := max maxConcurrent 1 }

/-- Put a turn in the queue of its type. -/
def enqueue (d : Dispatcher) (turn : QueuedTurn) : Dispatcher :=
  let q := (d.queues.lookup turn.taskType).getD {}
  { d with
    nextSeq := (d.nextSeq + 1) % 2 ^ 64
    queues := d.queues.insert turn.taskType
      { q with pending := { priority := turn.priority, seq := d.nextSeq, turn } :: q.pending } }

/-- Take the first turn of a type, if there is a slot for it. -/
def tryPop (d : Dispatcher) (taskType : String) : Option (QueuedTurn × Dispatcher) :=
  match d.queues.lookup taskType with
  | none => none
  | some q =>
    if q.inFlight ≥ d.maxConcurrent then none
    else match PriEntry.popFirst q.pending with
      | none => none
      | some (e, rest) =>
        some (e.turn, { d with queues := d.queues.insert taskType { pending := rest, inFlight := q.inFlight + 1 } })

/-- Give a slot back; nothing happens when none is taken. -/
def onTurnTerminal (d : Dispatcher) (taskType : String) : Dispatcher :=
  match d.queues.lookup taskType with
  | none => d
  | some q => { d with queues := d.queues.insert taskType { q with inFlight := q.inFlight - 1 } }

/-- The slots of a type that are taken. -/
def inFlight (d : Dispatcher) (taskType : String) : Nat :=
  ((d.queues.lookup taskType).map TypeQueue.inFlight).getD 0

@[simp] theorem inFlight_enqueue (d : Dispatcher) (turn : QueuedTurn) (tt : String) :
    (d.enqueue turn).inFlight tt = d.inFlight tt := by
  unfold inFlight enqueue
  by_cases h : tt = turn.taskType
  · subst h
    cases hq : d.queues.lookup turn.taskType <;> simp [Finmap.lookup_insert]
  · simp only [Finmap.lookup_insert_of_ne _ h]

/-- A pop takes one slot of its type. -/
theorem inFlight_tryPop {d d' : Dispatcher} {taskType : String} {turn : QueuedTurn}
    (h : d.tryPop taskType = some (turn, d')) (tt : String) :
    d'.inFlight tt = d.inFlight tt + if tt = taskType then 1 else 0 := by
  unfold tryPop at h
  cases hq : d.queues.lookup taskType with
  | none => simp [hq] at h
  | some q =>
    simp only [hq] at h
    split at h
    · cases h
    · cases hp : PriEntry.popFirst q.pending with
      | none => simp [hp] at h
      | some r =>
        simp only [hp, Option.some.injEq, Prod.mk.injEq] at h
        obtain ⟨-, rfl⟩ := h
        unfold inFlight
        by_cases htt : tt = taskType
        · subst htt
          simp [hq, Finmap.lookup_insert]
        · simp [Finmap.lookup_insert_of_ne _ htt, htt]

/-- A release gives one slot of its type back. -/
theorem inFlight_onTurnTerminal (d : Dispatcher) (taskType tt : String) :
    (d.onTurnTerminal taskType).inFlight tt = d.inFlight tt - if tt = taskType then 1 else 0 := by
  unfold onTurnTerminal
  by_cases htt : tt = taskType
  · subst htt
    cases hq : d.queues.lookup tt <;> simp [inFlight, hq, Finmap.lookup_insert]
  · cases hq : d.queues.lookup taskType <;> simp [inFlight, Finmap.lookup_insert_of_ne _ htt, htt]

/-- Every queued turn has the property, with the type of its queue. -/
def AllQueued (P : String → QueuedTurn → Prop) (d : Dispatcher) : Prop :=
  ∀ tt q, d.queues.lookup tt = some q → ∀ e ∈ q.pending, P tt e.turn

variable {P : String → QueuedTurn → Prop} {d d' : Dispatcher} {turn : QueuedTurn} {taskType : String}

theorem allQueued_new (n : Nat) : AllQueued P (new n) := by
  intro tt q hq
  simp [new] at hq

theorem AllQueued.mono {P' : String → QueuedTurn → Prop} (h : AllQueued P d) (hP : ∀ tt t, P tt t → P' tt t) :
    AllQueued P' d := fun tt q hq e he => hP tt e.turn (h tt q hq e he)

theorem AllQueued.enqueue (h : AllQueued P d) (ht : P turn.taskType turn) : AllQueued P (d.enqueue turn) := by
  intro tt q hq e he
  unfold Dispatcher.enqueue at hq
  by_cases htt : tt = turn.taskType
  · subst htt
    simp only [Finmap.lookup_insert, Option.some.injEq] at hq
    subst hq
    rcases List.mem_cons.mp he with rfl | he
    · exact ht
    · cases hl : d.queues.lookup turn.taskType with
      | none => simp [hl] at he
      | some q' => exact h _ q' hl e (by simpa [hl] using he)
  · simp only [Finmap.lookup_insert_of_ne _ htt] at hq
    exact h tt q hq e he

/-- The popped turn had the property, and the others keep it. -/
theorem AllQueued.tryPop (h : AllQueued P d) (hpop : d.tryPop taskType = some (turn, d')) :
    P taskType turn ∧ AllQueued P d' := by
  unfold Dispatcher.tryPop at hpop
  cases hq : d.queues.lookup taskType with
  | none => simp [hq] at hpop
  | some q =>
    simp only [hq] at hpop
    split at hpop
    · cases hpop
    · cases hp : PriEntry.popFirst q.pending with
      | none => simp [hp] at hpop
      | some r =>
        obtain ⟨m, rest⟩ := r
        have hperm := PriEntry.popFirst_perm hp
        simp only [hp, Option.some.injEq, Prod.mk.injEq] at hpop
        obtain ⟨rfl, rfl⟩ := hpop
        refine ⟨h _ q hq m (hperm.mem_iff.mpr List.mem_cons_self), fun tt q' hq' e he => ?_⟩
        by_cases htt : tt = taskType
        · subst htt
          simp only [Finmap.lookup_insert, Option.some.injEq] at hq'
          subst hq'
          exact h _ q hq e (hperm.mem_iff.mpr (List.mem_cons_of_mem _ he))
        · simp only [Finmap.lookup_insert_of_ne _ htt] at hq'
          exact h tt q' hq' e he

theorem AllQueued.onTurnTerminal (h : AllQueued P d) : AllQueued P (d.onTurnTerminal taskType) := by
  unfold Dispatcher.onTurnTerminal
  cases hq : d.queues.lookup taskType with
  | none => exact h
  | some q =>
    intro tt q' hq' e he
    by_cases htt : tt = taskType
    · subst htt
      simp only [Finmap.lookup_insert, Option.some.injEq] at hq'
      subst hq'
      exact h _ q hq e he
    · simp only [Finmap.lookup_insert_of_ne _ htt] at hq'
      exact h tt q' hq' e he

/-- How often a turn is queued. -/
def pendingOf (d : Dispatcher) (turn : TurnKey) : Nat :=
  Lib.sumValues (fun q : TypeQueue => q.pending.countP fun e => e.turn.key = turn) {} d.queues

/-- A turn that is queued no time is none of the queued turns. -/
theorem allQueued_of_pendingOf {d : Dispatcher} {key : TurnKey} (h : d.pendingOf key = 0) :
    d.AllQueued fun _ turn => turn.key ≠ key := by
  intro tt q hq e he hk
  have hle := Lib.le_sumValues (g := fun q : TypeQueue => q.pending.countP fun e => e.turn.key = key) (d := {}) hq
  have hpos : 0 < q.pending.countP fun e => e.turn.key = key := List.countP_pos_iff.mpr ⟨e, he, decide_eq_true hk⟩
  unfold pendingOf at h
  omega

theorem pendingOf_enqueue (d : Dispatcher) (turn : QueuedTurn) (key : TurnKey) :
    (d.enqueue turn).pendingOf key = d.pendingOf key + if turn.key = key then 1 else 0 := by
  have hs := Lib.sumValues_insert (g := fun q : TypeQueue => q.pending.countP fun e => e.turn.key = key) (d := {})
    (m := d.queues) (a := turn.taskType)
    (b := { (d.queues.lookup turn.taskType).getD {} with
      pending := { priority := turn.priority, seq := d.nextSeq, turn } ::
        ((d.queues.lookup turn.taskType).getD {}).pending }) rfl
  simp only [List.countP_cons, decide_eq_true_eq] at hs
  unfold pendingOf enqueue
  dsimp only
  omega

/-- A popped turn is queued once less. -/
theorem pendingOf_tryPop {d d' : Dispatcher} {taskType : String} {turn : QueuedTurn}
    (h : d.tryPop taskType = some (turn, d')) (key : TurnKey) :
    d'.pendingOf key + (if turn.key = key then 1 else 0) = d.pendingOf key := by
  unfold tryPop at h
  cases hq : d.queues.lookup taskType with
  | none => simp [hq] at h
  | some q =>
    simp only [hq] at h
    split at h
    · cases h
    · cases hp : PriEntry.popFirst q.pending with
      | none => simp [hp] at h
      | some r =>
        obtain ⟨m, rest⟩ := r
        simp only [hp, Option.some.injEq, Prod.mk.injEq] at h
        obtain ⟨rfl, rfl⟩ := h
        have hs := Lib.sumValues_insert (g := fun q : TypeQueue => q.pending.countP fun e => e.turn.key = key) (d := {})
          (m := d.queues) (a := taskType) (b := { pending := rest, inFlight := q.inFlight + 1 }) rfl
        have hc := (PriEntry.popFirst_perm hp).countP_eq fun e => decide (e.turn.key = key)
        simp only [List.countP_cons, decide_eq_true_eq] at hc
        rw [hq, Option.getD_some] at hs
        unfold pendingOf
        dsimp only at hs ⊢
        omega

theorem pendingOf_onTurnTerminal (d : Dispatcher) (taskType : String) (key : TurnKey) :
    (d.onTurnTerminal taskType).pendingOf key = d.pendingOf key := by
  unfold onTurnTerminal
  cases hq : d.queues.lookup taskType with
  | none => rfl
  | some q =>
    have hs := Lib.sumValues_insert (g := fun q : TypeQueue => q.pending.countP fun e => e.turn.key = key) (d := {})
      (m := d.queues) (a := taskType) (b := { q with inFlight := q.inFlight - 1 }) rfl
    rw [hq, Option.getD_some] at hs
    unfold pendingOf
    dsimp only at hs ⊢
    omega

end Dispatcher

/-! ## The retry budget -/

/-- How often a turn may be retried, not counting its first run. -/
structure RetryPolicy where
  maxAttempts : Int := 2

inductive RetryDecision where
  | retry (reason : FailureReason) (nextRedoCount : Int)
  | fail (reason : FailureReason) (budgetExhausted : Bool)

/-- Retry what is worth it as long as the budget lasts. -/
def RetryPolicy.decide (p : RetryPolicy) (reason : FailureReason) (currentRedoCount : Int) : RetryDecision :=
  if reason.isRetryable ∧ currentRedoCount < p.maxAttempts then .retry reason (currentRedoCount + 1)
  else .fail reason reason.isRetryable

/-- A retry is within the budget. -/
theorem RetryPolicy.decide_retry {p : RetryPolicy} {reason r : FailureReason} {current next : Int}
    (h : p.decide reason current = .retry r next) : current < p.maxAttempts ∧ next = current + 1 := by
  unfold decide at h
  split at h
  · rename_i hr
    injection h with _ hn
    exact ⟨hr.2, hn.symm⟩
  · cases h

/-- Only a failure that is worth it is retried. -/
theorem RetryPolicy.decide_retryable {p : RetryPolicy} {reason r : FailureReason} {current next : Int}
    (h : p.decide reason current = .retry r next) : reason.isRetryable = true := by
  unfold decide at h
  split at h
  · rename_i hr
    exact hr.1
  · cases h

/-! ## The registry -/

/-- How a turn ended, as told to whoever waits for it. -/
inductive TurnOutcome where
  | completed (finalOutput : String) (turnId : Int) (eventCount : Nat)
  | failed (turnId : Int) (errorType errorMessage : String)
  | timeout (turnId : Int)
  deriving DecidableEq

/-- A turn that somebody waits for, with the sending end of a channel. -/
structure PendingTurn where
  turnId : Int
  redoGroup : String
  chan : Nat

/-- The pending turn of each task, and what has been sent on the channels. -/
structure TaskRegistry where
  activeTurns : Finmap fun _ : String => PendingTurn := ∅
  sent : Finmap fun _ : Nat => TurnOutcome := ∅
  nextChan : Nat := 0

namespace TaskRegistry

/-- Enter a pending turn under a new channel; whoever waits for the task's previous one is told so. -/
def registerPendingTurn (r : TaskRegistry) (taskId : String) (turnId : Int) (redoGroup : String) : TaskRegistry :=
  { activeTurns := r.activeTurns.insert taskId { turnId, redoGroup, chan := r.nextChan }
    sent := match r.activeTurns.lookup taskId with
      | some old => r.sent.insert old.chan (.failed old.turnId "replaced" "Turn replaced by new request")
      | none => r.sent
    nextChan := r.nextChan + 1 }

/-- Take the pending turn of a task out and send the outcome. -/
def completePendingTurn (r : TaskRegistry) (taskId : String) (outcome : TurnOutcome) : TaskRegistry :=
  match r.activeTurns.lookup taskId with
  | some p => { r with activeTurns := r.activeTurns.erase taskId, sent := r.sent.insert p.chan outcome }
  | none => r

/-- The sending end of a channel still exists. -/
def isOpen (r : TaskRegistry) (taskId : String) (chan : Nat) : Bool :=
  match r.activeTurns.lookup taskId with
  | some p => p.chan = chan
  | none => false

end TaskRegistry

end Fixus
