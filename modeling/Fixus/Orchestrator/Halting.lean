import Fixus.Orchestrator.RedoQueue
import Fixus.Orchestrator.Reads

/-!
# Handlers come to an end

`Halts cfg stack`: from every state a handler with this stack gets to its end, and no more turns are queued then than
before. A dispatch has a bounded number of rounds, and the loop over a queue pops a turn in each of its rounds.
-/

namespace Fixus

open Lib Lib.Eff BrokerStore

/-- How many turns of a type wait for a slot. -/
def Dispatcher.queued (d : Dispatcher) (taskType : String) : Nat :=
  ((d.queues.lookup taskType).map fun q => q.pending.length).getD 0

/-- Giving a slot back leaves the queues as they are. -/
theorem queued_onTurnTerminal (d : Dispatcher) (taskType tt : String) :
    (d.onTurnTerminal taskType).queued tt = d.queued tt := by
  unfold Dispatcher.onTurnTerminal
  cases hq : d.queues.lookup taskType with
  | none => rfl
  | some q =>
    unfold Dispatcher.queued
    by_cases htt : tt = taskType
    · subst htt
      simp [hq, Finmap.lookup_insert]
    · simp [Finmap.lookup_insert_of_ne _ htt]

/-- A pop makes the queue of its type shorter, and no other one. -/
theorem queued_tryPop {d d' : Dispatcher} {taskType : String} {turn : QueuedTurn}
    (h : d.tryPop taskType = some (turn, d')) :
    d'.queued taskType + 1 = d.queued taskType ∧ ∀ tt, tt ≠ taskType → d'.queued tt = d.queued tt := by
  unfold Dispatcher.tryPop at h
  cases hq : d.queues.lookup taskType with
  | none => simp [hq] at h
  | some q =>
    simp only [hq] at h
    split at h
    · cases h
    · cases hp : PriEntry.popFirst q.pending with
      | none => simp [hp] at h
      | some r =>
        obtain ⟨e, rest⟩ := r
        simp only [hp, Option.some.injEq, Prod.mk.injEq] at h
        obtain ⟨-, rfl⟩ := h
        have hlen := (PriEntry.popFirst_perm hp).length_eq
        rw [List.length_cons] at hlen
        refine ⟨?_, fun tt htt => ?_⟩
        · simp [Dispatcher.queued, hq, Finmap.lookup_insert, hlen]
        · simp [Dispatcher.queued, Finmap.lookup_insert_of_ne _ htt]

/-- A handler works on below a stack. -/
theorem Proceeds.append {cfg : Config} {s s' : Shared} {stack stack' : List Instr} (h : Proceeds cfg s stack s' stack')
    (rest : List Instr) : Proceeds cfg s (stack ++ rest) s' (stack' ++ rest) := by
  induction h with
  | refl => exact .refl _ _
  | step env _ ih =>
    rw [List.append_assoc] at ih
    exact .step env ih

/-- From every state the handler comes to an end, with no more turns queued than before. -/
def Halts (cfg : Config) (stack : List Instr) : Prop :=
  ∀ s : Shared, ∃ s', Proceeds cfg s stack s' [] ∧ ∀ tt, s'.dispatcher.queued tt ≤ s.dispatcher.queued tt

namespace Halts

variable {cfg : Config} {x : Instr} {stack rest : List Instr}

theorem nil : Halts cfg [] := fun s => ⟨s, .refl _ _, fun _ => le_rfl⟩

theorem append (h : Halts cfg stack) (h' : Halts cfg rest) : Halts cfg (stack ++ rest) := by
  intro s
  obtain ⟨s₁, hp₁, hq₁⟩ := h s
  obtain ⟨s₂, hp₂, hq₂⟩ := h' s₁
  exact ⟨s₂, (hp₁.append rest).trans hp₂, fun tt => (hq₂ tt).trans (hq₁ tt)⟩

theorem cons (h : Halts cfg [x]) (h' : Halts cfg rest) : Halts cfg (x :: rest) := append h h'

/-- One instruction, and then what it leaves to do. -/
theorem step (h : ∀ s : Shared, (∀ tt, (s.exec cfg {} x).shared.dispatcher.queued tt ≤ s.dispatcher.queued tt) ∧
    Halts cfg (s.exec cfg {} x).next) : Halts cfg [x] := by
  intro s
  obtain ⟨hq, hrest⟩ := h s
  obtain ⟨s', hp, hq'⟩ := hrest (s.exec cfg {} x).shared
  refine ⟨s', .step {} ?_, fun tt => (hq' tt).trans (hq tt)⟩
  rw [List.append_nil]
  exact hp

/-- The results of a handler that only go on to instructions that halt. -/
def Fine (cfg : Config) (s : Shared) (out : Out) : Prop :=
  (∀ tt, out.shared.dispatcher.queued tt ≤ s.dispatcher.queued tt) ∧ Halts cfg out.next

theorem fine {s t : Shared} {next : List Instr} {acts : List Act} (hd : t.dispatcher = s.dispatcher)
    (h : Halts cfg next) : Fine cfg s { shared := t, next, acts } := ⟨fun tt => by rw [hd], h⟩

/-- A computation of the store, and what comes after it. -/
theorem fine_on {α : Type} {m : StoreM BrokerStore α} {f : Except AppError α → Shared → Out} {s : Shared}
    (hf : ∀ r s, Fine cfg s (f r s)) : Fine cfg s (s.on m f) := hf _ { s with store := (m s.store).2 }

/-- A call, and what comes after it. -/
theorem fine_calling {c : Call} {f : Except AppError Unit → Shared → Out} {s : Shared}
    (hf : ∀ r s, Fine cfg s (f r s)) : Fine cfg s (s.calling c f) := by
  unfold Fine
  rw [calling_shared, calling_next]
  exact hf _ { s with store := c.after s.store }

/-! ### The instructions of the handlers -/

variable {t : String} {k : Int}

theorem clearRetry : Halts cfg [.clearRetry t k] := step fun _ => fine rfl nil

theorem clearDispatchTime : Halts cfg [.clearDispatchTime t k] := step fun _ => fine rfl nil

theorem completePendingTurn (outcome : TurnOutcome) : Halts cfg [.completePendingTurn t outcome] :=
  step fun _ => fine rfl nil

theorem onTurnTerminal (tt : String) : Halts cfg [.onTurnTerminal tt] :=
  step fun s => ⟨fun tt' => (queued_onTurnTerminal s.dispatcher tt tt').le, nil⟩

theorem writeTurnFailed (et em : String) (reason : FailureReason) : Halts cfg [.writeTurnFailed t k et em reason] :=
  step fun s => by
    show Fine cfg s (s.writeTurnFailed t k et em reason)
    exact fine_calling fun _ _ => fine rfl nil

theorem writeTaskFailed (et : String) (reason : FailureReason) : Halts cfg [.writeTaskFailed t et reason] :=
  step fun s => by
    show Fine cfg s (s.writeTaskFailed t et reason)
    exact fine_calling fun _ _ => fine rfl nil

theorem call (c : Call) : Halts cfg [.call c] := step fun s => by
  show Fine cfg s (s.call c)
  refine fine_calling fun r s => ?_
  cases r <;> exact fine rfl nil

theorem countTurnEvents (out : String) : Halts cfg [.countTurnEvents t k out] := step fun s => by
  show Fine cfg s (s.countTurnEvents t k out)
  refine fine_on fun r s => ?_
  cases r with
  | error err => exact fine rfl nil
  | ok events => exact fine rfl (completePendingTurn _)

/-- Failing a turn and its task. -/
theorem failTaskWithReason (reason : FailureReason) (et em : String) :
    Halts cfg (failTaskWithReason t k reason et em) :=
  cons clearRetry (cons clearDispatchTime (cons (writeTurnFailed et em reason)
    (cons (writeTaskFailed et reason) (completePendingTurn _))))

theorem dispatchFailed (d : Dispatch) (e : AppError) (s : Shared) : Fine cfg s (s.dispatchFailed cfg d e) := by
  unfold Shared.dispatchFailed
  cases d.slot with
  | none => exact fine rfl (failTaskWithReason _ _ _)
  | some tt => exact fine rfl (cons (onTurnTerminal tt) (failTaskWithReason _ _ _))

/-- The rounds of a dispatch are bounded. -/
theorem dispatchAttempt (d : Dispatch) (n : Nat) : Halts cfg [.dispatchAttempt d n] := by
  -- on the rounds that are left
  generalize hleft : (max cfg.retryPolicy.maxAttempts 1 - (n : Int)).toNat = left
  induction left using Nat.strong_induction_on generalizing n with
  | _ left ih =>
    refine step fun s => ?_
    show Fine cfg s (s.dispatchAttempt cfg {} d n)
    refine fine_on fun r s => ?_
    cases r with
    | ok u => exact fine rfl nil
    | error e =>
      simp only
      split
      · exact fine rfl (ih _ (by omega) (n + 1) rfl)
      · exact dispatchFailed d e s

theorem dispatchPopped (turn : QueuedTurn) : Halts cfg [.dispatchPopped turn] :=
  step fun _ => fine rfl (dispatchAttempt _ 0)

/-- The loop over a queue: each round pops a turn. -/
theorem dispatchPending (tt : String) : Halts cfg [.dispatchPending tt] := by
  intro s
  generalize hleft : s.dispatcher.queued tt = left
  induction left using Nat.strong_induction_on generalizing s with
  | _ left ih =>
    cases hpop : s.dispatcher.tryPop tt with
    | none =>
      refine ⟨s, .step {} ?_, fun _ => le_rfl⟩
      simp only [Shared.exec, Shared.dispatchPending, hpop, List.append_nil]
      exact .refl _ _
    | some r =>
      obtain ⟨turn, d⟩ := r
      obtain ⟨hlt, hother⟩ := queued_tryPop hpop
      obtain ⟨s₁, hp₁, hq₁⟩ := dispatchPopped turn { s with dispatcher := d }
      have hle₁ := hq₁ tt
      dsimp only at hle₁
      obtain ⟨s₂, hp₂, hq₂⟩ := ih _ (by omega) s₁ rfl
      refine ⟨s₂, .step {} ?_, fun tt' => ?_⟩
      · simp only [Shared.exec, Shared.dispatchPending, hpop, List.append_nil]
        exact (hp₁.append [.dispatchPending tt]).trans hp₂
      · have h₁ := hq₁ tt'
        have h₂ := hq₂ tt'
        dsimp only at h₁
        by_cases htt : tt' = tt
        · subst htt
          omega
        · have := hother tt' htt
          omega

theorem releaseSlotAndRedispatch : Halts cfg [.releaseSlotAndRedispatch t] := step fun s => by
  show Fine cfg s (s.releaseSlotAndRedispatch t)
  refine fine_on fun r s => ?_
  cases r with
  | error err => exact fine rfl nil
  | ok tt => exact ⟨fun tt' => (queued_onTurnTerminal s.dispatcher tt tt').le, dispatchPending tt⟩

/-- What the end of a turn sets off. -/
theorem turnDone (out : String) : Halts cfg [.clearRetry t k, .clearDispatchTime t k, .releaseSlotAndRedispatch t,
    .countTurnEvents t k out] :=
  cons clearRetry (cons clearDispatchTime (cons releaseSlotAndRedispatch (countTurnEvents out)))

end Halts

end Fixus
