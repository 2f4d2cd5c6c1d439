import Fixus.Lib.Run
import Fixus.Orchestrator.Steps

/-!
# The retry budget of a turn

The error handler counts the retries of a turn in a table and gives up when the budget is spent. The end of the turn
removes the counter.

- `Step.retrying`: what an instruction does to the counter of a turn and to its publications under way;
- `Owed.move`: whatever the handler publishes again, it has decided to retry;
- `Budget`, `Budget.move`: the invariant that bounds both by the budget;
- `republished_le`: the handler publishes a turn again at most as often as the budget allows, in every run in which it
  decides on no retryable failure of a turn whose counter was removed after use;
- `late_report_republishes`: a report after the final failure starts over.
-/

namespace Fixus

open Lib BrokerStore

variable {cfg : Config} {s : Shared} {x : Instr} {out : Out} {turn : TurnKey}

/-- The retries of a turn that are under way. -/
def retrying (turn : TurnKey) : Instr → Nat
  | .redispatch d | .dispatchAttempt d _ => if d.slot = none ∧ d.key = turn then 1 else 0
  | _ => 0

/-- The publications of a turn by the error handler. -/
def republished (turn : TurnKey) (trace : List Act) : Nat := trace.count (.published turn true)

/-- The act removes the counter of the turn after use. -/
def Act.losesCounter (turn : TurnKey) : Act → Bool
  | .cleared turn' n => turn' = turn && 0 < n
  | _ => false

/-- The counter of the turn was removed after use. -/
abbrev CounterLost (turn : TurnKey) (trace : List Act) : Prop := ∃ a ∈ trace, a.losesCounter turn = true

/-- The counter stays, and a publication uses up the retry it belongs to. -/
structure KeepsCounter (turn : TurnKey) (s : Shared) (x : Instr) (out : Out) : Prop where
  attempts : out.shared.attemptsOf turn = s.attemptsOf turn
  balance : republished turn out.acts + weight (retrying turn) out.next + weight (retrying turn) out.spawned ≤
    retrying turn x
  cleared : ∀ n, Act.cleared turn n ∉ out.acts

/-- The handler decides to retry. -/
structure Retries (cfg : Config) (turn : TurnKey) (s : Shared) (x : Instr) (out : Out) : Prop where
  fetched : ∃ et em i rg, x = .decideRetry turn.1 turn.2 et em i rg ∧ (classifyFailure et).isRetryable = true
  budget : s.attemptsOf turn < cfg.retryPolicy.maxAttempts
  attempts : out.shared.attemptsOf turn = s.attemptsOf turn + 1
  acts : republished turn out.acts = 0
  next : weight (retrying turn) out.next + weight (retrying turn) out.spawned ≤ retrying turn x + 1
  cleared : ∀ n, Act.cleared turn n ∉ out.acts
  retried : Act.retried turn ∈ out.acts

/-- The counter is removed. -/
structure Clears (turn : TurnKey) (s : Shared) (x : Instr) (out : Out) : Prop where
  attempts : out.shared.attemptsOf turn = 0
  cleared : Act.cleared turn (s.attemptsOf turn) ∈ out.acts
  acts : republished turn out.acts = 0
  next : weight (retrying turn) out.next + weight (retrying turn) out.spawned = 0

@[simp] theorem retrying_failTask (t : String) (k : Int) (reason : FailureReason) (et em : String) :
    weight (retrying turn) (failTaskWithReason t k reason et em) = 0 := rfl

@[simp] theorem retrying_failTurn (t : String) (k : Int) (et em : String) :
    weight (retrying turn) (failTurnAndRespond t k et em) = 0 := rfl

@[simp] theorem attemptsOf_insert (s : Shared) (turn' : TurnKey) (n : Int) :
    ({ s with retryAttempts := s.retryAttempts.insert turn' n } : Shared).attemptsOf turn =
      if turn = turn' then n else s.attemptsOf turn := by
  unfold Shared.attemptsOf
  by_cases h : turn = turn'
  · subst h; simp [Finmap.lookup_insert]
  · simp [Finmap.lookup_insert_of_ne _ h, h]

@[simp] theorem attemptsOf_erase (s : Shared) (turn' : TurnKey) :
    ({ s with retryAttempts := s.retryAttempts.erase turn' } : Shared).attemptsOf turn =
      if turn = turn' then 0 else s.attemptsOf turn := by
  unfold Shared.attemptsOf
  by_cases h : turn = turn'
  · subst h; simp [Finmap.lookup_erase]
  · simp [Finmap.lookup_erase_ne h, h]

/-- **What an instruction does to the retries of a turn.** -/
theorem Step.retrying (h : Step cfg s x out) (turn : TurnKey) :
    KeepsCounter turn s x out ∨ Retries cfg turn s x out ∨ Clears turn s x out := by
  cases h with
  | @retried t k et em i rg d hr hb hk hs =>
    by_cases ht : turn = (t, k)
    · subst ht
      exact Or.inr (Or.inl ⟨⟨et, em, i, rg, rfl, hr⟩, hb, by simp, by simp [republished],
        by simp [Fixus.retrying, hk, hs], by simp, by simp⟩)
    · exact Or.inl ⟨by simp [ht], by simp [republished, Fixus.retrying, hk, Ne.symm ht], by simp⟩
  | @finallyFailed t k et em i rg =>
    by_cases ht : turn = (t, k)
    · subst ht
      exact Or.inr (Or.inr ⟨by simp, by simp, by simp [republished], by simp [Fixus.retrying]⟩)
    · exact Or.inl ⟨by simp [ht], by simp [republished, Fixus.retrying], by simp [ht]⟩
  | @retryCleared t k =>
    by_cases ht : turn = (t, k)
    · subst ht
      exact Or.inr (Or.inr ⟨by simp, by simp, by simp [republished], by simp⟩)
    · exact Or.inl ⟨by simp [ht], by simp [republished], by simp [ht]⟩
  | @published d n st h =>
    refine Or.inl ⟨rfl, ?_, by simp⟩
    by_cases hd : d.slot = none ∧ d.key = turn
    · simp [republished, Fixus.retrying, hd.1, hd.2]
    · have hne : Act.published d.key d.slot.isNone ≠ .published turn true := fun h => by
        injection h with hk hs
        exact hd ⟨by simpa using hs, hk⟩
      simp [republished, hne]
  | @timed turn' times d hk hs => exact Or.inl ⟨rfl, by simp [republished, Fixus.retrying, hs], by simp⟩
  | @redispatched d st cached h =>
    have hkey : ({ d with cachedLlm := cached } : Dispatch).key = d.key := rfl
    exact Or.inl ⟨rfl, by simp [republished, Fixus.retrying, hkey], by simp⟩
  | @called c st h =>
    have hno : Act.published turn true ∉ c.acts ++ c.endedTurns.map fun turn => .ended turn false := fun hm => by
      rcases mem_call_acts hm with ⟨t, et, k, he⟩ | ⟨turn', he⟩ <;> cases he
    refine Or.inl ⟨rfl, by simp [republished, List.count_eq_zero.mpr hno], fun n hm => ?_⟩
    rcases mem_call_acts hm with ⟨t, et, k, he⟩ | ⟨turn', he⟩ <;> cases he
  | _ => exact Or.inl ⟨rfl, by simp [republished, Fixus.retrying], by simp⟩

/-! ## Retries that were decided -/

/-- **A publication by the handler uses up a retry that it has decided.** -/
theorem Step.republishes (h : Step cfg s x out) (turn : TurnKey) :
    republished turn out.acts + weight (Fixus.retrying turn) out.next + weight (Fixus.retrying turn) out.spawned ≤
      out.acts.count (.retried turn) + Fixus.retrying turn x := by
  rcases h.retrying turn with hk | hr | hc
  · have hle := hk.balance
    omega
  · have hpaid := List.count_pos_iff.mpr hr.retried
    have hle := hr.next
    have h0 := hr.acts
    omega
  · have hle := hc.next
    have h0 := hc.acts
    omega

/-- The publications of a turn by the handler, done and under way, are retries that it has decided. -/
def Owed (turn : TurnKey) (o : Orchestrator) : Prop :=
  republished turn o.trace + total (retrying turn) o.pool ≤ o.trace.count (.retried turn)

/-- **Every move keeps the retries accounted for.** -/
theorem Owed.move {o : Orchestrator} (ho : Owed turn o) (m : OMove) : Owed turn (orchestrate cfg o m) := by
  refine move_invariant ho (fun x hx => ?_) fun o' k env x rest he => ?_
  · have hw : retrying turn x = 0 := by cases x <;> first | rfl | cases hx
    simpa [Owed, hw] using ho
  · have hstep := (exec_step cfg env o.shared x).republishes turn
    have hbal := he.total (retrying turn)
    unfold Owed republished execWith at *
    rw [he.trace, List.count_append, List.count_append, List.count_reverse, List.count_reverse]
    omega

/-! ## The invariant -/

/-- The budget of a turn bounds its publications by the handler, done and under way; the counter bounds them as long
as it is kept. -/
structure Budget (cfg : Config) (turn : TurnKey) (o : Orchestrator) : Prop where
  nonneg : 0 ≤ o.shared.attemptsOf turn
  le : o.shared.attemptsOf turn ≤ max cfg.retryPolicy.maxAttempts 0
  spent : (republished turn o.trace + total (retrying turn) o.pool : Int) ≤ max cfg.retryPolicy.maxAttempts 0
  kept : ¬ CounterLost turn o.trace →
    (republished turn o.trace + total (retrying turn) o.pool : Int) ≤ o.shared.attemptsOf turn

/-- No retryable failure is decided of a turn whose counter was removed after use. -/
def Instr.keepsCounter (trace : List Act) : Instr → Bool
  | .decideRetry t k et _ _ _ => (classifyFailure et).isRetryable → ¬ CounterLost (t, k) trace
  | _ => true

/-- The move keeps to the counters that there are. -/
abbrev CounterKept (o : Orchestrator) (m : OMove) : Prop := ∀ x ∈ fetched o m, x.keepsCounter o.trace = true

theorem Budget.start (store : BrokerStore) (n : Nat) (turn : TurnKey) : Budget cfg turn (.start store n) := by
  have h0 : (Orchestrator.start store n).shared.attemptsOf turn = 0 := by simp [Orchestrator.start, Shared.attemptsOf]
  have h1 : republished turn (Orchestrator.start store n).trace = 0 := rfl
  have h2 : total (retrying turn) (Orchestrator.start store n).pool = 0 := rfl
  refine ⟨by omega, by omega, by omega, fun _ => by omega⟩

/-- **Every move keeps within the budget.** -/
theorem Budget.move {o : Orchestrator} {m : OMove} (hb : Budget cfg turn o) (hc : CounterKept o m) :
    Budget cfg turn (orchestrate cfg o m) := by
  refine move_invariant hb (fun x hx => ?_) fun o' k env x rest he => ?_
  · have hw : total (Fixus.retrying turn) (o.pool ++ [[x]]) = total (Fixus.retrying turn) o.pool := by
      cases x <;> simp_all [Instr.isEntry, Fixus.retrying]
    exact ⟨hb.nonneg, hb.le, hw ▸ hb.spent, fun h => hw ▸ hb.kept h⟩
  · have hbal := he.total (Fixus.retrying turn)
    have htop := he.le_total (Fixus.retrying turn)
    have hcount : republished turn o'.trace =
        republished turn (execWith cfg env o.shared x).acts + republished turn o.trace := by
      rw [republished, he.trace, List.count_append, List.count_reverse]
      rfl
    have hkeep : CounterLost turn o.trace → CounterLost turn o'.trace := fun ⟨a, ha, h⟩ =>
      ⟨a, by rw [he.trace]; exact List.mem_append_right _ ha, h⟩
    have hs := hb.spent
    have hl := hb.le
    have hn := hb.nonneg
    rcases (exec_step cfg env o.shared x).retrying turn with hkc | hr | hcl
    · have hat : o'.shared.attemptsOf turn = o.shared.attemptsOf turn := by rw [he.shared]; exact hkc.attempts
      have hle := hkc.balance
      refine ⟨by omega, by omega, ?_, fun hno => ?_⟩
      · unfold execWith at *
        omega
      · have hk := hb.kept fun h => hno (hkeep h)
        unfold execWith at *
        omega
    · -- the counter pays for the new retry
      have hat : o'.shared.attemptsOf turn = o.shared.attemptsOf turn + 1 := by rw [he.shared]; exact hr.attempts
      obtain ⟨et, em, i, rg, hx, hret⟩ := hr.fetched
      have hkc : Instr.keepsCounter o.trace (.decideRetry turn.1 turn.2 et em i rg) = true :=
        hx ▸ hc x (Option.mem_def.mpr he.fetched)
      have hk := hb.kept (by simpa [Instr.keepsCounter, hret] using hkc)
      have hle := hr.next
      have h0 := hr.acts
      have hbud := hr.budget
      unfold execWith at *
      refine ⟨by omega, by omega, by omega, fun hno => by omega⟩
    · -- a counter in use is lost, and one not in use has nothing to account for
      have hat : o'.shared.attemptsOf turn = 0 := by rw [he.shared]; exact hcl.attempts
      have hle := hcl.next
      have h0 := hcl.acts
      unfold execWith at *
      refine ⟨by omega, by omega, by omega, fun hno => ?_⟩
      have hk := hb.kept fun h => hno (hkeep h)
      have hz : ¬ 0 < o.shared.attemptsOf turn := fun hpos =>
        hno ⟨_, by rw [he.trace]; exact List.mem_append_left _ (List.mem_reverse.mpr hcl.cleared), by
          simp [Act.losesCounter, hpos]⟩
      omega

/-- **A turn is published again at most as often as the budget allows**, in every run in which no retryable failure is
decided for a turn whose counter was removed after use. -/
theorem republished_le {store : BrokerStore} {n : Nat} {moves : List OMove}
    (hm : Meets (orchestrate cfg) CounterKept (.start store n) moves) (turn : TurnKey) :
    (republished turn (run (orchestrate cfg) (.start store n) moves).trace : Int) ≤
      max cfg.retryPolicy.maxAttempts 0 := by
  have hb : Budget cfg turn (run (orchestrate cfg) (.start store n) moves) :=
    run_invariant (Budget cfg turn) (fun o m => Budget.move) (Budget.start store n turn) hm
  have hs := hb.spent
  omega

/-- A budget of one retry, and a report of a crash. -/
def oneRetry : Config := { retryPolicy := { maxAttempts := 1 } }

def crash : Instr := .turnExecutionError "task_1" 1 "agent_process_exited" "boom"

/-- The theorem at a turn that crashes twice. -/
theorem republished_le_two_crashes :
    (republished ("task_1", 1) (run (orchestrate oneRetry) (.start empty 1)
      (firstTurn ++ handle crash 3 4 ++ handle crash 4 9)).trace : Int) ≤ max oneRetry.retryPolicy.maxAttempts 0 :=
  republished_le (by decide +kernel) _

/-- A crash that is reported after the final failure is retried again. -/
theorem late_report_republishes :
    ¬ (republished ("task_1", 1) (run (orchestrate oneRetry) (.start empty 1)
      (firstTurn ++ handle crash 3 4 ++ handle crash 4 9 ++ handle crash 5 4)).trace : Int) ≤
        max oneRetry.retryPolicy.maxAttempts 0 := by
  have h : republished ("task_1", 1) (run (orchestrate oneRetry) (.start empty 1)
      (firstTurn ++ handle crash 3 4 ++ handle crash 4 9 ++ handle crash 5 4)).trace = 2 := by decide +kernel
  rw [h]
  decide

end Fixus
