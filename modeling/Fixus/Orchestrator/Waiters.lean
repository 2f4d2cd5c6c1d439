import Fixus.Orchestrator.Steps

/-!
# Waiters

The registry holds one waiter for each task, whatever turn of it the waiter is for, and a completion says only of
which task it is.

- `Ledger`: the calls of the registry one after the other, with who was registered and what was delivered;
- `Accounted.step`: what was delivered, to whom, at any time;
- `delivered_once`: no waiter is told twice, in any order of calls;
- `rightWaiter_iff`: the outcomes reach the right waiters exactly when every completion finds a waiter for its own
  turn, or none;
- `late_completion_misdelivered`: a report that is delivered again ends the wait for the next turn.
-/

namespace Fixus

open Lib

/-- The turn that an outcome is about. -/
def TurnOutcome.turnId : TurnOutcome → Int
  | completed _ k _ => k
  | failed k _ _ => k
  | timeout k => k

/-- The calls that change the registry. -/
inductive RegistryOp where
  | register (taskId : String) (turnId : Int) (redoGroup : String)
  | complete (taskId : String) (outcome : TurnOutcome)

namespace RegistryOp

def taskId : RegistryOp → String
  | register t _ _ => t
  | complete t _ => t

/-- The turn whose waiter the call enters. -/
def registers : RegistryOp → Option Int
  | register _ k _ => some k
  | complete _ _ => none

end RegistryOp

/-- The turn of a task that is waited for after the calls: the one that the last call about the task has entered. -/
def waitedFor (ops : List RegistryOp) (taskId : String) : Option Int :=
  ((ops.filter fun op => op.taskId = taskId).getLast?).bind RegistryOp.registers

/-- Somebody who waits on a channel for a turn. -/
structure Waiter where
  taskId : String
  turnId : Int
  chan : Nat
  deriving DecidableEq

namespace TaskRegistry

def apply (r : TaskRegistry) : RegistryOp → TaskRegistry
  | .register t k rg => r.registerPendingTurn t k rg
  | .complete t o => r.completePendingTurn t o

/-- The waiters that a call enters. -/
def entered (r : TaskRegistry) : RegistryOp → List Waiter
  | .register t k _ => [{ taskId := t, turnId := k, chan := r.nextChan }]
  | .complete _ _ => []

/-- What a call tells the waiter that it takes out. -/
def message (p : PendingTurn) : RegistryOp → TurnOutcome
  | .register _ _ _ => .failed p.turnId "replaced" "Turn replaced by new request"
  | .complete _ o => o

/-- What a call sends, and on which channel. -/
def sends (r : TaskRegistry) (op : RegistryOp) : List (Nat × TurnOutcome) :=
  match r.activeTurns.lookup op.taskId with
  | none => []
  | some p => [(p.chan, message p op)]

end TaskRegistry

/-- The registry with the history of its waiters. -/
structure Ledger where
  registry : TaskRegistry := {}
  registered : List Waiter := []
  delivered : List (Nat × TurnOutcome) := []

def Ledger.step (l : Ledger) (op : RegistryOp) : Ledger where
  registry := l.registry.apply op
  registered := l.registered ++ l.registry.entered op
  delivered := l.delivered ++ l.registry.sends op

/-- The ledger after the calls. -/
abbrev ledger (ops : List RegistryOp) : Ledger := run Ledger.step {} ops

/-! ## What the registry does -/

/-- Who is registered for the task of a call after it. -/
def RegistryOp.leaves (chan : Nat) : RegistryOp → Option PendingTurn
  | register _ k rg => some { turnId := k, redoGroup := rg, chan }
  | complete _ _ => none

variable {r : TaskRegistry} {op : RegistryOp}

/-- A call for a task that somebody waits for sends them a message. -/
theorem apply_of_some {p : PendingTurn} (h : r.activeTurns.lookup op.taskId = some p) :
    (r.apply op).sent = r.sent.insert p.chan (TaskRegistry.message p op) := by
  cases op with
  | register t k rg =>
    have ht : r.activeTurns.lookup t = some p := h
    simp [TaskRegistry.apply, TaskRegistry.registerPendingTurn, ht, TaskRegistry.message]
  | complete t o =>
    have ht : r.activeTurns.lookup t = some p := h
    simp [TaskRegistry.apply, TaskRegistry.completePendingTurn, ht, TaskRegistry.message]

theorem apply_of_none (h : r.activeTurns.lookup op.taskId = none) : (r.apply op).sent = r.sent := by
  cases op with
  | register t k rg =>
    have ht : r.activeTurns.lookup t = none := h
    simp [TaskRegistry.apply, TaskRegistry.registerPendingTurn, ht]
  | complete t o =>
    have ht : r.activeTurns.lookup t = none := h
    simp [TaskRegistry.apply, TaskRegistry.completePendingTurn, ht]

/-- A call changes who is registered for its own task only. -/
theorem apply_lookup (r : TaskRegistry) (op : RegistryOp) (taskId : String) :
    (r.apply op).activeTurns.lookup taskId =
      if op.taskId = taskId then op.leaves r.nextChan else r.activeTurns.lookup taskId := by
  cases op with
  | register t k rg =>
    show (r.activeTurns.insert t _).lookup taskId = _
    by_cases ht : t = taskId
    · subst ht
      simp [RegistryOp.taskId, RegistryOp.leaves]
    · simp [RegistryOp.taskId, ht, Finmap.lookup_insert_of_ne _ (Ne.symm ht)]
  | complete t o =>
    have hreg : (r.completePendingTurn t o).activeTurns = r.activeTurns.erase t := by
      unfold TaskRegistry.completePendingTurn
      cases hp : r.activeTurns.lookup t with
      | none =>
        refine Finmap.ext_lookup fun t' => ?_
        by_cases ht : t' = t
        · rw [ht, Finmap.lookup_erase, hp]
        · rw [Finmap.lookup_erase_ne ht]
      | some p => rfl
    show (r.completePendingTurn t o).activeTurns.lookup taskId = _
    rw [hreg]
    by_cases ht : t = taskId
    · subst ht
      simp [RegistryOp.taskId, RegistryOp.leaves]
    · simp [RegistryOp.taskId, ht, Finmap.lookup_erase_ne (Ne.symm ht)]

theorem apply_nextChan (r : TaskRegistry) (op : RegistryOp) :
    (r.apply op).nextChan = r.nextChan + (r.entered op).length := by
  cases op with
  | register t k rg => rfl
  | complete t o =>
    show (r.completePendingTurn t o).nextChan = r.nextChan
    unfold TaskRegistry.completePendingTurn
    split <;> rfl

/-- The registry waits for the turn that the last call about the task has entered. -/
theorem lookup_waitedFor (ops : List RegistryOp) (taskId : String) :
    ((ledger ops).registry.activeTurns.lookup taskId).map PendingTurn.turnId = waitedFor ops taskId := by
  induction ops using List.reverseRecOn with
  | nil => rfl
  | append_singleton ops op ih =>
    have hrun : (ledger (ops ++ [op])).registry = (ledger ops).registry.apply op := by
      simp [ledger, run, Ledger.step]
    rw [hrun, apply_lookup]
    unfold waitedFor at *
    by_cases ht : op.taskId = taskId
    · cases op <;> simp [List.filter_append, ht, RegistryOp.registers, RegistryOp.leaves]
    · simp [List.filter_append, ht, ih]

/-! ## The account of the waiters -/

/-- What the ledger tells about the registry. -/
structure Accounted (l : Ledger) : Prop where
  /-- Whoever is registered was entered under the channel. -/
  pending : ∀ taskId p, l.registry.activeTurns.lookup taskId = some p →
    { taskId, turnId := p.turnId, chan := p.chan } ∈ l.registered
  fresh : ∀ w ∈ l.registered, w.chan < l.registry.nextChan
  /-- Channels are not used twice. -/
  apart : ∀ w ∈ l.registered, ∀ w' ∈ l.registered, w.chan = w'.chan → w = w'
  /-- What was delivered went to somebody who is not registered any more. -/
  told : ∀ d ∈ l.delivered, ∃ w ∈ l.registered, w.chan = d.1 ∧
    ∀ p, l.registry.activeTurns.lookup w.taskId = some p → p.chan ≠ w.chan
  once : (l.delivered.map Prod.fst).Nodup
  sent : ∀ chan o, l.registry.sent.lookup chan = some o ↔ (chan, o) ∈ l.delivered

theorem Accounted.start : Accounted {} where
  pending := fun _ _ h => by simp at h
  fresh := fun _ h => by cases h
  apart := fun _ h => by cases h
  told := fun _ h => by cases h
  once := List.nodup_nil
  sent := fun _ _ => by simp

theorem mem_sends {d : Nat × TurnOutcome} :
    d ∈ r.sends op ↔ ∃ p, r.activeTurns.lookup op.taskId = some p ∧ d = (p.chan, TaskRegistry.message p op) := by
  unfold TaskRegistry.sends
  cases r.activeTurns.lookup op.taskId <;> simp

/-- What is registered after a call was registered before or is entered by it. -/
theorem lookup_apply_cases {taskId : String} {p : PendingTurn} (h : (r.apply op).activeTurns.lookup taskId = some p) :
    (op.taskId ≠ taskId ∧ r.activeTurns.lookup taskId = some p) ∨
      { taskId, turnId := p.turnId, chan := p.chan } ∈ r.entered op ∧ p.chan = r.nextChan := by
  rw [apply_lookup] at h
  split at h
  · rename_i ht
    right
    cases op with
    | register t k rg =>
      obtain rfl := Option.some.inj h
      obtain rfl : t = taskId := ht
      exact ⟨List.mem_singleton_self _, rfl⟩
    | complete t o => cases h
  · rename_i ht
    exact Or.inl ⟨ht, h⟩

theorem mem_entered {w : Waiter} (h : w ∈ r.entered op) : r.entered op = [w] ∧ w.chan = r.nextChan ∧
    w.taskId = op.taskId ∧ op.leaves r.nextChan ≠ none := by
  cases op with
  | register t k rg =>
    obtain rfl := List.mem_singleton.mp h
    exact ⟨rfl, rfl, rfl, nofun⟩
  | complete t o => cases h

/-- Whoever is registered has not been told anything. -/
theorem Accounted.untold {l : Ledger} (h : Accounted l) {taskId : String} {p : PendingTurn}
    (hp : l.registry.activeTurns.lookup taskId = some p) (o : TurnOutcome) : (p.chan, o) ∉ l.delivered := by
  intro hd
  obtain ⟨w, hw, hc, hout⟩ := h.told _ hd
  obtain rfl : w = _ := h.apart w hw _ (h.pending taskId p hp) hc
  exact hout p hp rfl

/-- **Every call keeps the account.** -/
theorem Accounted.step {l : Ledger} (h : Accounted l) (op : RegistryOp) : Accounted (l.step op) := by
  have hnext := apply_nextChan l.registry op
  constructor
  · intro taskId p hp
    rcases lookup_apply_cases hp with ⟨-, hold⟩ | ⟨hnew, -⟩
    · exact List.mem_append_left _ (h.pending taskId p hold)
    · exact List.mem_append_right _ hnew
  · intro w hw
    show w.chan < (l.registry.apply op).nextChan
    rcases List.mem_append.mp hw with hw | hw
    · have := h.fresh w hw
      omega
    · obtain ⟨he, hc, -, -⟩ := mem_entered hw
      rw [hnext, he, hc]
      simp
  · intro w hw w' hw' hc
    rcases List.mem_append.mp hw with hw | hw <;> rcases List.mem_append.mp hw' with hw' | hw'
    · exact h.apart w hw w' hw' hc
    · have := h.fresh w hw
      have := (mem_entered hw').2.1
      omega
    · have := h.fresh w' hw'
      have := (mem_entered hw).2.1
      omega
    · have he := (mem_entered hw).1
      rw [he] at hw'
      exact (List.mem_singleton.mp hw').symm
  · -- whoever is registered now is another one than who was told
    have hout : ∀ w ∈ l.registered, (∀ p, op.taskId ≠ w.taskId → l.registry.activeTurns.lookup w.taskId = some p →
        p.chan ≠ w.chan) → ∀ p, (l.registry.apply op).activeTurns.lookup w.taskId = some p → p.chan ≠ w.chan := by
      intro w hw hold p hp
      rcases lookup_apply_cases hp with ⟨hne, hp⟩ | ⟨-, hc⟩
      · exact hold p hne hp
      · have := h.fresh w hw
        omega
    intro d hd
    rcases List.mem_append.mp hd with hd | hd
    · obtain ⟨w, hw, hc, hold⟩ := h.told d hd
      exact ⟨w, List.mem_append_left _ hw, hc, hout w hw fun p _ hp => hold p hp⟩
    · obtain ⟨p, hp, rfl⟩ := mem_sends.mp hd
      have hw := h.pending op.taskId p hp
      exact ⟨_, List.mem_append_left _ hw, rfl, hout _ hw fun p' hne _ => absurd rfl hne⟩
  · show ((l.delivered ++ l.registry.sends op).map Prod.fst).Nodup
    rw [List.map_append]
    refine List.nodup_append.mpr ⟨h.once, ?_, ?_⟩
    · unfold TaskRegistry.sends
      split <;> simp
    · intro c hc c' hc' heq
      obtain ⟨d, hd, rfl⟩ := List.mem_map.mp hc
      obtain ⟨d', hd', rfl⟩ := List.mem_map.mp hc'
      obtain ⟨p, hp, rfl⟩ := mem_sends.mp hd'
      have heq : d.1 = p.chan := heq
      exact h.untold hp d.2 (heq ▸ hd)
  · intro chan o
    show (l.registry.apply op).sent.lookup chan = some o ↔ (chan, o) ∈ l.delivered ++ l.registry.sends op
    rw [List.mem_append, ← h.sent chan o, mem_sends]
    cases hp : l.registry.activeTurns.lookup op.taskId with
    | none => simp [apply_of_none hp]
    | some p =>
      rw [apply_of_some hp]
      by_cases hc : chan = p.chan
      · subst hc
        have huntold : l.registry.sent.lookup p.chan ≠ some o := fun hs => h.untold hp o ((h.sent _ o).mp hs)
        simp [huntold, eq_comm]
      · simp [Finmap.lookup_insert_of_ne _ hc, hc]

/-- The account is right after any calls. -/
theorem accounted (ops : List RegistryOp) : Accounted (ledger ops) :=
  run_invariant (C := fun _ _ => True) Accounted (fun _ op h _ => h.step op) Accounted.start meets_true

/-- **Nobody is told twice**, and what was sent on a channel stays there. -/
theorem delivered_once (ops : List RegistryOp) : ((ledger ops).delivered.map Prod.fst).Nodup ∧
    ∀ chan o, (ledger ops).registry.sent.lookup chan = some o ↔ (chan, o) ∈ (ledger ops).delivered :=
  ⟨(accounted ops).once, (accounted ops).sent⟩

/-! ## The right waiter -/

/-- The outcomes reach the right waiters. -/
structure RightWaiter (ops : List RegistryOp) : Prop where
  /-- What is delivered to a waiter is about the turn that it waits for. -/
  carries : ∀ w ∈ (ledger ops).registered, ∀ o, (w.chan, o) ∈ (ledger ops).delivered → o.turnId = w.turnId
  once : ((ledger ops).delivered.map Prod.fst).Nodup
  /-- A completion of another turn leaves the waiter alone. -/
  untouched : ∀ pre taskId o post, ops = pre ++ .complete taskId o :: post → ∀ p,
    (ledger pre).registry.activeTurns.lookup taskId = some p → p.turnId ≠ o.turnId →
      ((ledger pre).registry.apply (.complete taskId o)).activeTurns.lookup taskId = some p

/-- Every completion is about the turn that is waited for, if the last call about the task was a registration. -/
def CompletesWaitedFor (ops : List RegistryOp) : Prop :=
  ∀ pre taskId o post, ops = pre ++ .complete taskId o :: post → ∀ k, waitedFor pre taskId = some k → o.turnId = k

/-- What is delivered comes from a call that finds the waiter. -/
theorem mem_delivered {ops : List RegistryOp} {d : Nat × TurnOutcome} :
    d ∈ (ledger ops).delivered ↔ ∃ pre op post, ops = pre ++ op :: post ∧ d ∈ (ledger pre).registry.sends op := by
  induction ops using List.reverseRecOn with
  | nil => simp
  | append_singleton ops op ih =>
    have hrun : (ledger (ops ++ [op])).delivered = (ledger ops).delivered ++ (ledger ops).registry.sends op := by
      simp [ledger, run, Ledger.step]
    rw [hrun, List.mem_append, ih]
    constructor
    · rintro (⟨pre, op', post, rfl, hd⟩ | hd)
      · exact ⟨pre, op', post ++ [op], by simp, hd⟩
      · exact ⟨ops, op, [], rfl, hd⟩
    · rintro ⟨pre, op', post, he, hd⟩
      rcases List.eq_nil_or_concat post with rfl | ⟨post, op'', rfl⟩
      · obtain ⟨hops, hop⟩ := List.append_inj' he rfl
        obtain rfl := List.singleton_inj.mp hop
        exact Or.inr (hops ▸ hd)
      · have hops : ops ++ [op] = (pre ++ op' :: post) ++ [op''] := by simpa using he
        exact Or.inl ⟨pre, op', post, (List.append_inj' hops rfl).1, hd⟩

/-- Registered waiters stay in the ledger. -/
theorem registered_mono (ops post : List RegistryOp) : (ledger ops).registered ⊆ (ledger (ops ++ post)).registered := by
  induction post using List.reverseRecOn with
  | nil => simp
  | append_singleton post op ih =>
    have hrun : (ledger (ops ++ (post ++ [op]))).registered =
        (ledger (ops ++ post)).registered ++ (ledger (ops ++ post)).registry.entered op := by
      simp [ledger, run, Ledger.step]
    rw [hrun]
    exact List.subset_append_of_subset_left _ ih

/-- **The outcomes reach the right waiters exactly when every completion is about the turn that is waited for.** -/
theorem rightWaiter_iff (ops : List RegistryOp) : RightWaiter ops ↔ CompletesWaitedFor ops := by
  constructor
  · intro h pre taskId o post he k hk
    rw [← lookup_waitedFor] at hk
    obtain ⟨p, hp, rfl⟩ := Option.map_eq_some_iff.mp hk
    by_contra hne
    -- the completion would have left the waiter alone, but it takes it out
    have hkept := h.untouched pre taskId o post he p hp (Ne.symm hne)
    rw [apply_lookup] at hkept
    simp [RegistryOp.taskId, RegistryOp.leaves] at hkept
  · intro h
    refine ⟨fun w hw o hd => ?_, (accounted ops).once, fun pre taskId o post he p hp hne => ?_⟩
    · obtain ⟨pre, op, post, he, hs⟩ := mem_delivered.mp hd
      obtain ⟨p, hp, hd⟩ := mem_sends.mp hs
      obtain ⟨hc, ho⟩ := Prod.mk.inj hd
      -- the waiter is the one that the call has found
      have hw' : ({ taskId := op.taskId, turnId := p.turnId, chan := p.chan } : Waiter) ∈ (ledger ops).registered :=
        he ▸ registered_mono pre (op :: post) ((accounted pre).pending op.taskId p hp)
      obtain rfl := (accounted ops).apart w hw _ hw' hc
      cases op with
      | register t k rg => rw [ho]; rfl
      | complete t o' =>
        rw [ho]
        exact h pre t o' post he p.turnId (by rw [← lookup_waitedFor]; exact congrArg (Option.map _) hp)
    · have hk : waitedFor pre taskId = some p.turnId := by
        rw [← lookup_waitedFor, hp]
        rfl
      exact absurd (h pre taskId o post he _ hk).symm hne

/-! ## The registry of the orchestrator -/

/-- An instruction makes at most one call of the registry. -/
theorem Step.registry {cfg : Config} {s : Shared} {x : Instr} {out : Out} (h : Step cfg s x out) :
    out.shared.registry = s.registry ∨ ∃ op, out.shared.registry = s.registry.apply op := by
  cases h with
  | @registered t k i rg => exact Or.inr ⟨.register t k rg, rfl⟩
  | @completed t outcome => exact Or.inr ⟨.complete t outcome, rfl⟩
  | @redoRegistered t r redo => exact Or.inr ⟨.register t r.turnId r.redoGroup, rfl⟩
  | _ => exact Or.inl rfl

/-- The registry has come about by calls. -/
abbrev ByCalls (o : Orchestrator) : Prop := ∃ ops, o.shared.registry = (ledger ops).registry

theorem ByCalls.move {cfg : Config} {o : Orchestrator} (ho : ByCalls o) (m : OMove) :
    ByCalls (orchestrate cfg o m) := by
  refine move_invariant ho (fun x _ => ho) fun o' k env x rest he => ?_
  obtain ⟨ops, ho⟩ := ho
  unfold ByCalls
  rw [he.shared]
  show ∃ ops, (o.shared.exec cfg env x).shared.registry = (ledger ops).registry
  rcases (exec_step cfg env o.shared x).registry with h | ⟨op, h⟩
  · exact ⟨ops, h.trans ho⟩
  · refine ⟨ops ++ [op], ?_⟩
    rw [h, ho]
    simp [ledger, run, Ledger.step]

/-- The registry of the orchestrator has come about by calls, in every run. -/
theorem registry_of_run {cfg : Config} (store : BrokerStore) (n : Nat) (moves : List OMove) :
    ByCalls (run (orchestrate cfg) (.start store n) moves) :=
  run_invariant (C := fun _ _ => True) ByCalls (fun _ m h _ => h.move m) ⟨[], rfl⟩ meets_true

/-- A turn is done, a second one is awaited, and the report of the first one comes once more. -/
def lateReport : List OMove :=
  firstTurn ++ handle (.turnExecutionDone "task_1" 1 "one") 3 7 ++
    handle (.call (.op (.blockTask "task_1" "review"))) 4 1 ++ handle (.call (.op (.markTaskReady "task_1"))) 5 1 ++
    handle (.executeTurn "task_1" "again" none) 6 10 ++ handle (.turnExecutionDone "task_1" 1 "one") 7 7

/-- The calls of the registry in `lateReport`. -/
def lateCalls : List RegistryOp :=
  [.register "task_1" 1 "rg_", .complete "task_1" (.completed "one" 1 2), .register "task_1" 2 "rg_",
    .complete "task_1" (.completed "one" 1 3)]

/-- The second waiter, who waits for the second turn, is told the outcome of the first one. -/
theorem late_completion_misdelivered :
    ¬ RightWaiter lateCalls ∧ (ledger lateCalls).registered[1]? = some { taskId := "task_1", turnId := 2, chan := 1 } ∧
      let o := run (orchestrate {}) (.start BrokerStore.empty 2) lateReport
      o.shared.registry.sent.lookup 1 = (ledger lateCalls).registry.sent.lookup 1 ∧
        o.shared.registry.sent.lookup 1 = some (.completed "one" 1 3) := by
  refine ⟨fun h => ?_, rfl, by decide +kernel⟩
  have hw : ({ taskId := "task_1", turnId := 2, chan := 1 } : Waiter) ∈ (ledger lateCalls).registered := by decide
  have hd : (1, TurnOutcome.completed "one" 1 3) ∈ (ledger lateCalls).delivered := by decide
  exact absurd (h.carries _ hw _ hd) (by decide)

end Fixus
