import Fixus.Interleaved.Order

/-!
# The entry after `ensure_projection`

- `KeepsAwaited`: no entry is taken away while a read still expects it;
- `Present.exec`: the invariant, one step;
- `never_panics`: no run that keeps the awaited entries meets a vanished projection;
- `vanished_projection`: an invalidation and an eviction between the two accesses of a read.
-/

namespace Fixus.Interleaved

open Lib

variable {home : String → Nat}

/-- The purpose is a read through `with_projection`. -/
def Purpose.reads : Purpose → Bool
  | .read | .transition _ _ _ => true
  | _ => false

/-- The instruction belongs to a read that has seen the entry of the task, or has loaded it, and will access it. -/
def Instr.awaits (taskId : String) : Instr → Nat
  | .consume l _ _ _ | .leave l _ | .finish l _ => if l.taskId = taskId ∧ l.purpose.reads = true then 1 else 0
  | .readLoaded k _ => if k = taskId then 1 else 0
  | _ => 0

/-- The reads that expect the entry of a task. -/
def awaiting (t : System) (taskId : String) : Nat := total (Instr.awaits taskId) t.pool

/-- The instruction takes no entry away that a read expects. -/
def KeepsAwaited (t : System) (_ : Env) (x : Instr) : Prop := ∀ taskId ∈ x.removes t.shared, awaiting t taskId = 0

instance (t : System) (env : Env) (x : Instr) : Decidable (KeepsAwaited t env x) :=
  inferInstanceAs (Decidable (∀ _ ∈ _, _))

/-- The entries that the reads expect are there, and no read has missed one. -/
structure Present (t : System) : Prop where
  cached : ∀ taskId, awaiting t taskId ≠ 0 → taskId ∈ t.shared.cache.map
  calm : ∀ taskId, Act.panicked taskId ∉ t.trace

/-- A read that goes on from `ensure_projection`. -/
theorem awaits_ensured {sh : Shared} {taskId k : String} {purpose : Purpose} {committed : List Record} :
    weight (Instr.awaits k) (sh.ensured taskId purpose committed).next =
      if taskId = k ∧ purpose.reads = true then 1 else 0 := by
  cases purpose <;> simp [Shared.ensured, Instr.awaits, Purpose.reads]

theorem awaits_nextFrame (l : Load) (ref : Nat) (caughtUp : Finset Nat) (delivered : List Nat) (k : String) :
    (Shared.nextFrame l ref caughtUp delivered).awaits k = if l.taskId = k ∧ l.purpose.reads = true then 1 else 0 := by
  unfold Shared.nextFrame
  split <;> rfl

/-- A read starts to expect an entry that is there. -/
theorem awaits_exec {env : Env} {sh : Shared} {x : Instr} {k : String}
    (h : weight (Instr.awaits k) (sh.exec home env x).next ≠ 0) :
    x.awaits k ≠ 0 ∨ k ∈ (sh.exec home env x).shared.cache.map := by
  cases x with
  | catchUp taskId purpose committed =>
    simp only [Shared.exec] at h
    split at h <;> simp [Instr.awaits] at h
  | enter l =>
    simp only [Shared.exec, Shared.enter] at h ⊢
    rcases lookup_cases sh l.taskId with ⟨hl, -, -⟩ | ⟨ref, hl, hm⟩
    · rw [hl] at h ⊢
      simp only [weight_cons, weight_nil, Instr.awaits] at h
      refine Or.inr (Lru.mem_enter.mpr (Or.inl ?_))
      by_contra hne
      simp [Ne.symm hne] at h
    · rw [hl] at h ⊢
      simp only [weight_cons, weight_nil, Instr.awaits] at h
      refine Or.inr ?_
      by_cases hk : l.taskId = k
      · exact hk ▸ hm
      · simp [hk] at h
  | consume l ref caughtUp delivered =>
    refine Or.inl fun hz => h ?_
    have hnext : ∀ ref caughtUp delivered, (Shared.nextFrame l ref caughtUp delivered).awaits k = 0 := by
      intro ref caughtUp delivered
      rw [awaits_nextFrame]
      exact hz
    have hsame : ∀ ref caughtUp delivered, (Instr.consume l ref caughtUp delivered).awaits k = 0 := fun _ _ _ => hz
    have hleave : ∀ ref, (Instr.leave l ref).awaits k = 0 := fun _ => hz
    simp only [Shared.exec, Shared.consume]
    split <;> first
      | rfl
      | (split <;> simp only [weight_cons, weight_nil, hnext, hsame])
      | simp only [weight_cons, weight_nil, hnext, hleave]
  | leave l ref =>
    refine Or.inl fun hz => h ?_
    have hfinish : (Instr.finish l ref).awaits k = 0 := hz
    simp only [Shared.exec]
    split
    · rfl
    · simp only [weight_cons, weight_nil, hfinish]
  | finish l ref =>
    refine Or.inl fun hz => h ?_
    simp only [Shared.exec, Shared.finish, awaits_ensured]
    exact hz
  | ensureProjection taskId purpose =>
    simp only [Shared.exec, Shared.ensureProjection] at h ⊢
    rcases lookup_cases sh taskId with ⟨hl, -, -⟩ | ⟨ref, hl, hm⟩
    · rw [hl] at h
      simp [Instr.awaits] at h
    · rw [hl] at h ⊢
      simp only [awaits_ensured] at h
      refine Or.inr ?_
      by_cases hk : taskId = k
      · subst hk
        simpa [Shared.touch] using hm
      · simp [hk] at h
  | readLoaded taskId purpose =>
    simp only [Shared.exec, Shared.readLoaded] at h
    split at h
    · simp at h
    · cases purpose with
      | transition target eventType payload =>
        simp only at h
        split at h <;> simp [Instr.awaits] at h
      | _ => simp at h
  | writeEvent e =>
    simp only [Shared.exec, Shared.writeEvent] at h
    split at h
    · simp only at h
      split at h <;> simp [Instr.awaits] at h
    · simp at h
  | produce e current => simp only [Shared.exec, Shared.produce] at h; split at h <;> simp [Instr.awaits] at h
  | applyLocal e r => simp only [Shared.exec, Shared.applyLocal] at h; split at h <;> simp at h
  | _ => simp [Shared.exec] at h

/-- Only the access after `ensure_projection` panics, when the entry is gone. -/
theorem panicked_mem_exec {env : Env} {sh : Shared} {x : Instr} {taskId : String}
    (h : Act.panicked taskId ∈ (sh.exec home env x).acts) : x.awaits taskId ≠ 0 ∧ taskId ∉ sh.cache.map := by
  have huse : ∀ k, Act.panicked taskId ∉ sh.useOf k := fun k h => by
    unfold Shared.useOf at h
    split at h <;> simp at h
  have hens : ∀ (sh : Shared) k purpose committed, Act.panicked taskId ∉ (sh.ensured k purpose committed).acts :=
    fun _ _ purpose _ => by cases purpose <;> simp [Shared.ensured]
  cases x with
  | readLoaded k purpose =>
    simp only [Shared.exec, Shared.readLoaded] at h
    cases hst : sh.cachedState k with
    | none =>
      rw [hst] at h
      have hk : taskId = k := by simpa using h
      subst hk
      exact ⟨by simp [Instr.awaits], cachedState_eq_none.mp hst⟩
    | some state =>
      rw [hst] at h
      simp at h
  | finish l ref =>
    simp only [Shared.exec, Shared.finish, List.cons_append, List.mem_cons, List.mem_append, List.mem_map,
      reduceCtorEq, false_or, and_false, exists_false] at h
    exact absurd h (hens _ _ _ _)
  | get k => exact absurd h (huse k)
  | catchUp k purpose committed => simp only [Shared.exec] at h; split at h <;> simp at h
  | enter l => simp only [Shared.exec, Shared.enter] at h; split at h <;> simp at h
  | consume l ref caughtUp delivered =>
    simp only [Shared.exec, Shared.consume] at h
    split at h <;> first
      | (split at h <;> simp at h)
      | simp [Shared.failLoad] at h
  | leave l ref => simp only [Shared.exec] at h; split at h <;> simp [Shared.failLoad] at h
  | ensureProjection k purpose =>
    simp only [Shared.exec, Shared.ensureProjection] at h
    split at h
    · simp only [List.mem_cons, reduceCtorEq, false_or] at h
      exact absurd h (hens _ _ _ _)
    · simp at h
  | writeEvent e =>
    simp only [Shared.exec, Shared.writeEvent] at h
    split at h
    · exact absurd h (huse _)
    · simp at h
  | produce e current => simp only [Shared.exec, Shared.produce] at h; split at h <;> simp at h
  | applyLocal e r => simp only [Shared.exec, Shared.applyLocal] at h; split at h <;> simp at h
  | _ => simp [Shared.exec] at h

theorem awaits_entry {x : Instr} (h : x.isEntry = true) (taskId : String) : x.awaits taskId = 0 := by
  cases x <;> first
    | rfl
    | cases h

variable {t t' : System} {m : Move Instr Env} {k : Nat} {env : Env} {x : Instr} {rest : List Instr}

/-- A call that comes in expects no entry. -/
theorem Present.enter (h : Present t) (hx : x.isEntry = true) : Present { t with pool := t.pool ++ [[x]] } := by
  refine ⟨fun taskId hne => h.cached taskId fun hz => hne ?_, h.calm⟩
  have hadd : total (Instr.awaits taskId) (t.pool ++ [[x]]) = total (Instr.awaits taskId) t.pool := by
    rw [total_append, total_cons, weight_cons, awaits_entry hx]
    rfl
  exact hadd.trans hz

/-- **What one instruction preserves.** -/
theorem Present.exec (h : Present t) (hx : Executes (fun env sh x => Shared.exec home env sh x) t m t' k env x rest)
    (hc : KeepsAwaited t env x) : Present t' := by
  constructor
  · intro taskId hne
    have hbalance : awaiting t' taskId + x.awaits taskId =
        awaiting t taskId + weight (Instr.awaits taskId) (t.shared.exec home env x).next := by
      have := hx.total (Instr.awaits taskId)
      rw [exec_spawned] at this
      exact this
    have hle := hx.le_total (Instr.awaits taskId)
    rw [hx.shared]
    by_cases hold : awaiting t taskId = 0
    · -- the read has only just seen the entry
      unfold awaiting at hbalance hne hold
      have hseen : weight (Instr.awaits taskId) (t.shared.exec home env x).next ≠ 0 := by omega
      exact (awaits_exec hseen).resolve_left (by omega)
    · exact mem_exec (h.cached taskId hold) fun hr => hold (hc taskId hr)
  · intro taskId hp
    rw [hx.trace, List.mem_append, List.mem_reverse] at hp
    rcases hp with hp | hp
    · obtain ⟨hawaits, hgone⟩ := panicked_mem_exec hp
      have hle := hx.le_total (Instr.awaits taskId)
      refine hgone (h.cached taskId ?_)
      unfold awaiting
      omega
    · exact h.calm taskId hp

/-- **No read meets a vanished projection** in a run that takes no entry away while a read expects it: neither by an
invalidation nor by an eviction. -/
theorem never_panics {streams : String → List Record} {cap : Nat} {moves : List (Move Instr Env)}
    (hm : Meets (store home) (Executing KeepsAwaited) (System.start streams cap) moves) (taskId : String) :
    Act.panicked taskId ∉ (run (store home) (System.start streams cap) moves).trace := by
  have hstart : Present (System.start streams cap) := ⟨fun _ hne => absurd rfl hne, fun _ => List.not_mem_nil⟩
  exact (run_invariant Present (fun t m h hc => move_invariant_when hc h (fun x hx => h.enter hx)
    fun _ _ _ _ _ he hc => h.exec he hc) hstart hm).calm taskId

/-- Between the hit of a read and its access another client invalidates the projection. -/
def invalidatedRead : List (Move Instr Env) :=
  loadMoves "task_1" 0 ++
    [.enter (.ensureProjection "task_1" .read), .enter (.invalidate "task_1"), .exec 1 {}, .exec 2 {}, .exec 1 {}]

/-- Between the hit of a read and its access the load of another task evicts the projection. -/
def evictedRead : List (Move Instr Env) :=
  loadMoves "task_1" 0 ++
    .enter (.ensureProjection "task_1" .read) :: .exec 1 {} :: loadMoves "task_2" 2 ++ [.exec 1 {}]

/-- The act is the panic of a read of the task. -/
def Act.panics (taskId : String) : Act → Bool
  | .panicked k => k = taskId
  | _ => false

theorem panicked_mem_of_any {acts : List Act} {taskId : String} (h : acts.any (Act.panics taskId) = true) :
    Act.panicked taskId ∈ acts := by
  obtain ⟨act, hmem, hp⟩ := List.any_eq_true.mp h
  cases act with
  | panicked k =>
    have hk : k = taskId := by simpa [Act.panics] using hp
    exact hk ▸ hmem
  | _ => cases hp

/-- Both take away the projection that a read has just ensured. -/
theorem vanished_projection :
    Act.panicked "task_1" ∈ (run (store fun _ => 0) (System.start (fun _ => []) 2) invalidatedRead).trace ∧
      Act.panicked "task_1" ∈ (run (store fun _ => 0) (System.start (fun _ => []) 1) evictedRead).trace :=
  ⟨panicked_mem_of_any (by decide +kernel), panicked_mem_of_any (by decide +kernel)⟩

/-- The theorem at a read of a task and a load of another one, in a cache that has room for both. -/
theorem never_panics_two_tasks : Act.panicked "task_1" ∉
    (run (store fun _ => 0) (System.start (fun _ => []) 2) evictedRead).trace :=
  never_panics (by decide +kernel) "task_1"

end Fixus.Interleaved
