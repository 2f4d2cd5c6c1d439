import Fixus.Interleaved.Effects

/-!
# The order of use

- `Undisturbed`: nothing interferes with a load between the creation of its entry and its end, and no such load fails;
- `InOrder.step`: the invariant of the cache, one step;
- `cache_consistent`: in every run of undisturbed loads the cache is consistent whenever it is at rest, and evicts the
  least recently used task;
- `double_load`: two loads of one task.
-/

namespace Fixus.Interleaved

open Lib

variable {home : String → Nat}

/-- The instruction does not interfere with a load: it enters no entry that is there, breaks off no load, and neither
looks up nor takes away an entry that is being loaded. -/
def LeavesLoadsAlone (t : System) (env : Env) (x : Instr) : Prop :=
  match x with
  | .enter l => l.taskId ∉ t.shared.cache.map
  | _ => x.breaksOff env = false ∧ ∀ taskId ∈ x.accessed, taskId ∈ t.shared.cache.map → loading t taskId = 0

instance (t : System) (env : Env) (x : Instr) : Decidable (LeavesLoadsAlone t env x) := by
  unfold LeavesLoadsAlone
  split <;> infer_instance

/-- Every executed instruction leaves the loads alone. -/
def Undisturbed (t : System) (m : Move Instr Env) : Prop := Executing LeavesLoadsAlone t m

instance (t : System) (m : Move Instr Env) : Decidable (Undisturbed t m) :=
  inferInstanceAs (Decidable (Executing _ t m))

/-- The cache is consistent but for the tasks being loaded, each by one load, and its order is that of the uses. -/
structure InOrder (t : System) : Prop where
  ok : t.shared.cache.Ok fun k => loading t k ≠ 0
  one : ∀ k, loading t k ≤ 1
  recent : Lru.Recent (uses t.trace) t.shared.cache.order

/-- The evictions of a move took tasks that were not used since any other task that stays, loads in progress apart. -/
def EvictsOldest (home : String → Nat) (t : System) (m : Move Instr Env) (t' : System) : Prop :=
  ∀ k, Act.evicted k ∈ actsOf home t m → ∀ k' ∈ t'.shared.cache.map.keys, loading t' k' = 0 →
    (uses t'.trace).idxOf k' < (uses t'.trace).idxOf k

theorem InOrder.start (streams : String → List Record) (cap : Nat) : InOrder (System.start streams cap) where
  ok := ⟨List.nodup_nil, fun _ => ⟨nofun, fun h => absurd h.1 Finmap.notMem_empty⟩,
    fun _ hk => absurd rfl hk, Nat.zero_le _⟩
  one := fun _ => Nat.zero_le _
  recent := ⟨List.Pairwise.nil, nofun⟩

section Step

variable {t t' : System} {m : Move Instr Env} {k : Nat} {env : Env} {x : Instr} {rest : List Instr}

theorem LeavesLoadsAlone.breaksOff (h : LeavesLoadsAlone t env x) : x.breaksOff env = false := by
  cases x with
  | enter l => rfl
  | _ => exact h.1

theorem LeavesLoadsAlone.accessed (h : LeavesLoadsAlone t env x) {taskId : String} (ha : x.accessed = some taskId)
    (hm : taskId ∈ t.shared.cache.map) : loading t taskId = 0 := by
  cases x with
  | enter l => cases ha
  | _ => exact h.2 taskId ha hm

/-- **What one instruction preserves.** -/
theorem InOrder.exec (h : InOrder t) (hx : Executes (fun env sh x => Shared.exec home env sh x) t m t' k env x rest)
    (hc : LeavesLoadsAlone t env x) : InOrder t' := by
  have hload := loading_exec hx
  have huses := uses_exec hx
  have hshared : t'.shared.cache = (t.shared.exec home env x).shared.cache := congrArg Shared.cache hx.shared
  cases exec_effect home env t.shared x with
  | keep cache loads uses =>
    have hsame : ∀ taskId, loading t' taskId = loading t taskId := fun taskId => by
      have := hload taskId
      rw [loads] at this
      omega
    rw [uses] at huses
    exact ⟨by rw [hshared, cache]; exact h.ok.congr fun k => by rw [hsame], fun k => hsame k ▸ h.one k,
      by rw [hshared, cache, huses]; exact h.recent⟩
  | access taskId accessed cache before loads uses =>
    have hsame : ∀ taskId, loading t' taskId = loading t taskId := fun taskId => by
      have := hload taskId
      rw [loads, before] at this
      omega
    have hfree : taskId ∈ t.shared.cache.map → ¬ loading t taskId ≠ 0 := fun hm => by
      have := hc.accessed accessed hm
      omega
    refine ⟨by rw [hshared, cache]; exact (h.ok.get hfree).congr fun k => by rw [hsame], fun k => hsame k ▸ h.one k, ?_⟩
    rw [hshared, cache, huses, uses, (Lru.get_eq _ _).2.2.2]
    by_cases hm : taskId ∈ t.shared.cache.map
    · rw [if_pos hm, if_pos (Finmap.lookup_isSome.mpr hm)]
      exact h.recent.use taskId
    · rw [if_neg hm, if_neg (by rwa [Finmap.lookup_isSome])]
      exact h.recent
  | invalidate taskId eq cache loads uses =>
    subst eq
    have hsame : ∀ taskId, loading t' taskId = loading t taskId := fun k => by
      have := hload k
      rw [loads] at this
      simpa [Instr.loads] using this
    have hfree : taskId ∈ t.shared.cache.map → ¬ loading t taskId ≠ 0 := fun hm => by
      have := hc.accessed rfl hm
      omega
    rw [uses] at huses
    refine ⟨by rw [hshared, cache]; exact (h.ok.invalidate hfree).congr fun k => by rw [hsame],
      fun k => hsame k ▸ h.one k, ?_⟩
    rw [hshared, cache, huses]
    exact h.recent.sublist List.filter_sublist
  | enter l ref eq cache loads uses =>
    subst eq
    have hnew : l.taskId ∉ t.shared.cache.map := hc
    have hzero : loading t l.taskId = 0 := by
      by_contra hne
      exact hnew (h.ok.busy_mem _ hne)
    have hadd : ∀ k, loading t' k = loading t k + if l.taskId = k then 1 else 0 := fun k => by
      have := hload k
      rw [loads] at this
      simpa [Instr.loads] using this
    rw [uses] at huses
    refine ⟨?_, fun k => ?_, ?_⟩
    · rw [hshared, cache]
      refine (h.ok.enter hnew ref).congr fun k => ?_
      rw [hadd]
      by_cases hk : l.taskId = k
      · simp [hk]
      · simp [hk, Ne.symm hk]
    · rw [hadd]
      by_cases hk : l.taskId = k
      · subst hk; simp [hzero]
      · simpa [hk] using h.one k
    · have horder : (t.shared.cache.enter l.taskId ref).order = t.shared.cache.order := by
        unfold Lru.enter
        cases t.shared.cache.map.lookup l.taskId <;> rfl
      rw [hshared, cache, huses, horder]
      exact h.recent
  | breakOff fails => rw [hc.breaksOff] at fails; cases fails
  | finish l ref eq cache loads uses =>
    subst eq
    have hsub : ∀ k, loading t' k + (if l.taskId = k then 1 else 0) = loading t k := fun k => by
      have := hload k
      rw [loads] at this
      simpa [Instr.loads] using this
    have hbusy : loading t l.taskId ≠ 0 := by
      have := hsub l.taskId
      rw [if_pos rfl] at this
      omega
    have hnot : l.taskId ∉ t.shared.cache.order := fun hm => ((h.ok.mem_order _).mp hm).2 hbusy
    rw [uses] at huses
    refine ⟨?_, fun k => ?_, ?_⟩
    · rw [hshared, cache]
      refine (h.ok.finish hbusy).congr fun k => ?_
      have hk' := hsub k
      have hone := h.one k
      by_cases hk : l.taskId = k
      · subst hk
        rw [if_pos rfl] at hk'
        simp only [ne_eq, not_true_eq_false, and_false, iff_false]
        omega
      · rw [if_neg hk] at hk'
        simp only [ne_eq, Ne.symm hk, not_false_eq_true, and_true]
        omega
    · have := hsub k
      have := h.one k
      omega
    · rw [hshared, cache, huses, (Lru.finish_eq _ _).1]
      exact (h.recent.push hnot).sublist (List.drop_sublist _ _)

/-- A call that comes in has no load in progress. -/
theorem InOrder.enter (h : InOrder t) (hx : x.isEntry = true) : InOrder { t with pool := t.pool ++ [[x]] } := by
  have hsame : ∀ taskId, loading { t with pool := t.pool ++ [[x]] } taskId = loading t taskId := fun taskId => by
    unfold loading
    rw [total_append, total_cons, weight_cons, loads_entry hx]
    rfl
  exact ⟨h.ok.congr fun k => by rw [hsame], fun k => hsame k ▸ h.one k, h.recent⟩

/-- What one move preserves. -/
theorem InOrder.step (h : InOrder t) (hm : Undisturbed t m) : InOrder (store home t m) :=
  move_invariant_when hm h (fun _ hx => h.enter hx) fun _ _ _ _ _ he hc => h.exec he hc

/-- The evictions of one move. -/
theorem InOrder.evictsOldest (h : InOrder t) (hm : Undisturbed t m) : EvictsOldest home t m (store home t m) := by
  intro victim hv k' hk' hidle
  have hnext : InOrder (store home t m) := h.step hm
  obtain ⟨k, env, x, rest, he, hact⟩ := mem_acts hv
  obtain ⟨l, ref, rfl, hvictim⟩ := evicted_mem_exec hact
  have hcache : (store home t m).shared.cache = t.shared.cache.finish l.taskId := by
    have heq : (store home t m).shared = (t.shared.exec home env (.finish l ref)).shared := he.shared
    rw [heq]
    simp [Shared.exec, Shared.finish]
  have huses : uses (store home t m).trace = l.taskId :: uses t.trace := by
    have heq := uses_exec he
    cases exec_effect home env t.shared (.finish l ref) with
    | finish l' ref' eq cache loads uses =>
      cases eq
      rw [uses] at heq
      exact heq
    | breakOff fails => cases fails
    | keep cache loads => have := loads l.taskId; simp [Instr.loads, Shared.exec, Shared.finish] at this
    | access taskId accessed => cases accessed
    | invalidate taskId eq => cases eq
    | enter l' ref' eq => cases eq
  have hbusy : loading t l.taskId ≠ 0 := by
    have hle := he.le_total (Instr.loads l.taskId)
    simp only [Instr.loads, if_true] at hle
    unfold loading
    omega
  have hnot : l.taskId ∉ t.shared.cache.order := fun hm => ((h.ok.mem_order _).mp hm).2 hbusy
  have hplace : k' ∈ (store home t m).shared.cache.order :=
    (hnext.ok.mem_order k').mpr ⟨Finmap.mem_keys.mp hk', by omega⟩
  rw [hcache] at hplace
  rw [huses]
  exact h.recent.evicted hnot hvictim hplace

end Step

/-- The order queue lists the tasks of the map, each once, and the map is within its capacity. -/
structure Consistent (c : Lru String Nat) : Prop where
  nodup : c.order.Nodup
  keys : c.order.toFinset = c.map.keys
  size : c.map.keys.card ≤ c.cap

/-- **The cache under concurrency.** In every run of undisturbed loads, for every capacity: whenever no load has an
entry in progress the cache is consistent, and every eviction took the least recently used task. -/
theorem cache_consistent {streams : String → List Record} {cap : Nat} {moves : List (Move Instr Env)}
    (hm : Meets (store home) Undisturbed (System.start streams cap) moves) :
    ((∀ taskId, loading (run (store home) (System.start streams cap) moves) taskId = 0) →
      Consistent (run (store home) (System.start streams cap) moves).shared.cache) ∧
    Along (store home) (EvictsOldest home) (System.start streams cap) moves := by
  have hstart := InOrder.start streams cap
  refine ⟨fun hrest => ?_, along_of_invariant InOrder (fun t m => InOrder.step) (fun t m => InOrder.evictsOldest)
    hstart hm⟩
  have hend := run_invariant InOrder (fun t m => InOrder.step) hstart hm
  obtain ⟨hnodup, hkeys, hsize⟩ := hend.ok.atRest fun k => by simp [hrest k]
  exact ⟨hnodup, hkeys, hsize⟩

/-- A load by itself, on a shard that has caught up at once. -/
def loadMoves (taskId : String) (k : Nat) : List (Move Instr Env) :=
  [.enter (.catchUp taskId .load []), .exec k {}, .exec k {}, .exec k { delivery := .caughtUp 0 },
    .exec k {}, .exec k {}]

/-- The theorem at two loads, one after the other, of which the second evicts the first. -/
theorem cache_consistent_two_loads : Consistent
    (run (store fun _ => 0) (System.start (fun _ => []) 1)
    (loadMoves "task_1" 0 ++ loadMoves "task_2" 1)).shared.cache := by
  have hm : Meets (store fun _ => 0) Undisturbed (System.start (fun _ => []) 1)
      (loadMoves "task_1" 0 ++ loadMoves "task_2" 1) := by decide +kernel
  refine (cache_consistent hm).1 fun taskId => ?_
  have hpool : (run (store fun _ => 0) (System.start (fun _ => []) 1)
      (loadMoves "task_1" 0 ++ loadMoves "task_2" 1)).pool.all List.isEmpty = true := by decide +kernel
  refine Nat.eq_zero_of_le_zero (Nat.le_of_eq ?_)
  unfold loading total
  refine List.sum_eq_zero fun n hn => ?_
  obtain ⟨stack, hs, rfl⟩ := List.mem_map.mp hn
  rw [List.isEmpty_iff.mp (List.all_eq_true.mp hpool stack hs)]
  rfl

/-- Two loads of one task at the same time, each phase of both before the next phase. -/
def doubleLoad : List (Move Instr Env) :=
  [.enter (.catchUp "task_1" .load []), .enter (.catchUp "task_1" .load []), .exec 0 {}, .exec 1 {}, .exec 0 {},
    .exec 1 {}, .exec 0 { delivery := .caughtUp 0 }, .exec 1 { delivery := .caughtUp 0 }, .exec 0 {}, .exec 1 {},
    .exec 0 {}, .exec 1 {}]

/-- Two loads of one task leave it twice in the order queue. -/
theorem double_load :
    let t := run (store fun _ => 0) (System.start (fun _ => []) 2) doubleLoad
    t.pool.all List.isEmpty = true ∧ t.shared.cache.order = ["task_1", "task_1"] ∧
      t.shared.cache.map.keys = {"task_1"} ∧ ¬ Consistent t.shared.cache := by
  intro t
  have horder : t.shared.cache.order = ["task_1", "task_1"] := by decide +kernel
  refine ⟨by decide +kernel, horder, by decide +kernel, fun h => ?_⟩
  have hnodup := h.nodup
  rw [horder] at hnodup
  exact absurd hnodup (by decide)

end Fixus.Interleaved
