import Fixus.Interleaved.Machine

/-!
# What the calls do to the cache

- `Effect`, `exec_effect`: an instruction leaves the cache alone, accesses it, removes an entry, or is one of the two
  phases of a load or the end of a failed one;
- `mem_exec`: only invalidation and eviction take an entry away;
- `streams_exec`: only a write and the creation of a task append to a stream;
- `loading`: the loads of a task that have created or found their entry and are not finished.
-/

namespace Fixus.Interleaved

open Lib Lib.Eff

/-- The instruction belongs to a load of the task that has its entry. -/
def Instr.loads (taskId : String) : Instr → Nat
  | .consume l _ _ _ | .leave l _ | .finish l _ => if l.taskId = taskId then 1 else 0
  | _ => 0

/-- The loads of a task that have their entry. -/
def loading (t : System) (taskId : String) : Nat := total (Instr.loads taskId) t.pool

/-- The task whose entry the instruction looks up or takes away. -/
def Instr.accessed : Instr → Option String
  | .get taskId | .invalidate taskId | .ensureProjection taskId _ | .readLoaded taskId _ => some taskId
  | .writeEvent e =>
    match e.validateScope, validatePayloadRequiredFields e.eventType e.payload with
    | .ok (), .ok () => some e.taskId
    | _, _ => none
  | .applyLocal e _ => some e.taskId
  | _ => none

/-- The load breaks off with an error after its entry has been created. -/
def Instr.breaksOff (env : Env) : Instr → Bool
  | .consume _ _ _ _ => env.delivery = .err
  | .leave _ _ => env.leaveErr
  | _ => false

/-- The entries that the instruction takes away. -/
def Instr.removes (sh : Shared) : Instr → List String
  | .invalidate taskId => [taskId]
  | .finish l _ => sh.cache.victims l.taskId
  | _ => []

/-- The tasks that were used, in the order of the acts. -/
def uses (acts : List Act) : List String :=
  acts.filterMap fun
    | .used taskId => some taskId
    | _ => none

@[simp] theorem uses_append (as bs : List Act) : uses (as ++ bs) = uses as ++ uses bs := List.filterMap_append ..

@[simp] theorem uses_reverse (as : List Act) : uses as.reverse = (uses as).reverse := List.filterMap_reverse ..

@[simp] theorem uses_ensured (sh : Shared) (taskId : String) (purpose : Purpose) (committed : List Record) :
    uses (sh.ensured taskId purpose committed).acts = [] := by cases purpose <;> rfl

@[simp] theorem ensured_shared (sh : Shared) (taskId : String) (purpose : Purpose) (committed : List Record) :
    (sh.ensured taskId purpose committed).shared = sh := by cases purpose <;> rfl

@[simp] theorem weight_loads_ensured (sh : Shared) (taskId k : String) (purpose : Purpose) (committed : List Record) :
    weight (Instr.loads k) (sh.ensured taskId purpose committed).next = 0 := by cases purpose <;> rfl

theorem uses_useOf (sh : Shared) (taskId : String) :
    uses (sh.useOf taskId) = if taskId ∈ sh.cache.map then [taskId] else [] := by
  unfold Shared.useOf
  by_cases h : taskId ∈ sh.cache.map
  · rw [if_pos h, if_pos (Finmap.lookup_isSome.mpr h)]
    rfl
  · rw [if_neg h, if_neg (by rwa [Finmap.lookup_isSome])]
    rfl

/-- What an instruction does to the cache. -/
inductive Effect (sh : Shared) (env : Env) (x : Instr) (out : Outcome Shared Instr Act) : Prop
  | keep (cache : out.shared.cache = sh.cache) (loads : ∀ k, weight (Instr.loads k) out.next = x.loads k)
      (uses : uses out.acts = [])
  | access (taskId : String) (accessed : x.accessed = some taskId) (cache : out.shared.cache = (sh.cache.get taskId).2)
      (before : ∀ k, x.loads k = 0) (loads : ∀ k, weight (Instr.loads k) out.next = 0)
      (uses : uses out.acts = if taskId ∈ sh.cache.map then [taskId] else [])
  | invalidate (taskId : String) (eq : x = .invalidate taskId) (cache : out.shared.cache = sh.cache.invalidate taskId)
      (loads : ∀ k, weight (Instr.loads k) out.next = 0) (uses : uses out.acts = [])
  | enter (l : Load) (ref : Nat) (eq : x = .enter l) (cache : out.shared.cache = sh.cache.enter l.taskId ref)
      (loads : ∀ k, weight (Instr.loads k) out.next = if l.taskId = k then 1 else 0) (uses : uses out.acts = [])
  | breakOff (fails : x.breaksOff env = true) (cache : out.shared.cache = sh.cache)
      (loads : ∀ k, weight (Instr.loads k) out.next = 0) (uses : uses out.acts = [])
  | finish (l : Load) (ref : Nat) (eq : x = .finish l ref) (cache : out.shared.cache = sh.cache.finish l.taskId)
      (loads : ∀ k, weight (Instr.loads k) out.next = 0) (uses : uses out.acts = [l.taskId])

variable {home : String → Nat} {env : Env} {sh : Shared}

theorem loads_nextFrame (l : Load) (ref : Nat) (caughtUp : Finset Nat) (delivered : List Nat) (k : String) :
    (Shared.nextFrame l ref caughtUp delivered).loads k = if l.taskId = k then 1 else 0 := by
  unfold Shared.nextFrame
  split <;> rfl

/-- A frame leaves the cache alone, and ends the load only with an error. -/
theorem consume_effect (l : Load) (ref : Nat) (caughtUp : Finset Nat) (delivered : List Nat) :
    Effect sh env (.consume l ref caughtUp delivered) (Shared.consume home env sh l ref caughtUp delivered) := by
  unfold Shared.consume
  cases hd : env.delivery with
  | record i =>
    simp only
    cases (sh.streams l.taskId)[i]? with
    | none => exact .keep rfl (fun k => by simp) rfl
    | some r => exact .keep rfl (fun k => by rw [weight_cons, weight_nil, loads_nextFrame]; rfl) rfl
  | caughtUp shard =>
    simp only
    split
    · exact .keep rfl (fun k => by simp) rfl
    · exact .keep rfl (fun k => by rw [weight_cons, weight_nil, loads_nextFrame]; rfl) rfl
  | notice => exact .keep rfl (fun k => by rw [weight_cons, weight_nil, loads_nextFrame]; rfl) rfl
  | err => exact .breakOff (by simp [Instr.breaksOff, hd]) rfl (fun k => rfl) rfl
  | stop => exact .keep rfl (fun k => by simp [Instr.loads]) rfl

/-- An access to the cache by one of the reads and writes. -/
theorem lookup_cases (sh : Shared) (taskId : String) :
    (sh.cache.map.lookup taskId = none ∧ taskId ∉ sh.cache.map ∧ (sh.cache.get taskId).2 = sh.cache) ∨
    ∃ ref, sh.cache.map.lookup taskId = some ref ∧ taskId ∈ sh.cache.map := by
  cases hl : sh.cache.map.lookup taskId with
  | none => exact Or.inl ⟨rfl, Finmap.lookup_eq_none.mp hl, by simp [Lru.get, hl]⟩
  | some ref => exact Or.inr ⟨ref, rfl, Finmap.mem_of_lookup_eq_some hl⟩

/-- The cached state is known for the cached tasks. -/
theorem cachedState_eq_none {taskId : String} : sh.cachedState taskId = none ↔ taskId ∉ sh.cache.map := by
  unfold Shared.cachedState Shared.found
  rw [Option.map_eq_none_iff, Option.map_eq_none_iff, Finmap.lookup_eq_none]

/-- **What an instruction does to the cache.** -/
theorem exec_effect (home : String → Nat) (env : Env) (sh : Shared) (x : Instr) :
    Effect sh env x (sh.exec home env x) := by
  cases x with
  | get taskId => exact .access taskId rfl rfl (fun _ => rfl) (fun _ => rfl) (uses_useOf sh taskId)
  | invalidate taskId => exact .invalidate taskId rfl rfl (fun _ => rfl) rfl
  | catchUp taskId purpose committed =>
    cases hsession : env.session <;> simp only [Shared.exec, hsession] <;> exact .keep rfl (fun _ => rfl) rfl
  | enter l =>
    show Effect sh env _ (sh.enter l)
    unfold Shared.enter
    rcases lookup_cases sh l.taskId with ⟨hl, -, -⟩ | ⟨ref, hl, -⟩
    · rw [hl]
      exact .enter l _ rfl rfl (fun k => by simp [Instr.loads]) rfl
    · rw [hl]
      exact .enter l ref rfl (by simp [Lru.enter, hl]) (fun k => by simp [Instr.loads]) rfl
  | consume l ref caughtUp delivered => exact consume_effect l ref caughtUp delivered
  | leave l ref =>
    show Effect sh env _ (if env.leaveErr then sh.failLoad l else { shared := sh, next := [.finish l ref] })
    by_cases h : env.leaveErr = true
    · rw [if_pos h]
      exact .breakOff h rfl (fun _ => rfl) rfl
    · rw [if_neg h]
      exact .keep rfl (fun k => by simp [Instr.loads]) rfl
  | finish l ref =>
    refine .finish l ref rfl (by simp [Shared.exec, Shared.finish]) (fun k => by simp [Shared.exec, Shared.finish]) ?_
    have hev : ∀ ks : List String, uses (ks.map Act.evicted) = [] := fun ks => by simp [uses]
    have hcons : ∀ as : List Act, uses (.used l.taskId :: as) = l.taskId :: uses as := fun _ => rfl
    simp [Shared.exec, Shared.finish, hcons, hev]
  | ensureProjection taskId purpose =>
    show Effect sh env _ (sh.ensureProjection taskId purpose)
    unfold Shared.ensureProjection
    rcases lookup_cases sh taskId with ⟨hl, hm, hc⟩ | ⟨ref, hl, hm⟩
    · rw [hl]
      exact .access taskId rfl hc.symm (fun _ => rfl) (fun _ => rfl) (by rw [if_neg hm]; rfl)
    · rw [hl]
      have hcons : ∀ as : List Act, uses (.used taskId :: as) = taskId :: uses as := fun _ => rfl
      exact .access taskId rfl (by simp [Shared.touch]) (fun _ => rfl) (fun k => by simp)
        (by rw [if_pos hm, hcons, uses_ensured])
  | readLoaded taskId purpose =>
    show Effect sh env _ (sh.readLoaded taskId purpose)
    unfold Shared.readLoaded
    cases hst : sh.cachedState taskId with
    | none =>
      have hm := cachedState_eq_none.mp hst
      rcases lookup_cases sh taskId with ⟨hl, -, hc⟩ | ⟨ref, -, hm'⟩
      · exact .access taskId rfl hc.symm (fun _ => rfl) (fun _ => rfl) (by rw [if_neg hm]; rfl)
      · exact absurd hm' hm
    | some state =>
      have hm : taskId ∈ sh.cache.map := by
        by_contra hm
        rw [cachedState_eq_none.mpr hm] at hst
        cases hst
      refine .access taskId rfl rfl (fun _ => rfl) (fun k => ?_) (by rw [if_pos hm]; rfl)
      cases purpose with
      | transition target eventType payload =>
        simp only
        split <;> rfl
      | _ => rfl
  | writeEvent e =>
    show Effect sh env _ (sh.writeEvent e)
    unfold Shared.writeEvent
    cases hs : e.validateScope with
    | error msg => exact .keep rfl (fun _ => rfl) rfl
    | ok u =>
      cases hp : validatePayloadRequiredFields e.eventType e.payload with
      | error err => exact .keep rfl (fun _ => rfl) rfl
      | ok u =>
        refine .access e.taskId (by simp [Instr.accessed, hs, hp]) rfl (fun _ => rfl) (fun k => ?_) (uses_useOf sh _)
        simp only
        split <;> rfl
  | produce e current =>
    show Effect sh env _ (Shared.produce env sh e)
    unfold Shared.produce
    split <;> exact .keep rfl (fun _ => rfl) rfl
  | applyLocal e r =>
    show Effect sh env _ (sh.applyLocal e r)
    unfold Shared.applyLocal
    rcases lookup_cases sh e.taskId with ⟨hl, hm, hc⟩ | ⟨ref, hl, hm⟩
    · rw [hl]
      exact .access e.taskId rfl hc.symm (fun _ => rfl) (fun _ => rfl) (by rw [if_neg hm]; rfl)
    · rw [hl]
      exact .access e.taskId rfl rfl (fun _ => rfl) (fun _ => rfl) (by rw [if_pos hm]; rfl)
  | createTask uuid taskType provenance body priority effectivePolicy => exact .keep rfl (fun _ => rfl) rfl

/-- **Only invalidation and eviction take an entry away.** -/
theorem mem_exec {x : Instr} {taskId : String} (h : taskId ∈ sh.cache.map) (hr : taskId ∉ x.removes sh) :
    taskId ∈ (sh.exec home env x).shared.cache.map := by
  cases exec_effect home env sh x with
  | keep cache => rw [cache]; exact h
  | access k _ cache => rw [cache, Lru.get_map]; exact h
  | invalidate k eq cache =>
    subst eq
    rw [cache]
    exact Lru.mem_invalidate.mpr ⟨by simpa [Instr.removes] using hr, h⟩
  | enter l ref _ cache => rw [cache]; exact Lru.mem_enter.mpr (Or.inr h)
  | breakOff _ cache => rw [cache]; exact h
  | finish l ref eq cache =>
    subst eq
    rw [cache]
    exact Lru.mem_finish.mpr ⟨hr, h⟩

/-- No instruction starts another call. -/
theorem exec_spawned (home : String → Nat) (env : Env) (sh : Shared) (x : Instr) :
    (sh.exec home env x).spawned = [] := by
  have hens : ∀ (sh : Shared) taskId purpose committed, (sh.ensured taskId purpose committed).spawned = [] :=
    fun _ _ purpose _ => by cases purpose <;> rfl
  cases x with
  | catchUp taskId purpose committed => unfold Shared.exec; cases env.session <;> rfl
  | enter l => simp only [Shared.exec, Shared.enter]; split <;> rfl
  | consume l ref caughtUp delivered =>
    simp only [Shared.exec, Shared.consume]
    split <;> first
      | rfl
      | (split <;> rfl)
  | leave l ref => simp only [Shared.exec]; split <;> rfl
  | finish l ref => exact hens _ _ _ _
  | ensureProjection taskId purpose =>
    simp only [Shared.exec, Shared.ensureProjection]
    split
    · exact hens _ _ _ _
    · rfl
  | readLoaded taskId purpose => simp only [Shared.exec, Shared.readLoaded]; split <;> rfl
  | writeEvent e => simp only [Shared.exec, Shared.writeEvent]; split <;> rfl
  | produce e current => simp only [Shared.exec, Shared.produce]; split <;> rfl
  | applyLocal e r => simp only [Shared.exec, Shared.applyLocal]; split <;> rfl
  | _ => rfl

/-- What an instruction does to the streams: nothing, or it appends the record of a write, which waits to be applied,
or the first record of a created task. -/
theorem streams_exec (home : String → Nat) (env : Env) (sh : Shared) (x : Instr) :
    (sh.exec home env x).shared.streams = sh.streams ∨
    (∃ e current seq, x = .produce e current ∧
      (sh.exec home env x).next = [.applyLocal e (BrokerStore.recordOf seq e)] ∧
      (sh.exec home env x).shared.streams =
        Function.update sh.streams e.taskId (sh.streams e.taskId ++ [BrokerStore.recordOf seq e])) ∨
    ∃ uuid taskType provenance body priority effectivePolicy, ∃ r : Record,
      x = .createTask uuid taskType provenance body priority effectivePolicy ∧
      r.eventType = EventType.taskCreated.asStr ∧
      (sh.exec home env x).shared.streams =
        Function.update sh.streams (createdId uuid) (sh.streams (createdId uuid) ++ [r]) := by
  cases x with
  | produce e current =>
    have hspec : wp (BrokerStore.produce e.taskId e.eventType.asStr e.payload (BrokerStore.eventMeta e))
        (fun seq s => s.streams =
          Function.update sh.streams e.taskId (sh.streams e.taskId ++ [BrokerStore.recordOf seq e]))
        (fun _ s => s.streams = sh.streams) (sh.broker env) :=
      BrokerStore.wp_produce (fun _ _ _ hs _ _ _ => hs) fun _ _ _ hs _ _ => hs
    rcases wp_cases hspec with ⟨seq, s, heq, hs⟩ | ⟨msg, s, heq, hs⟩
    · exact Or.inr (Or.inl ⟨e, current, seq, rfl, by simp [Shared.exec, Shared.produce, heq],
        by simp [Shared.exec, Shared.produce, heq, hs]⟩)
    · exact Or.inl (by simp [Shared.exec, Shared.produce, heq])
  | createTask uuid taskType provenance body priority effectivePolicy =>
    rcases wp_cases (createTask_spec uuid taskType provenance body priority effectivePolicy (sh.broker env)) with
      ⟨_, s, heq, -, -, r, hr, hs⟩ | ⟨_, s, heq, -, -, hs⟩
    · refine Or.inr (Or.inr ⟨uuid, taskType, provenance, body, priority, effectivePolicy, r, rfl, hr, ?_⟩)
      simp only [Shared.exec, Call.after, heq]
      exact hs
    · refine Or.inl ?_
      simp only [Shared.exec, Call.after, heq]
      exact hs
  | catchUp taskId purpose committed => exact Or.inl (by simp only [Shared.exec]; split <;> rfl)
  | enter l => exact Or.inl (by simp only [Shared.exec, Shared.enter]; split <;> rfl)
  | consume l ref caughtUp delivered =>
    refine Or.inl ?_
    simp only [Shared.exec, Shared.consume]
    split <;> first
      | rfl
      | (split <;> rfl)
  | leave l ref => exact Or.inl (by simp only [Shared.exec]; split <;> rfl)
  | finish l ref => exact Or.inl (by simp [Shared.exec, Shared.finish])
  | ensureProjection taskId purpose =>
    refine Or.inl ?_
    simp only [Shared.exec, Shared.ensureProjection]
    split
    · simp [Shared.touch]
    · rfl
  | readLoaded taskId purpose => exact Or.inl (by simp only [Shared.exec, Shared.readLoaded]; split <;> rfl)
  | writeEvent e => exact Or.inl (by simp only [Shared.exec, Shared.writeEvent]; split <;> rfl)
  | applyLocal e r => exact Or.inl (by simp only [Shared.exec, Shared.applyLocal]; split <;> rfl)
  | _ => exact Or.inl rfl

/-- Only the end of a load evicts. -/
theorem evicted_mem_exec {x : Instr} {taskId : String} (h : Act.evicted taskId ∈ (sh.exec home env x).acts) :
    ∃ l ref, x = .finish l ref ∧ taskId ∈ sh.cache.victims l.taskId := by
  have huse : ∀ k, Act.evicted taskId ∉ sh.useOf k := fun k h => by
    unfold Shared.useOf at h
    split at h <;> simp at h
  have hens : ∀ (sh : Shared) k purpose committed, Act.evicted taskId ∉ (sh.ensured k purpose committed).acts :=
    fun _ _ purpose _ => by cases purpose <;> simp [Shared.ensured]
  cases x with
  | finish l ref =>
    simp only [Shared.exec, Shared.finish, List.cons_append, List.mem_cons, List.mem_append, List.mem_map,
      reduceCtorEq, false_or] at h
    rcases h with ⟨k, hk, heq⟩ | h
    · cases heq; exact ⟨l, ref, rfl, hk⟩
    · exact absurd h (hens _ _ _ _)
  | get k => exact absurd h (huse k)
  | catchUp k purpose committed => simp only [Shared.exec] at h; split at h <;> simp at h
  | enter l => simp only [Shared.exec, Shared.enter] at h; split at h <;> simp at h
  | consume l ref caughtUp delivered =>
    simp only [Shared.exec, Shared.consume] at h
    split at h <;> first
      | (split at h <;> simp at h)
      | simp [Shared.failLoad] at h
  | leave l ref => simp only [Shared.exec] at h; split at h <;> simp [Shared.failLoad] at h
  | ensureProjection k purpose =>
    simp only [Shared.exec, Shared.ensureProjection] at h
    split at h
    · simp only [List.mem_cons, reduceCtorEq, false_or] at h
      exact absurd h (hens _ _ _ _)
    · simp at h
  | readLoaded k purpose => simp only [Shared.exec, Shared.readLoaded] at h; split at h <;> simp at h
  | writeEvent e =>
    simp only [Shared.exec, Shared.writeEvent] at h
    split at h
    · exact absurd h (huse _)
    · simp at h
  | produce e current => simp only [Shared.exec, Shared.produce] at h; split at h <;> simp at h
  | applyLocal e r => simp only [Shared.exec, Shared.applyLocal] at h; split at h <;> simp at h
  | _ => simp [Shared.exec] at h

/-- A call that comes in has no entry yet. -/
theorem loads_entry {x : Instr} (h : x.isEntry = true) (taskId : String) : x.loads taskId = 0 := by
  cases x <;> first
    | rfl
    | cases h

section Moves

variable {t t' : System} {m : Move Instr Env} {k : Nat} {x : Instr} {rest : List Instr}

/-- The loads of a task over the execution of an instruction. -/
theorem loading_exec (h : Executes (fun env sh x => Shared.exec home env sh x) t m t' k env x rest) (taskId : String) :
    loading t' taskId + x.loads taskId =
      loading t taskId + weight (Instr.loads taskId) (t.shared.exec home env x).next := by
  have hbalance := h.total (Instr.loads taskId)
  rw [exec_spawned] at hbalance
  exact hbalance

/-- The uses over the execution of an instruction. -/
theorem uses_exec (h : Executes (fun env sh x => Shared.exec home env sh x) t m t' k env x rest) :
    uses t'.trace = (uses (t.shared.exec home env x).acts).reverse ++ uses t.trace := by
  rw [h.trace, uses_append, uses_reverse]

end Moves

end Fixus.Interleaved
