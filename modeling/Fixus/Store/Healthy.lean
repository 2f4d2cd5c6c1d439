import Fixus.Store.Calls

/-!
# The store over a healthy broker

A healthy broker lets every consumer join, delivers the whole stream, and then reports it caught up. A read of a task
then always finds a projection: the cached one, or else the replay of the log (`view`).

- `ensureProjection_healthy`, `withProjection_healthy`, `taskExists_healthy`, `getTask_healthy`: what the reads answer;
- `Call.healthy`: every call keeps the cache consistent.
-/

namespace Fixus

open Lib Lib.Eff

namespace LruMap

/-- What is evicted comes from the front: the last entry stays. -/
theorem lookup_evict {cap : Nat} {taskId : String} (hcap : 1 ≤ cap) :
    ∀ {order : List String} (map : Finmap fun _ : String => TaskProjection), taskId ∉ order →
      (evict cap (order ++ [taskId]) map).2.lookup taskId = map.lookup taskId
  | [], map, _ => by
    have hpos : cap ≠ 0 := by omega
    simp [evict, hpos]
  | old :: rest, map, h => by
    have hne : taskId ≠ old := fun e => h (e ▸ List.mem_cons_self)
    unfold evict
    simp only [List.cons_append]
    split
    · rw [lookup_evict hcap _ fun hm => h (List.mem_cons_of_mem _ hm), Finmap.lookup_erase_ne hne]
    · rfl

/-- Eviction only removes. -/
theorem lookup_of_evict {cap : Nat} {taskId : String} {p : TaskProjection} :
    ∀ {order : List String} {map : Finmap fun _ : String => TaskProjection},
      (evict cap order map).2.lookup taskId = some p → map.lookup taskId = some p
  | [], map, h => h
  | old :: rest, map, h => by
    unfold evict at h
    split at h
    · have hl := lookup_of_evict h
      by_cases he : taskId = old
      · rw [he, Finmap.lookup_erase] at hl
        cases hl
      · rwa [Finmap.lookup_erase_ne he] at hl
    · exact h

/-- Eviction keeps the order and the map consistent. -/
theorem ok_evict {cap : Nat} (hcap : 1 ≤ cap) :
    ∀ {order : List String} {map : Finmap fun _ : String => TaskProjection},
      Ok { map, order, cap } → Ok { map := (evict cap order map).2, order := (evict cap order map).1, cap }
  | [], map, h => h
  | old :: rest, map, h => by
    have hn := List.nodup_cons.mp h.nodup
    have hrest : Ok { map := map.erase old, order := rest, cap } := by
      refine ⟨hn.2, fun k hk => ?_, hcap⟩
      have hne : k ≠ old := fun e => hn.1 (e ▸ hk)
      simp only [Finmap.lookup_erase_ne hne]
      exact h.cached k (List.mem_cons_of_mem _ hk)
    unfold evict
    by_cases hlen : (old :: rest).length > cap
    · simp only [if_pos hlen]
      exact ok_evict hcap hrest
    · simp only [if_neg hlen]
      exact h

/-- A task that has just been loaded is cached, and nothing is cached that was not. -/
theorem touch_spec {m : LruMap} {taskId : String} {p : TaskProjection} (h : m.Ok) (hnew : m.map.lookup taskId = none) :
    ((m.put taskId p).touch taskId).Ok ∧ ((m.put taskId p).touch taskId).map.lookup taskId = some p ∧
      ∀ k q, k ≠ taskId → ((m.put taskId p).touch taskId).map.lookup k = some q → m.map.lookup k = some q := by
  have hnot : taskId ∉ m.order := fun hm => h.cached taskId hm hnew
  refine ⟨?_, ?_, fun k q hk hl => ?_⟩
  · refine ok_evict h.cap ⟨?_, fun k hk => ?_, h.cap⟩
    · exact h.nodup.append (List.nodup_singleton _) (List.disjoint_singleton.mpr hnot)
    · rcases List.mem_append.mp hk with hk | hk
      · exact (h.put taskId p).cached k hk
      · rw [List.mem_singleton.mp hk]
        simp [put, Finmap.lookup_insert]
  · show (evict m.cap (m.order ++ [taskId]) (m.map.insert taskId p)).2.lookup taskId = some p
    rw [lookup_evict h.cap _ hnot, Finmap.lookup_insert]
  · have hl' : (m.map.insert taskId p).lookup k = some q := lookup_of_evict hl
    rwa [Finmap.lookup_insert_of_ne _ hk] at hl'

end LruMap

namespace BrokerStore

/-! ## Reads -/

/-- The projection that a read of the task sees. -/
def view (s : BrokerStore) (taskId : String) : TaskProjection :=
  (s.cache.map.lookup taskId).getD (TaskProjection.replay taskId (s.log taskId))

/-- A healthy session delivers the whole log. -/
theorem consume_healthy (log : List Record) (p : TaskProjection) :
    consume {0} (log.map .record ++ [.caughtUp 0]) p ∅ = (log.foldl TaskProjection.applyIgnoring p, none) := by
  have hne : (∅ : Finset Nat) ≠ {0} := (Finset.singleton_ne_empty 0).symm
  induction log generalizing p with
  | nil => simp [consume]
  | cons r log ih =>
    simp only [List.map_cons, List.cons_append, consume, if_neg hne, List.foldl_cons]
    exact ih _

/-- The state after a read of the task: only its projection may be new in the cache. -/
structure Loaded (taskId : String) (s s' : BrokerStore) : Prop where
  streams : s'.streams = s.streams
  produces : s'.produces = s.produces
  healthy : Healthy s'
  cached : s'.cache.map.lookup taskId = some (s.view taskId)
  others : ∀ k p, k ≠ taskId → s'.cache.map.lookup k = some p → s.cache.map.lookup k = some p

/-- Accesses after the read change nothing. -/
theorem Loaded.untouched {taskId : String} {s t u : BrokerStore} (h : Loaded taskId s t) (hu : Untouched t u)
    (hp : u.produces = t.produces) : Loaded taskId s u := by
  refine ⟨hu.streams.trans h.streams, hp.trans h.produces, hu.healthy h.healthy, ?_, fun k p hk hl => ?_⟩
  · rw [hu.map]
    exact h.cached
  · rw [hu.map] at hl
    exact h.others k p hk hl

/-- A second read sees the same projection. -/
theorem Loaded.view {taskId : String} {s s' : BrokerStore} (h : Loaded taskId s s') :
    s'.view taskId = s.view taskId := by
  unfold BrokerStore.view
  rw [h.cached]
  rfl

/-- Reading twice is reading. -/
theorem Loaded.trans {taskId : String} {s t u : BrokerStore} (h₁ : Loaded taskId s t) (h₂ : Loaded taskId t u) :
    Loaded taskId s u :=
  ⟨h₂.streams.trans h₁.streams, h₂.produces.trans h₁.produces, h₂.healthy, h₂.cached.trans (congrArg some h₁.view),
    fun k p hk hl => h₁.others k p hk (h₂.others k p hk hl)⟩

variable {taskId : String} {s : BrokerStore}

/-- On a healthy broker loading a projection succeeds. -/
theorem ensureProjection_healthy (hs : Healthy s) :
    wp (ensureProjection taskId) (fun _ s' => Loaded taskId s s') (fun _ _ => False) s := by
  unfold ensureProjection
  rw [wp_bind]
  refine wp_cacheGet fun s₁ hu hp => ?_
  cases hl : s.cache.map.lookup taskId with
  | some p =>
    refine ⟨hu.streams, hp, hu.healthy hs, ?_, fun k q _ hk => by rwa [hu.map] at hk⟩
    rw [hu.map, view, hl]
    rfl
  | none =>
    have hs₁ := hu.healthy hs
    have hl₁ : s₁.cache.map.lookup taskId = none := by rw [hu.map, hl]
    have hnext : nextSession taskId s₁ = (.ok (healthySession (s₁.streams taskId)), s₁) := by
      unfold nextSession
      rw [hs₁.sessions]
    have hview : s.view taskId =
        (s₁.streams taskId).foldl TaskProjection.applyIgnoring (TaskProjection.new taskId) := by
      unfold view BrokerStore.log
      rw [hl, hu.streams]
      rfl
    obtain ⟨hok, hcached, hothers⟩ := LruMap.touch_spec (p := s.view taskId) hs₁.ok hl₁
    show wp (mapErr _ (catchUp taskId)) _ _ s₁
    rw [wp_mapErr]
    unfold catchUp
    rw [wp_bind]
    show wp (nextSession taskId) _ _ s₁
    unfold wp
    rw [hnext]
    show wp (loadFrom taskId (healthySession (s₁.streams taskId))) _ _ s₁
    unfold healthySession loadFrom
    rw [wp_bind, wp_read, wp_bind, wp_update]
    simp only [consume_healthy, hl₁, Option.getD_none, ← hview]
    refine ⟨hu.streams, hp, ⟨hs₁.sessions, hok⟩, hcached, fun k q hk hkl => ?_⟩
    have hk₁ := hothers k q hk hkl
    rwa [hu.map] at hk₁

/-- On a healthy broker a read sees the view. -/
theorem withProjection_healthy {α : Type} (hs : Healthy s) (f : TaskProjection → α) :
    wp (withProjection taskId f) (fun a s' => a = f (s.view taskId) ∧ Loaded taskId s s') (fun _ _ => False) s := by
  unfold withProjection
  rw [wp_bind]
  refine wp_mono (ensureProjection_healthy hs) (fun _ s₁ h₁ => ?_) fun _ _ h => h
  rw [wp_bind]
  refine wp_cacheGet fun s₂ hu hp => ?_
  rw [h₁.cached]
  exact ⟨rfl, h₁.untouched hu hp⟩

/-- On a healthy broker every task exists. -/
theorem taskExists_healthy (hs : Healthy s) :
    wp (taskExists taskId) (fun b s' => b = true ∧ Loaded taskId s s') (fun _ _ => False) s := by
  unfold taskExists
  rw [wp_bind]
  refine wp_cacheGet fun s₁ hu hp => ?_
  cases hl : s.cache.map.lookup taskId with
  | some p =>
    refine ⟨rfl, hu.streams, hp, hu.healthy hs, ?_, fun k q _ hk => by rwa [hu.map] at hk⟩
    rw [hu.map, view, hl]
    rfl
  | none =>
    have hview : s₁.view taskId = s.view taskId := by
      unfold view BrokerStore.log
      rw [hu.map, hu.streams]
    show wp (attempt (ensureProjection taskId) >>= _) _ _ s₁
    rw [wp_bind, wp_attempt]
    refine wp_mono (ensureProjection_healthy (hu.healthy hs)) (fun _ s₂ h₂ => ?_) fun _ _ h => h.elim
    refine ⟨rfl, h₂.streams.trans hu.streams, h₂.produces.trans hp, h₂.healthy, hview ▸ h₂.cached, fun k q hk hkl => ?_⟩
    have hk₁ := h₂.others k q hk hkl
    rwa [hu.map] at hk₁

/-- On a healthy broker every task is reported. -/
theorem getTask_healthy (hs : Healthy s) :
    wp (getTask taskId) (fun t s' => t = some (taskOf taskId (s.view taskId)) ∧ Loaded taskId s s')
      (fun _ _ => False) s := by
  unfold getTask
  rw [wp_bind, wp_attempt]
  refine wp_mono (ensureProjection_healthy hs) (fun _ s₁ h₁ => ?_) fun _ _ h => h.elim
  refine wp_mono (withProjection_healthy h₁.healthy _) (fun t s₂ h₂ => ?_) fun _ _ h => h
  exact ⟨by rw [h₂.1, h₁.view], h₁.trans h₂.2⟩

/-- What the reads about a task do: nothing happens to the streams, and on a healthy broker nothing but the projection
of the task is new in the cache. -/
structure Seen (taskId : String) (s s' : BrokerStore) : Prop extends SameTask taskId s s' where
  healthy : Healthy s → Healthy s'
  others : Healthy s → ∀ k p, s'.cache.map.lookup k = some p →
    s.cache.map.lookup k = some p ∨ (k = taskId ∧ p = s.view taskId)

theorem Seen.refl (s : BrokerStore) : Seen taskId s s :=
  { SameTask.refl s with healthy := id, others := fun _ _ _ h => Or.inl h }

/-- The reads do not change what is seen. -/
theorem Seen.view {s s' : BrokerStore} (h : Seen taskId s s') (hs : Healthy s) : s'.view taskId = s.view taskId := by
  have hlog : s'.log taskId = s.log taskId := congrFun h.streams taskId
  cases hl : s.cache.map.lookup taskId with
  | some p => simp only [BrokerStore.view, hl, h.cached p hl, Option.getD_some]
  | none =>
    cases hl' : s'.cache.map.lookup taskId with
    | none => simp only [BrokerStore.view, hl, hl', hlog]
    | some p =>
      rcases h.others hs taskId p hl' with hp | ⟨-, hp⟩
      · rw [hl] at hp
        cases hp
      · rw [BrokerStore.view, hl', hp, Option.getD_some]

theorem Seen.trans {s t u : BrokerStore} (h₁ : Seen taskId s t) (h₂ : Seen taskId t u) : Seen taskId s u :=
  { SameTask.trans h₁.toSameTask h₂.toSameTask with
    healthy := fun hs => h₂.healthy (h₁.healthy hs)
    others := fun hs k p hk => by
      rcases h₂.others (h₁.healthy hs) k p hk with hk | ⟨rfl, hp⟩
      · exact h₁.others hs k p hk
      · exact Or.inr ⟨rfl, hp.trans (h₁.view hs)⟩ }

/-- A computation that keeps the task, and that loads at most its projection on a healthy broker. -/
theorem keeps_seen {α : Type} {m : StoreM BrokerStore α} {Q : BrokerStore → α → Prop} (hk : Keeps (SameTask taskId) m)
    (hm : ∀ s, Healthy s → wp m (fun a s' => Q s a ∧ Loaded taskId s s') (fun _ _ => False) s) :
    Keeps (Seen taskId) m := by
  intro s
  have hloaded : Healthy s → Loaded taskId s (m s).2 := fun hs =>
    wp_state (wp_mono (hm s hs) (fun _ _ h => h.2) fun _ _ h => h.elim)
  refine { hk s with healthy := fun hs => (hloaded hs).healthy, others := fun hs k p hp => ?_ }
  by_cases hkt : k = taskId
  · subst hkt
    exact Or.inr ⟨rfl, (Option.some.inj ((hloaded hs).cached.symm.trans hp)).symm⟩
  · exact Or.inl ((hloaded hs).others k p hkt hp)

theorem seen_withProjection {α : Type} (f : TaskProjection → α) : Keeps (Seen taskId) (withProjection taskId f) :=
  keeps_seen (keeps_withProjection taskId f) fun _ hs => withProjection_healthy hs f

end BrokerStore

open BrokerStore

/-- The reads about a task keep `Seen`. -/
theorem brokerEventStore_sees (taskId : String) : ReadsOnly brokerEventStore (Seen taskId) taskId where
  refl := Seen.refl
  trans := Seen.trans
  getTaskState := seen_withProjection _
  taskExists := keeps_seen (keeps_taskExists taskId) fun _ hs => taskExists_healthy hs
  isTaskEnded := seen_withProjection _
  getMaxTurnId := seen_withProjection _

/-- **Every call keeps the store healthy.** -/
theorem Call.healthy {s : BrokerStore} (hs : Healthy s) (c : Call) : Healthy (c.after s) := by
  cases c with
  | op o =>
    rcases op_cases (o.writesAtMostOnce (brokerEventStore_sees o.taskId)) s with
      ⟨s₁, hR, hu, -⟩ | ⟨-, e, seq, s₁, -, hR, -, -, hwrote⟩
    · exact hu.healthy (hR.healthy hs)
    · exact hwrote.healthy (hR.healthy hs)
  | createTask uuid taskType provenance body priority effectivePolicy =>
    have hspec := createTask_spec uuid taskType provenance body priority effectivePolicy s
    refine wp_state (P := Healthy) (wp_mono hspec (fun _ s' h => ?_) fun _ s' h => ?_)
    · exact ⟨h.2.1.trans hs.sessions, h.1 ▸ hs.ok⟩
    · exact ⟨h.2.1.trans hs.sessions, h.1 ▸ hs.ok⟩
  | writeEventsBatch events =>
    exact wp_state (P := Healthy) (wp_mono (batch_spec events s) (fun _ s' h => h.1 hs) fun _ s' h => h.1 hs)

end Fixus
