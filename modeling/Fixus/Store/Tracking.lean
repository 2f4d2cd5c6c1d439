import Fixus.Store.Healthy

/-!
# Projections that follow the log

A store tracks a task if a read of the task sees the projection of its whole log. Reads of any task, writes to any task
and the loss of a cached projection keep it so.
-/

namespace Fixus

open Lib Lib.Eff BrokerStore TaskProjection

variable {taskId : String} {s s' : BrokerStore} {p : TaskProjection}

/-- A healthy store, in which a read of the task sees the projection of its log. -/
structure Tracks (taskId : String) (s : BrokerStore) : Prop where
  healthy : Healthy s
  view : s.view taskId = replay taskId (s.log taskId)

theorem view_of_lookup (h : s.cache.map.lookup taskId = some p) : s.view taskId = p := by
  unfold BrokerStore.view
  rw [h, Option.getD_some]

/-- A written record is folded into what a read sees. -/
theorem view_of_wrote {e : AgentEvent} {seq : Nat} (h : Wrote e seq s s') :
    s'.view e.taskId = (s.view e.taskId).applyIgnoring (recordOf seq e) := by
  unfold BrokerStore.view
  rw [h.map, wrote_log h]
  cases hl : s.cache.map.lookup e.taskId with
  | none => simp [hl]
  | some p => simp [Finmap.lookup_insert]

namespace Tracks

/-- The projection that is cached later, if there is one, is that of the earlier log. -/
theorem of_cached (h : Tracks taskId s) (hs : Healthy s')
    (hlog : replay taskId (s'.log taskId) = replay taskId (s.log taskId))
    (hcached : ∀ p, s'.cache.map.lookup taskId = some p → s.view taskId = p) : Tracks taskId s' := by
  refine ⟨hs, ?_⟩
  cases hl : s'.cache.map.lookup taskId with
  | none => simp only [BrokerStore.view, hl, Option.getD_none]
  | some p => rw [view_of_lookup hl, hlog, ← h.view, hcached p hl]

theorem untouched (h : Tracks taskId s) (hu : Untouched s s') : Tracks taskId s' := by
  refine h.of_cached (hu.healthy h.healthy) (congrArg _ (congrFun hu.streams taskId)) fun p hp => ?_
  rw [hu.map] at hp
  exact view_of_lookup hp

theorem loaded {k : String} (h : Tracks taskId s) (hl : Loaded k s s') : Tracks taskId s' := by
  refine h.of_cached hl.healthy (congrArg _ (congrFun hl.streams taskId)) fun p hp => ?_
  by_cases hk : taskId = k
  · subst hk
    exact Option.some.inj (hl.cached.symm.trans hp)
  · exact view_of_lookup (hl.others taskId p hk hp)

theorem invalidated (h : Tracks taskId s) (k : String) : Tracks taskId (invalidateProjection k s).2 := by
  refine h.of_cached ⟨h.healthy.sessions, h.healthy.ok.invalidate k⟩ rfl fun p hp => ?_
  have hp' : (s.cache.map.erase k).lookup taskId = some p := hp
  by_cases hk : taskId = k
  · rw [hk, Finmap.lookup_erase] at hp'
    cases hp'
  · rw [Finmap.lookup_erase_ne hk] at hp'
    exact view_of_lookup hp'

/-- A write to the task, or to another one. -/
theorem wrote {e : AgentEvent} {seq : Nat} (h : Tracks taskId s) (hw : Wrote e seq s s') : Tracks taskId s' := by
  by_cases hk : taskId = e.taskId
  · subst hk
    refine ⟨hw.healthy h.healthy, ?_⟩
    rw [view_of_wrote hw, h.view, wrote_log hw, replay_append]
  · refine h.of_cached (hw.healthy h.healthy) (congrArg _ (wrote_log_of_ne hw hk)) fun p hp => ?_
    refine view_of_lookup ?_
    rw [← hp, hw.map]
    cases s.cache.map.lookup e.taskId with
    | none => rfl
    | some q => exact (Finmap.lookup_insert_of_ne _ hk).symm

end Tracks

end Fixus
