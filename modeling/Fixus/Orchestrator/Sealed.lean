import Fixus.Orchestrator.Reads

/-!
# Records of a kind

A property that every record has when it is written is one of all records in the streams, and a property of projections
that folding such records keeps is one of all cached projections, whatever the broker and the cache do in between.

- `Sealed`: all records have the one property, and all cached projections the other;
- `quietKeep_sealed`: the reads keep it;
- `sealed_op`, `sealed_createTask`, `sealed_batch`: the calls keep it if the records that they write have the property.
-/

namespace Fixus

open Lib Lib.Eff BrokerStore

/-- The session delivers the record. -/
def Session.Delivers (session : Session) (r : Record) : Prop :=
  match session with
  | .refused _ => False
  | .open_ _ frames _ => .record r ∈ frames

/-- The projection of nothing has the property, and folding a record keeps it. -/
structure Folds (L : Record → Prop) (V : TaskProjection → Prop) : Prop where
  new : ∀ taskId, V (.new taskId)
  apply : ∀ p r, V p → L r → V (p.applyIgnoring r)

/-- All records have a property, and all cached projections have another. -/
structure Sealed (L : Record → Prop) (V : TaskProjection → Prop) (s : BrokerStore) : Prop where
  streams : ∀ stream, ∀ r ∈ s.streams stream, L r
  cached : ∀ taskId p, s.cache.map.lookup taskId = some p → V p
  sessions : ∀ session ∈ s.sessions, ∀ r, session.Delivers r → L r

/-- A computation of the store keeps it. -/
abbrev KeepsSealed (L : Record → Prop) (V : TaskProjection → Prop) {α : Type} (m : StoreM BrokerStore α) : Prop :=
  Keeps (fun s s' => Sealed L V s → Sealed L V s') m

variable {L L' : Record → Prop} {V : TaskProjection → Prop} {s s' : BrokerStore}

theorem sealed_empty : Sealed L V .empty where
  streams _ _ hr := by cases hr
  cached taskId p hp := by
    rw [show BrokerStore.empty.cache.map = ∅ from rfl, Finmap.lookup_empty] at hp
    cases hp
  sessions _ hs := by cases hs

namespace Sealed

theorem mono (h : Sealed L V s) (hL : ∀ r, L r → L' r) : Sealed L' V s where
  streams stream r hr := hL r (h.streams stream r hr)
  cached := h.cached
  sessions session hs r hr := hL r (h.sessions session hs r hr)

/-- Only the streams, the cached projections and the coming sessions count. -/
theorem congr (h : Sealed L V s) (hs : s'.streams = s.streams) (hm : s'.cache.map = s.cache.map)
    (hss : s'.sessions = s.sessions) : Sealed L V s' where
  streams := by rw [hs]; exact h.streams
  cached := by rw [hm]; exact h.cached
  sessions := by rw [hss]; exact h.sessions

theorem untouched (h : Sealed L V s) (hu : Untouched s s') : Sealed L V s' := h.congr hu.streams hu.map hu.sessions

/-- One record more. -/
theorem appended {stream : String} {r : Record} (h : Sealed L V s) (hr : L r)
    (hs : s'.streams = Function.update s.streams stream (s.streams stream ++ [r])) (hm : s'.cache.map = s.cache.map)
    (hss : s'.sessions = s.sessions) : Sealed L V s' where
  streams stream' r' hr' := by
    rw [hs] at hr'
    by_cases hk : stream' = stream
    · subst hk
      rw [Function.update_self] at hr'
      rcases List.mem_append.mp hr' with hr' | hr'
      · exact h.streams _ r' hr'
      · exact List.mem_singleton.mp hr' ▸ hr
    · rw [Function.update_of_ne hk] at hr'
      exact h.streams _ r' hr'
  cached := by rw [hm]; exact h.cached
  sessions := by rw [hss]; exact h.sessions

/-- One cached projection is replaced. -/
theorem put {p : TaskProjection} (h : Sealed L V s) (taskId : String) (hp : V p) :
    Sealed L V { s with cache := s.cache.put taskId p } where
  streams := h.streams
  cached k q hq := by
    by_cases hk : k = taskId
    · subst hk
      rw [show (s.cache.put k p).map = s.cache.map.insert k p from rfl, Finmap.lookup_insert] at hq
      exact Option.some.inj hq ▸ hp
    · rw [show (s.cache.put taskId p).map = s.cache.map.insert taskId p from rfl, Finmap.lookup_insert_of_ne _ hk] at hq
      exact h.cached k q hq
  sessions := h.sessions

/-- Entries are taken out of the cache. -/
theorem shrunk (h : Sealed L V s) (hs : s'.streams = s.streams) (hss : s'.sessions = s.sessions)
    (hm : ∀ k p, s'.cache.map.lookup k = some p → s.cache.map.lookup k = some p) : Sealed L V s' where
  streams := by rw [hs]; exact h.streams
  cached k p hp := h.cached k p (hm k p hp)
  sessions := by rw [hss]; exact h.sessions

end Sealed

/-! ## Reads -/

section Reads

variable (hf : Folds L V)

include hf

/-- What a session leaves in a projection. -/
theorem Folds.consume {shards : Finset Nat} {frames : List Frame} {p : TaskProjection} {caughtUp : Finset Nat}
    (hp : V p) (hr : ∀ r, .record r ∈ frames → L r) : V (consume shards frames p caughtUp).1 := by
  induction frames generalizing p caughtUp with
  | nil => exact hp
  | cons frame frames ih =>
    have hrest : ∀ r, Frame.record r ∈ frames → L r := fun r h => hr r (List.mem_cons_of_mem _ h)
    cases frame with
    | err msg => exact hp
    | record r =>
      have hp' := hf.apply p r hp (hr r List.mem_cons_self)
      unfold BrokerStore.consume
      split
      · exact hp'
      · exact ih hp' hrest
    | caughtUp shard =>
      unfold BrokerStore.consume
      split
      · exact hp
      · exact ih hp hrest
    | notice =>
      unfold BrokerStore.consume
      split
      · exact hp
      · exact ih hp hrest

theorem sealed_loadFrom {taskId : String} {session : Session} (h : Sealed L V s) (hr : ∀ r, session.Delivers r → L r) :
    Sealed L V (loadFrom taskId session s).2 := by
  refine wp_state (P := Sealed L V) ?_
  cases session with
  | refused msg => exact h
  | open_ shards frames leaveErr =>
    unfold loadFrom
    rw [wp_bind, wp_read, wp_bind, wp_update]
    have hentry : V ((s.cache.map.lookup taskId).getD (TaskProjection.new taskId)) := by
      cases hl : s.cache.map.lookup taskId with
      | none => exact hf.new taskId
      | some p => exact h.cached taskId p hl
    have hconsumed : V (consume shards frames ((s.cache.map.lookup taskId).getD (TaskProjection.new taskId)) ∅).1 :=
      hf.consume hentry hr
    have hput := h.put taskId hconsumed
    split
    · exact hput
    · exact hput
    · exact hput.shrunk rfl rfl fun k p hp => LruMap.lookup_of_evict hp

/-- **The reads keep it.** -/
theorem quietKeep_sealed : QuietKeep (fun s s' => Sealed L V s → Sealed L V s') where
  refl _ := id
  trans _ _ _ h h' := h' ∘ h
  cacheGet taskId s h := by
    obtain ⟨s₁, hget, hu, -⟩ := cacheGet_spec taskId s
    rw [hget]
    exact h.untouched hu
  invalidateProjection taskId s h := by
    refine h.shrunk rfl rfl fun k p hp => ?_
    have hp' : (s.cache.map.erase taskId).lookup k = some p := hp
    by_cases hk : k = taskId
    · rw [hk, Finmap.lookup_erase] at hp'
      cases hp'
    · rwa [Finmap.lookup_erase_ne hk] at hp'
  ensureProjection taskId s h := by
    refine wp_state (P := Sealed L V) ?_
    unfold ensureProjection
    rw [wp_bind]
    refine wp_cacheGet fun s₁ hu _ => ?_
    have h₁ := h.untouched hu
    cases s.cache.map.lookup taskId with
    | some p => exact h₁
    | none =>
      show wp (mapErr _ (catchUp taskId)) _ _ s₁
      rw [wp_mapErr]
      unfold catchUp
      rw [wp_bind]
      cases hss : s₁.sessions with
      | nil =>
        -- the healthy session delivers the stream
        have hnext : nextSession taskId s₁ = (.ok (healthySession (s₁.streams taskId)), s₁) := by
          unfold nextSession
          rw [hss]
        unfold wp
        rw [hnext]
        refine wp_of_state (P := Sealed L V) (sealed_loadFrom hf h₁ fun r hr => h₁.streams taskId r ?_)
        simpa [Session.Delivers, healthySession] using hr
      | cons session rest =>
        have hnext : nextSession taskId s₁ = (.ok session, { s₁ with sessions := rest }) := by
          unfold nextSession
          rw [hss]
        have h₂ : Sealed L V { s₁ with sessions := rest } :=
          ⟨h₁.streams, h₁.cached, fun session' hs' => h₁.sessions session' (hss ▸ List.mem_cons_of_mem _ hs')⟩
        unfold wp
        rw [hnext]
        exact wp_of_state (P := Sealed L V)
          (sealed_loadFrom hf h₂ fun r hr => h₁.sessions session (hss ▸ List.mem_cons_self) r hr)

end Reads

/-! ## Writes -/

/-- A record on any stream that is not folded into a projection. -/
theorem sealed_produce {stream eventType : String} {content : Json} {metadata : Metadata} {Q : Nat → BrokerStore → Prop}
    {E : String → BrokerStore → Prop} (h : Sealed L V s) (hr : ∀ seq, L ⟨seq, eventType, content, metadata⟩)
    (hok : ∀ seq s', Sealed L V s' → Q seq s') (herr : ∀ msg s', Sealed L V s' → E msg s') :
    wp (produce stream eventType content metadata) Q E s :=
  wp_produce (fun seq s' _ hs hc hss _ => hok seq s' (h.appended (hr seq) hs (congrArg LruMap.map hc) hss))
    fun msg s' _ hs hc hss => herr msg s' (h.congr hs (congrArg LruMap.map hc) hss)

section Writes

variable (hf : Folds L V)

include hf

/-- An accepted event. -/
theorem sealed_wrote {e : AgentEvent} {seq : Nat} (h : Sealed L V s) (hr : L (recordOf seq e)) (hw : Wrote e seq s s') :
    Sealed L V s' := by
  have h₁ : Sealed L V (s.append e.taskId (recordOf seq e)) := h.appended hr rfl rfl rfl
  cases hl : s.cache.map.lookup e.taskId with
  | none => exact h₁.congr hw.streams (by rw [hw.map, hl]; rfl) hw.sessions
  | some p =>
    have h₂ := h₁.put e.taskId (hf.apply p _ (h.cached e.taskId p hl) hr)
    exact h₂.congr hw.streams (by rw [hw.map, hl]; rfl) hw.sessions

/-- **An operation keeps it** if the events that it may write have the property. -/
theorem sealed_op {o : Op} (hr : ∀ e seq, o.Describes e → e.validateScope = .ok () → L (recordOf seq e)) :
    KeepsSealed L V (o.run brokerEventStore) := by
  intro s h
  rcases op_cases (o.writesAtMostOnce ((quietKeep_sealed hf).readsOnly o.taskId)) s with
    ⟨s₁, h₁, hu, -⟩ | ⟨-, e, seq, s₁, hd, h₁, hacc, -, hw⟩
  · exact (h₁ h).untouched hu
  · exact sealed_wrote hf (h₁ h) (hr e seq hd hacc.scope) hw

omit hf in
/-- **The creation of a task keeps it** if its record has the property. -/
theorem sealed_createTask {uuid taskType : String} {provenance : Provenance} {body : Option Json} {priority : Int}
    {effectivePolicy : Option EffectivePolicy}
    (hr : ∀ r : Record, r.eventType = "task_created" →
      r.content = createdPayload taskType provenance body priority effectivePolicy → L r) :
    KeepsSealed L V
      ((Call.createTask uuid taskType provenance body priority effectivePolicy).run brokerEventStore) := by
  intro s h
  refine wp_state (P := Sealed L V) ?_
  unfold Call.run
  rw [wp_discard]
  show wp (BrokerStore.createTask _ _ _ _ _ _ _ _) _ _ s
  unfold BrokerStore.createTask
  simp only
  rw [wp_bind, wp_mapErr]
  exact sealed_produce h (fun seq => hr _ rfl rfl) (fun _ _ h' => h') fun _ _ h' => h'

omit hf in
theorem sealed_batchProduce {events : List AgentEvent} (hr : ∀ e ∈ events, ∀ seq, L (recordOf seq e))
    (h : Sealed L V s) :
    Sealed L V (batchProduce events s).2 := by
  refine wp_state (P := Sealed L V) ?_
  induction events generalizing s with
  | nil => exact h
  | cons e es ih =>
    unfold batchProduce
    rw [wp_bind]
    refine sealed_produce h (hr e List.mem_cons_self) (fun seq s₁ h₁ => ?_) fun _ _ h₁ => h₁
    rw [wp_bind]
    exact wp_mono (ih (fun e' he' => hr e' (List.mem_cons_of_mem _ he')) h₁) (fun _ _ h₂ => h₂) fun _ _ h₂ => h₂

/-- **A batch keeps it** if its events have the property. -/
theorem sealed_batch {events : List AgentEvent} (hr : ∀ e ∈ events, ∀ seq, L (recordOf seq e)) :
    KeepsSealed L V ((Call.writeEventsBatch events).run brokerEventStore) := by
  intro s h
  refine wp_state (P := Sealed L V) ?_
  unfold Call.run
  rw [wp_discard]
  show wp (BrokerStore.writeEventsBatch events) _ _ s
  cases events with
  | nil => exact h
  | cons first rest =>
    unfold BrokerStore.writeEventsBatch
    simp only
    rw [wp_bind, wp_mapErr, wp_atomically]
    refine wp_mono (wp_of_state (P := Sealed L V) (sealed_batchProduce hr h)) (fun seqs s₁ h₁ => ?_) fun msg s₁ h₁ => ?_
    · rw [wp_bind]
      refine wp_cacheGet fun s₂ hu _ => ?_
      have h₂ := h₁.untouched hu
      cases hl : s₁.cache.map.lookup first.taskId with
      | none => exact h₂
      | some p =>
        -- the records of the whole batch are folded into the projection of the first event's task
        refine h₂.put first.taskId ?_
        exact List.foldlRecOn _ _ (h₁.cached _ p hl)
          fun q hq w hw => hf.apply q _ hq (hr w.1 (List.of_mem_zip hw).1 w.2)
    · exact ⟨h.streams, h₁.cached, h₁.sessions⟩

end Writes

end Fixus
