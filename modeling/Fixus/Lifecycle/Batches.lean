import Fixus.Lifecycle.Residency

/-!
# Batches against single writes

- `writeEach_spec`: writing the events of a list one after the other, each of them checked;
- `writeEventsBatch_spec`: writing them as a batch, without checks and into one projection;
- `oneProjection_iff_taskId`: which lists concern one projection, by the tasks and numbers of their records;
- `batch_like_singles_iff`: when the two agree;
- `batch_skips_guard`: a batch that revives a canceled task.
-/

namespace Fixus

open Lib Lib.Eff BrokerStore

namespace BrokerStore

/-- Write the events of a list in order, up to the first refusal. -/
def writeEach : List AgentEvent → StoreM BrokerStore (List Int)
  | [] => pure []
  | e :: es => do
    let n ← writeEvent e
    let ns ← writeEach es
    pure (n :: ns)

/-! ## The numbers of the records -/

/-- The broker after it has taken one record. -/
def taken (s : BrokerStore) (e : AgentEvent) (seq : Nat) : BrokerStore :=
  { s with
    streams := Function.update s.streams e.taskId (s.streams e.taskId ++ [recordOf seq e])
    produces := s.produces.tail }

/-- The numbers that the records of a list of events get, or the error of the broker. -/
def numbersOf (s : BrokerStore) : List AgentEvent → Except String (List Nat)
  | [] => .ok []
  | e :: es =>
    match s.nextReply e.taskId with
    | .error msg => .error msg
    | .ok seq => (numbersOf (s.taken e seq) es).map (seq :: ·)

theorem numbersOf_cons {s : BrokerStore} {e : AgentEvent} {seq : Nat} (h : s.nextReply e.taskId = .ok seq)
    (es : List AgentEvent) : s.numbersOf (e :: es) = ((s.taken e seq).numbersOf es).map (seq :: ·) := by
  rw [numbersOf, h]

/-- The numbers do not depend on the cache. -/
theorem numbersOf_congr {s s' : BrokerStore} (h : SameBroker s s') (events : List AgentEvent) :
    s'.numbersOf events = s.numbersOf events := by
  induction events generalizing s s' with
  | nil => rfl
  | cons e es ih =>
    unfold numbersOf
    rw [h.nextReply]
    cases s.nextReply e.taskId with
    | error msg => rfl
    | ok seq =>
      have htaken : SameBroker (s.taken e seq) (s'.taken e seq) :=
        ⟨by simp only [taken, h.streams], by simp only [taken, h.produces]⟩
      simp only [ih htaken]

/-- One produce call takes the record or fails. -/
theorem produce_eq (s : BrokerStore) (e : AgentEvent) :
    (∃ msg s', s.nextReply e.taskId = .error msg ∧
      produce e.taskId e.eventType.asStr e.payload (eventMeta e) s = (.error msg, s')) ∨
    ∃ seq, s.nextReply e.taskId = .ok seq ∧
      produce e.taskId e.eventType.asStr e.payload (eventMeta e) s = (.ok seq, s.taken e seq) := by
  unfold produce nextReply
  cases hp : s.produces with
  | nil => exact Or.inr ⟨_, rfl, by simp [taken, append, hp, recordOf]⟩
  | cons reply rest =>
    cases reply with
    | ok seq => exact Or.inr ⟨seq, rfl, by simp [taken, append, hp, recordOf]⟩
    | err msg => exact Or.inl ⟨msg, _, rfl, rfl⟩

/-- A batch is taken with these numbers, or refused. -/
theorem batchProduce_eq (events : List AgentEvent) (s : BrokerStore) :
    (∃ msg s', s.numbersOf events = .error msg ∧ batchProduce events s = (.error msg, s')) ∨
    ∃ seqs s', s.numbersOf events = .ok seqs ∧ batchProduce events s = (.ok seqs, s') ∧ s'.cache = s.cache ∧
      s'.streams = appendAll s.streams (events.zip seqs) := by
  induction events generalizing s with
  | nil => exact Or.inr ⟨[], s, rfl, rfl, rfl, rfl⟩
  | cons e es ih =>
    have hbind : batchProduce (e :: es) s =
        ((produce e.taskId e.eventType.asStr e.payload (eventMeta e)).bind fun seq =>
          (batchProduce es).bind fun seqs => ret (seq :: seqs)) s := rfl
    rw [hbind]
    unfold numbersOf Eff.bind
    rcases produce_eq s e with ⟨msg, s', hr, hprod⟩ | ⟨seq, hr, hprod⟩
    · exact Or.inl ⟨msg, s', by rw [hr], by rw [hprod]⟩
    · rw [hr, hprod]
      rcases ih (s.taken e seq) with ⟨msg, s', hn, hb⟩ | ⟨seqs, s', hn, hb, hc, hs⟩
      · exact Or.inl ⟨msg, s', by simp only [hn]; rfl, by simp only [hb]⟩
      · refine Or.inr ⟨seq :: seqs, s', by simp only [hn]; rfl, by simp only [hb]; rfl, hc, ?_⟩
        rw [hs]
        rfl

/-! ## Single writes -/

/-- The task states that the guard of a write sees. -/
def cachedState (s : BrokerStore) (taskId : String) : Option TaskState :=
  (s.cache.map.lookup taskId).map TaskProjection.state

/-- Every event passes the three checks of a write, the guard seeing the states that the events before it leave. -/
def ChecksInTurn (states : String → Option TaskState) : List AgentEvent → Prop
  | [] => True
  | e :: es => e.validateScope = .ok () ∧ validatePayloadRequiredFields e.eventType e.payload = .ok () ∧
      validateTaskEventTransition (states e.taskId) e.eventType = .ok () ∧
      ChecksInTurn (Function.update states e.taskId ((states e.taskId).map (stateAfter · e.eventType))) es

/-- Fold a record into the cached projection of its task. -/
def applyOwn (map : Finmap fun _ : String => TaskProjection) (w : AgentEvent × Nat) :
    Finmap fun _ : String => TaskProjection :=
  match map.lookup w.1.taskId with
  | some p => map.insert w.1.taskId (p.applyIgnoring (recordOf w.2 w.1))
  | none => map

/-- An accepted write moves the state that the next guard sees. -/
theorem cachedState_wrote {e : AgentEvent} {seq : Nat} {s s' : BrokerStore} (h : Wrote e seq s s') :
    s'.cachedState = Function.update s.cachedState e.taskId
      ((s.cachedState e.taskId).map (stateAfter · e.eventType)) := by
  funext k
  unfold cachedState
  rw [h.map]
  by_cases hk : k = e.taskId
  · subst hk
    rw [Function.update_self]
    cases hl : s.cache.map.lookup e.taskId with
    | none => simp [hl]
    | some p =>
      have hst : stateStep p.state (recordOf seq e) = stateAfter p.state e.eventType := by
        have he : EventType.fromStr (recordOf seq e).eventType = some e.eventType := EventType.fromStr_asStr _
        rw [stateStep, he]
      simp [TaskProjection.applyIgnoring_state, hst]
  · rw [Function.update_of_ne hk]
    cases s.cache.map.lookup e.taskId with
    | none => rfl
    | some p => simp [Finmap.lookup_insert_of_ne _ hk]

/-- **The events of a list are all written exactly if each passes its checks in turn and the broker takes the
records.** -/
theorem writeEach_spec (events : List AgentEvent) (s : BrokerStore) : wp (writeEach events)
    (fun _ s' => ChecksInTurn s.cachedState events ∧ ∃ seqs, s.numbersOf events = .ok seqs ∧
      s'.streams = appendAll s.streams (events.zip seqs) ∧ s'.cache.map = (events.zip seqs).foldl applyOwn s.cache.map)
    (fun _ _ => ¬ (ChecksInTurn s.cachedState events ∧ ∃ seqs, s.numbersOf events = .ok seqs)) s := by
  induction events generalizing s with
  | nil => exact ⟨trivial, [], rfl, rfl, rfl⟩
  | cons e es ih =>
    have hnumbers : ∀ {seqs}, s.numbersOf (e :: es) = .ok seqs → ∃ seq, s.nextReply e.taskId = .ok seq := by
      intro seqs h
      unfold numbersOf at h
      cases hr : s.nextReply e.taskId with
      | error msg => rw [hr] at h; cases h
      | ok seq => exact ⟨seq, rfl⟩
    unfold writeEach
    rw [wp_bind]
    refine wp_mono (writeEvent_spec e s) (fun n s₁ h => ?_) fun err s₁ h => ?_
    · obtain ⟨hacc, seq, hseq, -, hw⟩ := h
      have hbroker : SameBroker (s.taken e seq) s₁ := ⟨hw.streams, hw.produces⟩
      have hrest : s.numbersOf (e :: es) = (s₁.numbersOf es).map (seq :: ·) := by
        rw [numbersOf_congr hbroker, numbersOf_cons hseq]
      have hchecks : ChecksInTurn s.cachedState (e :: es) ↔ ChecksInTurn s₁.cachedState es := by
        rw [cachedState_wrote hw]
        exact ⟨fun h => h.2.2.2, fun h => ⟨hacc.scope, hacc.fields, hacc.transition, h⟩⟩
      rw [wp_bind]
      refine wp_mono (ih s₁) (fun ns s₂ h => ?_) fun err s₂ h => ?_
      · obtain ⟨hc, seqs, hn, hs, hm⟩ := h
        refine ⟨hchecks.mpr hc, seq :: seqs, by rw [hrest, hn]; rfl, ?_, ?_⟩
        · rw [hs, hw.streams]
          rfl
        · rw [hm, hw.map]
          rfl
      · rintro ⟨hc, seqs, hn⟩
        rw [hrest] at hn
        refine h ⟨hchecks.mp hc, ?_⟩
        cases hr : s₁.numbersOf es with
        | error msg => rw [hr] at hn; cases hn
        | ok seqs' => exact ⟨seqs', rfl⟩
    · rintro ⟨hc, seqs, hn⟩
      exact h.2 ⟨⟨hc.1, hc.2.1, hc.2.2.1⟩, hnumbers hn⟩

/-! ## Batches -/

/-- Fold the records of a batch into the cached projection of its first event's task. -/
def applyBatch (map : Finmap fun _ : String => TaskProjection) (taskId : String) (written : List (AgentEvent × Nat)) :
    Finmap fun _ : String => TaskProjection :=
  match map.lookup taskId with
  | some p => map.insert taskId ((batchRecords written).foldl TaskProjection.applyIgnoring p)
  | none => map

/-- **A batch is written exactly if the broker takes it.** -/
theorem writeEventsBatch_spec (first : AgentEvent) (rest : List AgentEvent) (s : BrokerStore) :
    wp (writeEventsBatch (first :: rest))
    (fun _ s' => ∃ seqs, s.numbersOf (first :: rest) = .ok seqs ∧
      s'.streams = appendAll s.streams ((first :: rest).zip seqs) ∧
      s'.cache.map = applyBatch s.cache.map first.taskId ((first :: rest).zip seqs))
    (fun _ s' => (∃ msg, s.numbersOf (first :: rest) = .error msg) ∧ s'.streams = s.streams) s := by
  unfold writeEventsBatch
  simp only
  rw [wp_bind, wp_mapErr, wp_atomically]
  unfold wp
  rcases batchProduce_eq (first :: rest) s with ⟨msg, s', hn, hb⟩ | ⟨seqs, s', hn, hb, hc, hs⟩
  · rw [hb]
    exact ⟨⟨msg, hn⟩, rfl⟩
  · rw [hb]
    show wp (cacheGet first.taskId >>= _) _ _ s'
    rw [wp_bind]
    refine wp_cacheGet fun s₂ hu _ => ?_
    have hmap : s'.cache.map = s.cache.map := congrArg LruMap.map hc
    unfold applyBatch
    rw [hmap]
    cases hl : s.cache.map.lookup first.taskId with
    | none => exact ⟨seqs, hn, by rw [hu.streams, hs], by rw [hu.map, hmap]⟩
    | some p =>
      refine ⟨seqs, hn, by simp only [hu.streams, hs], ?_⟩
      simp only [LruMap.put, hu.map, hmap]
      rw [batchRecords, List.foldl_map]

/-! ## Projections after a list of events -/

/-- The records of one task. -/
def ownRecords (taskId : String) (written : List (AgentEvent × Nat)) : List Record :=
  batchRecords (written.filter fun w => w.1.taskId = taskId)

/-- Single writes fold every record into the projection of its own task. -/
theorem lookup_foldl_applyOwn (written : List (AgentEvent × Nat)) (map : Finmap fun _ : String => TaskProjection)
    (taskId : String) : (written.foldl applyOwn map).lookup taskId =
      (map.lookup taskId).map ((ownRecords taskId written).foldl TaskProjection.applyIgnoring) := by
  induction written generalizing map with
  | nil => cases hl : map.lookup taskId <;> simp [hl, ownRecords, batchRecords]
  | cons w ws ih =>
    rw [List.foldl_cons, ih]
    unfold applyOwn
    by_cases hw : w.1.taskId = taskId
    · subst hw
      cases hl : map.lookup w.1.taskId <;> simp [hl, ownRecords, batchRecords]
    · have hne : taskId ≠ w.1.taskId := fun h => hw h.symm
      have hown : ownRecords taskId (w :: ws) = ownRecords taskId ws := by simp [ownRecords, hw]
      rw [hown]
      cases map.lookup w.1.taskId with
      | none => rfl
      | some p => simp only [Finmap.lookup_insert_of_ne _ hne]

/-- A batch folds all its records into one projection. -/
theorem lookup_applyBatch (written : List (AgentEvent × Nat)) (map : Finmap fun _ : String => TaskProjection)
    (first taskId : String) : (applyBatch map first written).lookup taskId =
      (map.lookup taskId).map fun p =>
        if taskId = first then (batchRecords written).foldl TaskProjection.applyIgnoring p else p := by
  unfold applyBatch
  by_cases ht : taskId = first
  · subst ht
    cases hl : map.lookup taskId <;> simp [hl]
  · cases map.lookup first with
    | none => simp [ht]
    | some p => simp [ht, Finmap.lookup_insert_of_ne _ ht]

/-- A record stays in the index by number. -/
theorem lookup_bySeq_foldl {records : List Record} {p : TaskProjection} {seq : Int}
    (h : p.bySeq.lookup seq ≠ none ∨
      ∃ r ∈ records, wrapI64 r.seq = seq ∧ (EventType.fromStr r.eventType).isSome = true) :
    (records.foldl TaskProjection.applyIgnoring p).bySeq.lookup seq ≠ none := by
  induction records generalizing p with
  | nil => exact h.resolve_right (by simp)
  | cons r rs ih =>
    refine ih ?_
    rcases h with h | ⟨r', hr', hseq, hsome⟩
    · refine Or.inl ?_
      cases he : EventType.fromStr r.eventType with
      | none => rw [TaskProjection.applyIgnoring_none he]; exact h
      | some e =>
        rw [TaskProjection.applyIgnoring_some he, TaskProjection.applyHead_bySeq, TaskProjection.index_bySeq]
        by_cases hs : seq = (TaskProjection.eventOf p.taskId e r).seq
        · rw [hs, Finmap.lookup_insert]
          exact Option.some_ne_none _
        · rwa [Finmap.lookup_insert_of_ne _ hs]
    · rcases List.mem_cons.mp hr' with rfl | hr'
      · obtain ⟨e, he⟩ := Option.isSome_iff_exists.mp hsome
        refine Or.inl ?_
        rw [TaskProjection.applyIgnoring_some he, TaskProjection.applyHead_bySeq, TaskProjection.index_bySeq, ← hseq]
        have hev : (TaskProjection.eventOf p.taskId e r').seq = wrapI64 r'.seq := rfl
        rw [← hev, Finmap.lookup_insert]
        exact Option.some_ne_none _
      · exact Or.inr ⟨r', hr', hseq, hsome⟩

/-- No record of another number comes into the index there. -/
theorem lookup_bySeq_foldl_eq_none {records : List Record} {p : TaskProjection} {seq : Int}
    (h : p.bySeq.lookup seq = none) (hno : ∀ r ∈ records, wrapI64 r.seq ≠ seq) :
    (records.foldl TaskProjection.applyIgnoring p).bySeq.lookup seq = none := by
  induction records generalizing p with
  | nil => exact h
  | cons r rs ih =>
    refine ih ?_ fun r' hr' => hno r' (List.mem_cons_of_mem _ hr')
    cases he : EventType.fromStr r.eventType with
    | none => rwa [TaskProjection.applyIgnoring_none he]
    | some e =>
      have hne : seq ≠ (TaskProjection.eventOf p.taskId e r).seq := (hno r List.mem_cons_self).symm
      rwa [TaskProjection.applyIgnoring_some he, TaskProjection.applyHead_bySeq, TaskProjection.index_bySeq,
        Finmap.lookup_insert_of_ne _ hne]

/-- A record that is written is in the index. -/
theorem lookup_bySeq_written {written : List (AgentEvent × Nat)} {w : AgentEvent × Nat} (hw : w ∈ written)
    (p : TaskProjection) :
    ((batchRecords written).foldl TaskProjection.applyIgnoring p).bySeq.lookup (wrapI64 w.2) ≠ none := by
  refine lookup_bySeq_foldl (Or.inr ⟨recordOf w.2 w.1, List.mem_map.mpr ⟨w, hw, rfl⟩, rfl, ?_⟩)
  have hasStr : EventType.fromStr (recordOf w.2 w.1).eventType = some w.1.eventType := EventType.fromStr_asStr _
  rw [hasStr]
  rfl

/-- Every event of a list has its number. -/
theorem exists_mem_zip {events : List AgentEvent} {seqs : List Nat} {e : AgentEvent}
    (hlen : seqs.length = events.length) (he : e ∈ events) : ∃ seq, (e, seq) ∈ events.zip seqs := by
  obtain ⟨i, hi, hget⟩ := List.mem_iff_getElem.mp he
  have hi' : i < seqs.length := by omega
  refine ⟨seqs[i], List.mem_iff_getElem.mpr ⟨i, by simp only [List.length_zip]; omega, ?_⟩⟩
  rw [List.getElem_zip, hget]

end BrokerStore

/-! ## Agreement -/

/-- A batch does what single writes of its events in order do: it is accepted if all of them would be, it leads to the
same logs and cached projections, and a refused batch has appended nothing. -/
structure LikeSingles (s : BrokerStore) (events : List AgentEvent) : Prop where
  verdict : (∃ ns, (writeEventsBatch events s).1 = .ok ns) ↔ ∃ ns, (writeEach events s).1 = .ok ns
  streams : (∃ ns, (writeEventsBatch events s).1 = .ok ns) →
    (writeEventsBatch events s).2.streams = (writeEach events s).2.streams
  projections : (∃ ns, (writeEventsBatch events s).1 = .ok ns) →
    (writeEventsBatch events s).2.cache.map = (writeEach events s).2.cache.map
  rejected : ∀ err, (writeEventsBatch events s).1 = .error err → (writeEventsBatch events s).2.streams = s.streams

/-- The broker gives every record a number that the cached projection of its task does not have yet. -/
def FreshNumbers (s : BrokerStore) (events : List AgentEvent) : Prop :=
  ∀ seqs, s.numbersOf events = .ok seqs → ∀ w ∈ events.zip seqs, ∀ p, s.cache.map.lookup w.1.taskId = some p →
    p.bySeq.lookup (wrapI64 w.2) = none

/-- Only the task of the first event has a cached projection, and the records of the other tasks make no difference to
it. -/
def OneProjection (s : BrokerStore) (events : List AgentEvent) (seqs : List Nat) : Prop :=
  ∀ first ∈ events.head?, (∀ e ∈ events, e.taskId ≠ first.taskId → Cold e.taskId s) ∧
    ∀ p, s.cache.map.lookup first.taskId = some p →
      (batchRecords (events.zip seqs)).foldl TaskProjection.applyIgnoring p =
        (ownRecords first.taskId (events.zip seqs)).foldl TaskProjection.applyIgnoring p

/-- A batch of one task concerns one projection. -/
theorem oneProjection_of_taskId {s : BrokerStore} {events : List AgentEvent} {seqs : List Nat} {taskId : String}
    (h : ∀ e ∈ events, e.taskId = taskId) : OneProjection s events seqs := by
  intro first hfirst
  have hf : first.taskId = taskId := h first (List.mem_of_mem_head? hfirst)
  refine ⟨fun e he hne => absurd ((h e he).trans hf.symm) hne, fun p _ => ?_⟩
  have hall : (events.zip seqs).filter (fun w => w.1.taskId = first.taskId) = events.zip seqs :=
    List.filter_eq_self.mpr fun w hw => by simpa [hf] using h w.1 (List.of_mem_zip hw).1
  rw [ownRecords, hall]

/-- By tasks and numbers: where the records of other tasks have numbers that are new to a cached projection of the first
task, only a list of one task concerns one projection. -/
theorem oneProjection_iff_taskId {s : BrokerStore} {first : AgentEvent} {rest : List AgentEvent} {seqs : List Nat}
    {p : TaskProjection} (hp : s.cache.map.lookup first.taskId = some p) (hlen : seqs.length = (first :: rest).length)
    (hnew : ∀ w ∈ (first :: rest).zip seqs, w.1.taskId ≠ first.taskId → p.bySeq.lookup (wrapI64 w.2) = none ∧
      ∀ r ∈ ownRecords first.taskId ((first :: rest).zip seqs), wrapI64 r.seq ≠ wrapI64 w.2) :
    OneProjection s (first :: rest) seqs ↔ ∀ e ∈ first :: rest, e.taskId = first.taskId := by
  refine ⟨fun hone e he => ?_, oneProjection_of_taskId⟩
  by_contra hne
  obtain ⟨seq, hw⟩ := exists_mem_zip hlen he
  obtain ⟨hold, hown⟩ := hnew _ hw hne
  have hall := lookup_bySeq_written hw p
  rw [(hone first rfl).2 p hp] at hall
  exact hall (lookup_bySeq_foldl_eq_none hold hown)

/-- With fresh numbers the two ways lead to the same projections exactly if the list concerns one projection. -/
theorem projections_eq_iff {s : BrokerStore} {first : AgentEvent} {rest : List AgentEvent} {seqs : List Nat}
    (hn : s.numbersOf (first :: rest) = .ok seqs) (hlen : seqs.length = (first :: rest).length)
    (hfresh : FreshNumbers s (first :: rest)) :
    applyBatch s.cache.map first.taskId ((first :: rest).zip seqs) =
      ((first :: rest).zip seqs).foldl applyOwn s.cache.map ↔ OneProjection s (first :: rest) seqs := by
  constructor
  · intro heq first' hfirst
    cases Option.some.inj hfirst
    have hk : ∀ k, (applyBatch s.cache.map first.taskId ((first :: rest).zip seqs)).lookup k =
        (((first :: rest).zip seqs).foldl applyOwn s.cache.map).lookup k := fun k => by rw [heq]
    simp only [lookup_applyBatch, lookup_foldl_applyOwn] at hk
    refine ⟨fun e he hne => ?_, fun p hp => ?_⟩
    · -- a cached projection of another task would have to know the number of the event already
      by_contra hcached
      obtain ⟨p, hp⟩ := Option.ne_none_iff_exists'.mp hcached
      obtain ⟨seq, hw⟩ := exists_mem_zip hlen he
      have hsame := hk e.taskId
      rw [hp] at hsame
      simp only [Option.map_some, if_neg hne, Option.some.injEq] at hsame
      have hnew := hfresh seqs hn _ hw p hp
      rw [hsame] at hnew
      exact lookup_bySeq_written (List.mem_filter.mpr ⟨hw, by simp⟩) p hnew
    · have hsame := hk first.taskId
      rw [hp] at hsame
      simpa using hsame
  · intro hone
    obtain ⟨hcold, hfold⟩ := hone first rfl
    refine Finmap.ext_lookup fun k => ?_
    rw [lookup_applyBatch, lookup_foldl_applyOwn]
    cases hl : s.cache.map.lookup k with
    | none => rfl
    | some p =>
      by_cases hk : k = first.taskId
      · subst hk
        simp [hfold p hl]
      · -- no event of the list is about this task
        have hnone : ((first :: rest).zip seqs).filter (fun w => w.1.taskId = k) = [] := by
          refine List.filter_eq_nil_iff.mpr fun w hw hwk => ?_
          have hwk : w.1.taskId = k := by simpa using hwk
          have hc := hcold w.1 (List.of_mem_zip hw).1 (by rw [hwk]; exact hk)
          unfold Cold at hc
          rw [hwk, hl] at hc
          cases hc
        simp [hk, ownRecords, hnone, batchRecords]

theorem numbersOf_length {s : BrokerStore} {events : List AgentEvent} {seqs : List Nat}
    (h : s.numbersOf events = .ok seqs) : seqs.length = events.length := by
  induction events generalizing s seqs with
  | nil => cases h; rfl
  | cons e es ih =>
    unfold numbersOf at h
    cases hr : s.nextReply e.taskId with
    | error msg => rw [hr] at h; cases h
    | ok seq =>
      cases hn : (s.taken e seq).numbersOf es with
      | error msg => rw [hr] at h; simp only [hn] at h; cases h
      | ok seqs' =>
        rw [hr] at h
        simp only [hn] at h
        cases h
        simp [ih hn]

/-- **A batch is like single writes exactly if the broker refuses it, or every event passes the checks of a write in
turn and the list concerns one projection.** -/
theorem batch_like_singles_iff {s : BrokerStore} {events : List AgentEvent} (hfresh : FreshNumbers s events) :
    LikeSingles s events ↔ (∃ msg, s.numbersOf events = .error msg) ∨
      ∃ seqs, s.numbersOf events = .ok seqs ∧ ChecksInTurn s.cachedState events ∧ OneProjection s events seqs := by
  cases events with
  | nil => exact ⟨fun _ => Or.inr ⟨[], rfl, trivial, nofun⟩, fun _ => ⟨Iff.rfl, fun _ => rfl, fun _ => rfl, nofun⟩⟩
  | cons first rest =>
    rcases wp_cases (writeEventsBatch_spec first rest s) with
      ⟨ns, s₁, hb, seqs, hn, hs₁, hm₁⟩ | ⟨err, s₁, hb, ⟨msg, hn⟩, hs₁⟩
    · have hone := projections_eq_iff hn (numbersOf_length hn) hfresh
      rcases wp_cases (writeEach_spec (first :: rest) s) with
        ⟨ns', s₂, he, hc, seqs', hn', hs₂, hm₂⟩ | ⟨err, s₂, he, hno⟩
      · cases Except.ok.inj (hn.symm.trans hn')
        constructor
        · intro h
          have hmap := h.projections ⟨ns, by rw [hb]⟩
          rw [hb, he, hm₁, hm₂] at hmap
          exact Or.inr ⟨seqs, hn, hc, hone.mp hmap⟩
        · rintro (⟨msg, herr⟩ | ⟨seqs', hn', -, hproj⟩)
          · rw [hn] at herr; cases herr
          · cases Except.ok.inj (hn.symm.trans hn')
            refine ⟨⟨fun _ => ⟨ns', by rw [he]⟩, fun _ => ⟨ns, by rw [hb]⟩⟩,
              fun _ => ?_, fun _ => ?_, fun err herr => ?_⟩
            · rw [hb, he, hs₁, hs₂]
            · rw [hb, he, hm₁, hm₂, hone.mpr hproj]
            · rw [hb] at herr; cases herr
      · constructor
        · intro h
          obtain ⟨ns', hns⟩ := h.verdict.mp ⟨ns, by rw [hb]⟩
          rw [he] at hns
          cases hns
        · rintro (⟨msg, herr⟩ | ⟨seqs', hn', hc, -⟩)
          · rw [hn] at herr; cases herr
          · exact absurd ⟨hc, seqs', hn'⟩ hno
    · refine ⟨fun _ => Or.inl ⟨msg, hn⟩, fun _ => ⟨⟨?_, ?_⟩, ?_, ?_, fun _ _ => by rw [hb, hs₁]⟩⟩
      · rintro ⟨ns, hns⟩
        rw [hb] at hns
        cases hns
      · rintro ⟨ns, hns⟩
        rcases wp_cases (writeEach_spec (first :: rest) s) with ⟨ns', s₂, -, -, seqs, hn', -⟩ | ⟨err, s₂, he, -⟩
        · rw [hn] at hn'; cases hn'
        · rw [he] at hns; cases hns
      · rintro ⟨ns, hns⟩
        rw [hb] at hns
        cases hns
      · rintro ⟨ns, hns⟩
        rw [hb] at hns
        cases hns

/-- A claim and a start of a turn for a ready task. -/
def claimAndStart : List AgentEvent :=
  [AgentEvent.new "task_1" none none .taskClaimed (.obj []),
    AgentEvent.new "task_1" (some 1) none .turnStarted (.obj [])]

/-- The theorem at a batch of legal moves. -/
theorem batch_like_singles_claimAndStart : LikeSingles (warmStore "task_1" readyLog) claimAndStart := by
  have hfresh : FreshNumbers (warmStore "task_1" readyLog) claimAndStart := by
    intro seqs hn w hw p hp
    have hnumbers : (warmStore "task_1" readyLog).numbersOf claimAndStart = .ok [3, 4] := by decide +kernel
    cases Except.ok.inj (hnumbers.symm.trans hn)
    have hzip : claimAndStart.zip [3, 4] = [(claimAndStart[0], 3), (claimAndStart[1], 4)] := rfl
    rw [hzip] at hw
    have hwarm : (warmStore "task_1" readyLog).cache.map.lookup "task_1" =
        some (TaskProjection.replay "task_1" readyLog) := warm_warmStore "task_1" readyLog
    have hold : ∀ n ∈ [(3 : Int), 4], ((TaskProjection.replay "task_1" readyLog).bySeq.lookup n).isNone = true := by
      decide +kernel
    rcases List.mem_cons.mp hw with rfl | hw
    · cases Option.some.inj (hwarm.symm.trans hp)
      exact Option.isNone_iff_eq_none.mp (hold 3 (by simp))
    · rw [List.mem_singleton.mp hw] at hp ⊢
      cases Option.some.inj (hwarm.symm.trans hp)
      exact Option.isNone_iff_eq_none.mp (hold 4 (by simp))
  refine (batch_like_singles_iff hfresh).mpr (Or.inr ⟨[3, 4], by decide +kernel, ?_, ?_⟩)
  · refine ⟨rfl, rfl, by decide +kernel, rfl, rfl, by decide +kernel, trivial⟩
  · have htask : ∀ e ∈ claimAndStart, e.taskId = "task_1" := by decide
    exact oneProjection_of_taskId htask

/-- A batch makes a canceled task ready, which the single write refuses. -/
theorem batch_skips_guard :
    let s := warmStore "task_1" canceledLog
    let events := [AgentEvent.new "task_1" none none .taskReady (.obj [])]
    (writeEventsBatch events s).1 = .ok [3] ∧ (∀ ns, (writeEach events s).1 ≠ .ok ns) ∧
      (writeEventsBatch events s).2.cachedState "task_1" = some .ready ∧ ¬ LikeSingles s events := by
  intro s events
  have hok : (writeEventsBatch events s).1 = .ok [3] := by decide +kernel
  have hno : ((writeEach events s).1.toOption).isNone = true := by decide +kernel
  have hnone : ∀ ns, (writeEach events s).1 ≠ .ok ns := by
    intro ns h
    rw [h] at hno
    cases hno
  refine ⟨hok, hnone, by decide +kernel, fun h => ?_⟩
  obtain ⟨ns, hns⟩ := h.verdict.mp ⟨_, hok⟩
  exact hnone ns hns

end Fixus
