import Fixus.Store.Healthy

/-!
# Which tasks exist

The broker store builds a projection for every stream it is asked about, also for a stream without `task_created`.

- `saysNone_iff`: the reads never say that a task does not exist;
- `StartsCreated.after`: a log starts with `task_created` if nothing else is written to an empty one;
- `existence`: both, in the states that calls reach;
- `ready_without_created`: a task that was never created is made ready.
-/

namespace Fixus

open Lib Lib.Eff BrokerStore

/-- The log holds the creation of the task. -/
def Created (log : List Record) : Prop := ∃ r ∈ log, r.eventType = EventType.taskCreated.asStr

/-- A log that is not empty starts with the creation of the task. -/
def StartsCreated (log : List Record) : Prop := ∀ r, log.head? = some r → r.eventType = EventType.taskCreated.asStr

/-- The three reads say that there is no such task. -/
def SaysNone (s : BrokerStore) (taskId : String) : Prop :=
  (∃ s', brokerEventStore.getTask taskId s = (.ok none, s')) ∧
    (∃ s', brokerEventStore.getTaskState taskId s = (.ok none, s')) ∧
    ∃ s', brokerEventStore.taskExists taskId s = (.ok false, s')

/-! ## Reads -/

/-- On a healthy broker the reads always find a task. -/
theorem not_saysNone {s : BrokerStore} (hs : Healthy s) (taskId : String) : ¬ SaysNone s taskId := by
  rintro ⟨-, -, s', h⟩
  obtain ⟨hb, -⟩ := wp_ok (taskExists_healthy hs) h
  cases hb

/-- **The reads deny a task without `task_created` exactly when there is none to deny.** -/
theorem saysNone_iff {s : BrokerStore} (hs : Healthy s) (taskId : String) :
    (¬ Created (s.log taskId) → SaysNone s taskId) ↔ Created (s.log taskId) := by
  constructor
  · intro h
    by_contra hno
    exact not_saysNone hs taskId (h hno)
  · exact fun h hno => absurd h hno

/-! ## Writes -/

/-- The state that the guard of a write to an empty log sees: a post sees the cached one, the other operations have
loaded the projection of the empty log. -/
def stateSeen (s : BrokerStore) (o : Op) : Option TaskState :=
  if o.postedPayload.isSome then (s.cache.map.lookup o.taskId).map TaskProjection.state else some .created

/-- Nothing but `task_created` goes to an empty log: neither a valid event that the guard admits, nor an event of a
batch before the creation. -/
def CreatesFirst (s : BrokerStore) : Call → Prop
  | .op o => s.log o.taskId = [] → ∀ e, o.Describes e → e.validateScope = .ok () →
      validatePayloadRequiredFields e.eventType e.payload = .ok () →
      validateTaskEventTransition (stateSeen s o) e.eventType = .ok () → e.eventType = .taskCreated
  | .createTask _ _ _ _ _ _ => True
  | .writeEventsBatch events => ∀ before e after, events = before ++ e :: after → s.log e.taskId = [] →
      (∀ e' ∈ before, e'.taskId ≠ e.taskId) → e.eventType = .taskCreated

/-- The projections of empty logs are in the initial state. -/
def BlankCreated (s : BrokerStore) : Prop :=
  ∀ k p, s.log k = [] → s.cache.map.lookup k = some p → p.state = .created

/-- What the calls preserve. -/
structure Sound (s : BrokerStore) : Prop where
  healthy : Healthy s
  blank : BlankCreated s
  starts : ∀ k, StartsCreated (s.log k)

/-- Appending to a log that starts with a creation, or appending a creation. -/
theorem StartsCreated.append {log rs : List Record} (h : StartsCreated log) (hrs : log = [] → StartsCreated rs) :
    StartsCreated (log ++ rs) := by
  cases log with
  | nil => exact hrs rfl
  | cons r log => exact fun r' hr' => h r' hr'

/-- Reads keep the projections of empty logs in the initial state. -/
theorem BlankCreated.seen {taskId : String} {s s' : BrokerStore} (hb : BlankCreated s) (hs : Healthy s)
    (h : Seen taskId s s') : BlankCreated s' := by
  intro k p hk hp
  have hlog : s.log k = [] := (congrFun h.streams k).symm.trans hk
  rcases h.others hs k p hp with hp | ⟨rfl, rfl⟩
  · exact hb k p hlog hp
  · cases hl : s.cache.map.lookup k with
    | some q => simpa [view, hl] using hb k q hlog hl
    | none => simp [view, hl, hlog, TaskProjection.replay_state, stateOf]

/-- What leaves the streams and the cached projections alone keeps everything. -/
theorem Sound.untouched {s s' : BrokerStore} (hs : Sound s) (h : Untouched s s') : Sound s' := by
  have hlog : ∀ k, s'.log k = s.log k := fun k => congrFun h.streams k
  refine ⟨h.healthy hs.healthy, fun k p hk hp => ?_, fun k => ?_⟩
  · exact hs.blank k p ((hlog k).symm.trans hk) (h.map ▸ hp)
  · rw [hlog]
    exact hs.starts k

theorem Sound.seen {taskId : String} {s s' : BrokerStore} (hs : Sound s) (h : Seen taskId s s') : Sound s' := by
  refine ⟨h.healthy hs.healthy, hs.blank.seen hs.healthy h, fun k => ?_⟩
  have hlog : s'.log k = s.log k := congrFun h.streams k
  rw [hlog]
  exact hs.starts k

/-- A write keeps everything if it puts nothing but a creation on an empty log. -/
theorem Sound.wrote {e : AgentEvent} {seq : Nat} {s s' : BrokerStore} (hs : Sound s) (h : Wrote e seq s s')
    (he : s.log e.taskId = [] → e.eventType = .taskCreated) : Sound s' := by
  refine ⟨h.healthy hs.healthy, fun k p hk hp => ?_, fun k => ?_⟩
  · by_cases hke : k = e.taskId
    · rw [hke, wrote_log h] at hk
      simp at hk
    · rw [wrote_log_of_ne h hke] at hk
      refine hs.blank k p hk ?_
      rw [h.map] at hp
      cases hl : s.cache.map.lookup e.taskId with
      | none => simpa [hl] using hp
      | some q => simpa [hl, Finmap.lookup_insert_of_ne _ hke] using hp
  · by_cases hke : k = e.taskId
    · rw [hke, wrote_log h]
      refine (hs.starts _).append fun hnil r hr => ?_
      rw [← Option.some.inj hr, ← he hnil]
      rfl
    · rw [wrote_log_of_ne h hke]
      exact hs.starts k

/-- An operation keeps everything if the guard lets nothing but a creation onto an empty log. -/
theorem Sound.op {s : BrokerStore} {o : Op} (hs : Sound s) (hc : CreatesFirst s (.op o)) :
    Sound ((Call.op o).after s) := by
  by_cases hpost : o.postedPayload = none
  · rcases op_cases (o.writesAtMostOnce (brokerEventStore_sees o.taskId)) s with
      ⟨s₁, hR, hu, -⟩ | ⟨-, e, seq, s₁, hd, hR, hacc, -, hwrote⟩
    · exact (hs.seen hR).untouched hu
    · have hs₁ := hs.seen hR
      refine hs₁.wrote hwrote fun hnil => ?_
      have hlog : s.log o.taskId = [] := by
        rw [← hd.taskId]
        exact (congrFun hR.streams _).symm.trans hnil
      have hseen : stateSeen s o = some .created := by simp [stateSeen, hpost]
      have htr := hacc.transition
      cases hl : s₁.cache.map.lookup e.taskId with
      | some p =>
        -- the operation has loaded the projection of the empty log
        rw [hl, Option.map_some, hs₁.blank _ p hnil hl] at htr
        exact hc hlog e hd hacc.scope hacc.fields (hseen ▸ htr)
      | none =>
        rw [hl] at htr
        rcases validateTaskEventTransition_none.mp htr with hnone | hcreated
        · refine hc hlog e hd hacc.scope hacc.fields ?_
          rw [hseen]
          exact validateTaskEventTransition_some.mpr fun t ht => by rw [hnone] at ht; cases ht
        · exact hcreated
  · rcases op_cases (Op.post_writesAtMostOnce hpost) s with ⟨s₁, rfl, hu, -⟩ | ⟨-, e, seq, s₁, hd, rfl, hacc, -, hwrote⟩
    · exact hs.untouched hu
    · refine hs.wrote hwrote fun hnil => ?_
      rw [hd.taskId] at hnil
      have hseen : stateSeen s o = (s.cache.map.lookup o.taskId).map TaskProjection.state := by
        simp [stateSeen, Option.isSome_iff_ne_none, hpost]
      have htr := hacc.transition
      rw [hd.taskId] at htr
      exact hc hnil e hd hacc.scope hacc.fields (hseen ▸ htr)

/-- Creating a task keeps everything. -/
theorem Sound.createTask {s : BrokerStore} (hs : Sound s) (uuid taskType : String) (provenance : Provenance)
    (body : Option Json) (priority : Int) (effectivePolicy : Option EffectivePolicy) :
    Sound ((Call.createTask uuid taskType provenance body priority effectivePolicy).after s) := by
  have hspec := createTask_spec uuid taskType provenance body priority effectivePolicy s
  have hrest : BlankCreated (Call.after s (.createTask uuid taskType provenance body priority effectivePolicy)) ∧
      ∀ k,
        StartsCreated ((Call.after s (.createTask uuid taskType provenance body priority effectivePolicy)).log k) := by
    refine wp_state (P := fun s' => BlankCreated s' ∧ ∀ k, StartsCreated (s'.log k)) (wp_mono hspec ?_ ?_)
    · rintro - s' ⟨hc, -, rec, hrec, hstreams⟩
      have hlog : ∀ k, s'.log k = if k = createdId uuid then s.log k ++ [rec] else s.log k := by
        intro k
        unfold BrokerStore.log
        rw [hstreams, Function.update_apply]
        split
        · rename_i hk
          rw [hk]
        · rfl
      refine ⟨fun k p hk hp => ?_, fun k => ?_⟩
      · rw [hlog] at hk
        split at hk
        · simp at hk
        · exact hs.blank k p hk (hc ▸ hp)
      · rw [hlog]
        split
        · refine (hs.starts k).append fun _ r hr => ?_
          rw [← Option.some.inj hr]
          exact hrec
        · exact hs.starts k
    · rintro - s' ⟨hc, -, hstreams⟩
      have hlog : ∀ k, s'.log k = s.log k := fun k => congrFun hstreams k
      exact ⟨fun k p hk hp => hs.blank k p ((hlog k).symm.trans hk) (hc ▸ hp), fun k => (hlog k).symm ▸ hs.starts k⟩
  exact ⟨Call.healthy hs.healthy _, hrest.1, hrest.2⟩

/-- A batch keeps everything if it creates a task before it writes to its empty log. -/
theorem Sound.batch {s : BrokerStore} {events : List AgentEvent} (hs : Sound s)
    (hc : CreatesFirst s (.writeEventsBatch events)) : Sound ((Call.writeEventsBatch events).after s) := by
  have hrest : BlankCreated (Call.after s (.writeEventsBatch events)) ∧
      ∀ k, StartsCreated ((Call.after s (.writeEventsBatch events)).log k) := by
    refine wp_state (P := fun s' => BlankCreated s' ∧ ∀ k, StartsCreated (s'.log k))
      (wp_mono (batch_spec events s) ?_ ?_)
    · rintro - s' ⟨-, seqs, hlen, hstreams, hmap⟩
      have hlog : ∀ k, s'.log k = s.log k ++ batchRecords ((events.zip seqs).filter fun w => w.1.taskId = k) := by
        intro k
        unfold BrokerStore.log
        rw [hstreams, appendAll_apply]
      have hfst : (events.zip seqs).map Prod.fst = events := List.map_fst_zip (by omega)
      refine ⟨fun k p hk hp => ?_, fun k => ?_⟩
      · rw [hlog, List.append_eq_nil_iff] at hk
        refine hs.blank k p hk.1 ?_
        rw [hmap] at hp
        cases events with
        | nil => exact hp
        | cons first rest =>
          -- the first task has got a record, so it is another one
          have hne : k ≠ first.taskId := by
            rintro rfl
            cases seqs with
            | nil => simp at hlen
            | cons seq seqs => simp [batchRecords] at hk
          cases hl : s.cache.map.lookup first.taskId with
          | none => simpa [hl] using hp
          | some q => simpa [hl, Finmap.lookup_insert_of_ne _ hne] using hp
      · rw [hlog]
        refine (hs.starts k).append fun hnil r hr => ?_
        rw [batchRecords, List.head?_map, List.head?_filter] at hr
        obtain ⟨w, hw, hrw⟩ := Option.map_eq_some_iff.mp hr
        obtain ⟨hwk, before, after, hsplit, hbefore⟩ := List.find?_eq_some_iff_append.mp hw
        have hwk : w.1.taskId = k := by simpa using hwk
        have hev : events = before.map Prod.fst ++ w.1 :: after.map Prod.fst := by
          rw [← hfst, hsplit]
          simp
        have htype := hc _ _ _ hev (by rw [hwk]; exact hnil) fun e' he' => by
          obtain ⟨v, hv, rfl⟩ := List.mem_map.mp he'
          rw [hwk]
          simpa using hbefore v hv
        rw [← hrw]
        exact congrArg EventType.asStr htype
    · rintro - s' ⟨-, hstreams, hmap⟩
      have hlog : ∀ k, s'.log k = s.log k := fun k => congrFun hstreams k
      exact ⟨fun k p hk hp => hs.blank k p ((hlog k).symm.trans hk) (hmap ▸ hp), fun k => (hlog k).symm ▸ hs.starts k⟩
  exact ⟨Call.healthy hs.healthy _, hrest.1, hrest.2⟩

/-- What one call preserves. -/
theorem Sound.after {s : BrokerStore} {c : Call} (hs : Sound s) (hc : CreatesFirst s c) : Sound (c.after s) := by
  cases c with
  | op o => exact hs.op hc
  | createTask uuid taskType provenance body priority effectivePolicy =>
    exact hs.createTask uuid taskType provenance body priority effectivePolicy
  | writeEventsBatch events => exact hs.batch hc

/-! ## Runs -/

/-- A store just started, over an empty and healthy broker. -/
structure Started (s : BrokerStore) : Prop where
  streams : s.streams = fun _ => []
  cache : s.cache = {}
  sessions : s.sessions = []

theorem Started.sound {s : BrokerStore} (h : Started s) : Sound s := by
  have hlog : ∀ k, s.log k = [] := fun k => congrFun h.streams k
  refine ⟨⟨h.sessions, ?_⟩, fun k p _ hp => ?_, fun k r hr => ?_⟩
  · rw [h.cache]
    exact ⟨List.nodup_nil, by simp, by decide⟩
  · rw [h.cache] at hp
    simp at hp
  · rw [hlog] at hr
    cases hr

/-- **Which tasks exist.** In every state that calls reach from the start, the reads deny a task without
`task_created` exactly when there is none to deny; and if nothing but a creation goes to an empty log, every log that
is not empty starts with `task_created`. -/
theorem existence {s : BrokerStore} (h : Started s) (calls : List Call) :
    (∀ taskId, let log := (run (fun s c => Call.after s c) s calls).log taskId
      (¬ Created log → SaysNone (run (fun s c => Call.after s c) s calls) taskId) ↔ Created log) ∧
    (Meets (fun s c => Call.after s c) CreatesFirst s calls →
      ∀ taskId, StartsCreated ((run (fun s c => Call.after s c) s calls).log taskId)) := by
  constructor
  · intro taskId
    have hh : Healthy (run (fun s c => Call.after s c) s calls) :=
      run_invariant Healthy (fun s c hs _ => Call.healthy hs c) h.sound.healthy meets_true
    exact saysNone_iff hh taskId
  · intro hm taskId
    exact (run_invariant Sound (fun s c => Sound.after) h.sound hm).starts taskId

theorem started_empty : Started empty := ⟨rfl, rfl, rfl⟩

/-- The theorem at a task that is created and made ready. -/
theorem existence_created : StartsCreated ((run (fun s c => Call.after s c) empty
    [.createTask "1" "chat" {} none 0 none, .op (.markTaskReady "task_1")]).log "task_1") := by
  have hm : Meets (fun s c => Call.after s c) CreatesFirst empty
      [.createTask "1" "chat" {} none 0 none, .op (.markTaskReady "task_1")] := by
    refine ⟨trivial, fun hnil => ?_, trivial⟩
    have hlen : ((Call.after empty (.createTask "1" "chat" {} none 0 none)).log "task_1").length = 1 := by
      decide +kernel
    have hzero := congrArg List.length hnil
    simp only [Op.taskId, hlen] at hzero
    cases hzero
  exact (existence started_empty _).2 hm "task_1"

/-- A task that was never created is there, and is made ready. -/
theorem ready_without_created :
    let s := (Call.op (.markTaskReady "task_1")).after empty
    ¬ Created (empty.log "task_1") ∧ ¬ SaysNone empty "task_1" ∧ (Call.op (.markTaskReady "task_1")).Ok empty ∧
      (s.log "task_1").map Record.eventType = ["task_ready"] ∧ ¬ StartsCreated (s.log "task_1") := by
  intro s
  have hlog : (s.log "task_1").map Record.eventType = ["task_ready"] := by decide +kernel
  refine ⟨?_, not_saysNone started_empty.sound.healthy _, by unfold Call.Ok; decide +kernel, hlog, fun hstarts => ?_⟩
  · rintro ⟨r, hr, -⟩
    cases hr
  · cases hl : s.log "task_1" with
    | nil =>
      rw [hl] at hlog
      cases hlog
    | cons r rest =>
      rw [hl] at hlog hstarts
      have htype := hstarts r rfl
      rw [(List.cons.inj hlog).1] at htype
      exact absurd htype (by decide)

end Fixus
