import Fixus.Lifecycle.Uniqueness

/-!
# The task state in the two stores

The store on the log database derives the state of a task from its latest task event (`deriveTaskState`); the broker
store folds the log into a projection.

- `derived_standing`: what the queries of `deriveTaskState` find in an ascending log;
- `derive_agrees_iff`: the two states agree unless a turn was started from `ready`;
- `derive_misses_pulled_turn`: a turn that is started without a claim.
-/

namespace Fixus

open BrokerStore

/-! ## The state derived by queries -/

/-- The types of task events that the log database is asked for. -/
def taskEvents : List EventType :=
  [.taskCreated, .taskReady, .taskClaimed, .taskBlocked, .taskSucceeded, .taskFailed, .taskCanceled]

/-- All task events of a log. -/
def readTaskRecords (log : List Record) : List Record := query log taskEvents []

/-- The record with the largest number, the last one of several. -/
def maxBySeq (records : List Record) : Option Record :=
  records.foldl (fun best r =>
    match best with
    | none => some r
    | some b => if b.seq ≤ r.seq then some r else some b) none

/-- The state that a task event leads to. -/
def baseState : Option String → TaskState
  | some "task_created" => .created
  | some "task_ready" => .ready
  | some "task_claimed" => .claimed
  | some "task_blocked" => .blocked
  | some "task_succeeded" => .succeeded
  | some "task_failed" => .failed
  | some "task_canceled" => .canceled
  | _ => .created

/-- The state of a task from its task events; a claimed task is executing if a turn was started after the claim. -/
def deriveTaskState (log records : List Record) : TaskState :=
  let latest := maxBySeq records
  let base := baseState (latest.map Record.eventType)
  if base = .claimed then
    let claimedSeq := (latest.map Record.seq).getD 0
    match maxBySeq (query log [.turnStarted] []) with
    | some ts => if wrapI64 ts.seq > wrapI64 claimedSeq then .executing else base
    | none => base
  else base

/-- The task state that the store on the log database reports. -/
def logdbdTaskState (log : List Record) : Option TaskState :=
  let records := readTaskRecords log
  if records.any (fun r => r.eventType = "task_created") then some (deriveTaskState log records) else none

/-! ## What the queries find -/

theorem maxBySeq_append (records : List Record) (r : Record) : maxBySeq (records ++ [r]) =
    match maxBySeq records with
    | none => some r
    | some b => if b.seq ≤ r.seq then some r else some b := by
  simp only [maxBySeq, List.foldl_append, List.foldl_cons, List.foldl_nil]

theorem mem_of_maxBySeq {records : List Record} {b : Record} (h : maxBySeq records = some b) : b ∈ records := by
  induction records using List.reverseRecOn with
  | nil => cases h
  | append_singleton records r ih =>
    rw [maxBySeq_append] at h
    cases hm : maxBySeq records with
    | none =>
      rw [hm] at h
      cases h
      simp
    | some b' =>
      simp only [hm] at h
      split at h
      · cases h; simp
      · cases h; exact List.mem_append_left _ (ih hm)

/-- The last record of an ascending log has the largest number. -/
theorem maxBySeq_query_append {log : List Record} {r : Record} {types : List EventType} (h : Ascending (log ++ [r]))
    (hr : types.any (fun t => r.eventType = t.asStr) = true) : maxBySeq (query (log ++ [r]) types []) = some r := by
  have happ : query (log ++ [r]) types [] = query log types [] ++ [r] := by
    simp [query, List.filter_append, hr]
  rw [happ, maxBySeq_append]
  cases hm : maxBySeq (query log types []) with
  | none => rfl
  | some b =>
    have hb : b ∈ log := List.mem_of_mem_filter (mem_of_maxBySeq hm)
    have hlt : b.seq < r.seq := (List.pairwise_append.mp h).2.2 b hb r (by simp)
    simp [hlt.le]

/-- Records of other types are not found. -/
theorem query_append_of_not {log : List Record} {r : Record} {types : List EventType}
    (hr : types.any (fun t => r.eventType = t.asStr) = false) : query (log ++ [r]) types [] = query log types [] := by
  simp [query, List.filter_append, hr]

/-- Whether a query for a list of types finds a record. -/
theorem any_asStr {r : Record} {e : EventType} (he : EventType.fromStr r.eventType = some e) (types : List EventType) :
    types.any (fun t => r.eventType = t.asStr) = decide (e ∈ types) := by
  have heq : r.eventType = e.asStr := EventType.asStr_of_fromStr he
  rw [Bool.eq_iff_iff]
  simp only [List.any_eq_true, decide_eq_true_eq]
  constructor
  · rintro ⟨t, ht, htr⟩
    rw [EventType.asStr_inj (heq.symm.trans htr)]
    exact ht
  · exact fun h => ⟨e, h, heq⟩

theorem any_asStr_none {r : Record} (he : EventType.fromStr r.eventType = none) (types : List EventType) :
    types.any (fun t => r.eventType = t.asStr) = false := by
  rw [List.any_eq_false]
  intro t _ ht
  rw [of_decide_eq_true ht, EventType.fromStr_asStr] at he
  cases he

/-- The latest task event and the latest turn start tell the standing of the task. -/
structure DerivedStanding (log : List Record) : Prop where
  last : baseState ((maxBySeq (readTaskRecords log)).map Record.eventType) = (standing log).last
  started : (standing log).started = true ↔ ∃ ts, maxBySeq (query log [.turnStarted] []) = some ts ∧
    ∀ b, maxBySeq (readTaskRecords log) = some b → b.seq < ts.seq

theorem derived_standing {log : List Record} (h : Ascending log) : DerivedStanding log := by
  induction log using List.reverseRecOn with
  | nil => exact ⟨rfl, by simp [standing, query, maxBySeq]⟩
  | append_singleton log r ih =>
    obtain ⟨hlast, hstarted⟩ := ih (List.pairwise_append.mp h).1
    have hbefore : ∀ b ∈ log, b.seq < r.seq := fun b hb => (List.pairwise_append.mp h).2.2 b hb r (by simp)
    cases he : EventType.fromStr r.eventType with
    | none =>
      have htask : readTaskRecords (log ++ [r]) = readTaskRecords log := query_append_of_not (any_asStr_none he _)
      have hturn : query (log ++ [r]) [.turnStarted] [] = query log [.turnStarted] [] :=
        query_append_of_not (any_asStr_none he _)
      have hst : standing (log ++ [r]) = standing log := by simp [Standing.step, he]
      exact ⟨by rw [htask, hst, hlast], by rw [hst, hturn, htask, hstarted]⟩
    | some e =>
      by_cases hts : e = .turnStarted
      · subst hts
        have htask : readTaskRecords (log ++ [r]) = readTaskRecords log :=
          query_append_of_not (by rw [any_asStr he]; decide)
        have hst : standing (log ++ [r]) = { standing log with started := true } := by simp [Standing.step, he]
        refine ⟨by rw [htask, hst, hlast], ?_⟩
        rw [hst, htask]
        refine ⟨fun _ => ⟨r, maxBySeq_query_append h (by rw [any_asStr he]; decide), fun b hb => ?_⟩, fun _ => rfl⟩
        exact hbefore b (List.mem_of_mem_filter (mem_of_maxBySeq hb))
      · have hturn : query (log ++ [r]) [.turnStarted] [] = query log [.turnStarted] [] :=
          query_append_of_not (by rw [any_asStr he]; simpa using hts)
        by_cases ht : e ∈ taskEvents
        · -- a task event is the latest one, and no turn start comes after it
          have htask : maxBySeq (readTaskRecords (log ++ [r])) = some r :=
            maxBySeq_query_append h (by rw [any_asStr he]; simpa using ht)
          have heq : r.eventType = e.asStr := EventType.asStr_of_fromStr he
          have hst : ∃ t, e.targetState = some t ∧ standing (log ++ [r]) = { last := t } ∧
            baseState (some e.asStr) = t := by
            rw [standing_append]
            unfold Standing.step
            simp only [he]
            cases e <;> simp_all [taskEvents, EventType.targetState, baseState, EventType.asStr]
          obtain ⟨t, -, hst, hbase⟩ := hst
          refine ⟨by rw [htask, hst, Option.map_some, heq, hbase], ?_⟩
          rw [hst, htask, hturn]
          refine ⟨fun h => by (cases h), ?_⟩
          rintro ⟨ts, hmax, hlt⟩
          have hback := hbefore ts (List.mem_of_mem_filter (mem_of_maxBySeq hmax))
          have := hlt r rfl
          omega
        · have htask : readTaskRecords (log ++ [r]) = readTaskRecords log :=
            query_append_of_not (by rw [any_asStr he]; simpa using ht)
          have hst : standing (log ++ [r]) = standing log := by
            rw [standing_append]
            unfold Standing.step
            simp only [he]
            cases e <;> simp_all [taskEvents, EventType.targetState]
          exact ⟨by rw [htask, hst, hlast], by rw [hst, hturn, htask, hstarted]⟩

/-! ## Agreement -/

/-- The casts to signed numbers keep the order of the latest task event and the latest turn start. -/
def CastsKeepOrder (log : List Record) : Prop :=
  ∀ b ∈ maxBySeq (readTaskRecords log), ∀ ts ∈ maxBySeq (query log [.turnStarted] []),
    (wrapI64 b.seq < wrapI64 ts.seq ↔ b.seq < ts.seq)

/-- No turn was started from `ready`: the last task event is not `task_ready`, or no turn start comes after it. -/
def NoTurnFromReady (log : List Record) : Prop := ¬ ((standing log).last = .ready ∧ (standing log).started = true)

/-- Sequence numbers of an `i64` are not changed by the casts. -/
theorem castsKeepOrder_of_fits {log : List Record} (h : ∀ r ∈ log, r.seq < 2 ^ 63) : CastsKeepOrder log := by
  intro b hb ts hts
  have hb' := h b (List.mem_of_mem_filter (mem_of_maxBySeq hb))
  have hts' := h ts (List.mem_of_mem_filter (mem_of_maxBySeq hts))
  rw [wrapI64_of_inI64 ⟨by omega, by omega⟩, wrapI64_of_inI64 ⟨by omega, by omega⟩]
  omega

/-- The derived state in terms of the standing of the task. -/
theorem deriveTaskState_eq {log : List Record} (h : Ascending log) : deriveTaskState log (readTaskRecords log) =
    if (standing log).last = .claimed ∧ (∃ b ∈ maxBySeq (readTaskRecords log),
      ∃ ts ∈ maxBySeq (query log [.turnStarted] []), wrapI64 b.seq < wrapI64 ts.seq)
    then .executing else (standing log).last := by
  obtain ⟨hlast, -⟩ := derived_standing h
  unfold deriveTaskState
  simp only [hlast]
  by_cases hc : (standing log).last = .claimed
  · cases hb : maxBySeq (readTaskRecords log) with
    | none =>
      rw [hb] at hlast
      rw [hc] at hlast
      cases hlast
    | some b =>
      cases hts : maxBySeq (query log [.turnStarted] []) with
      | none => simp [hc]
      | some ts => simp [hc]
  · simp [hc]

/-- **The two stores report the same task state exactly if no turn was started from `ready`** (and the casts of the
numbers do no harm). -/
theorem derive_agrees_iff (taskId : String) {log : List Record} (h : Ascending log) :
    deriveTaskState log (readTaskRecords log) = (TaskProjection.replay taskId log).state ↔
      NoTurnFromReady log ∧ ((standing log).last = .claimed → CastsKeepOrder log) := by
  obtain ⟨hlast, hstarted⟩ := derived_standing h
  have hne := standing_last_ne log
  rw [TaskProjection.replay_state, stateOf_eq_standing, deriveTaskState_eq h]
  unfold NoTurnFromReady Standing.state CastsKeepOrder
  by_cases hr : (standing log).last = .ready
  · simp [hr]
  · by_cases hc : (standing log).last = .claimed
    · cases hb : maxBySeq (readTaskRecords log) with
      | none =>
        rw [hb, hc] at hlast
        cases hlast
      | some b =>
        rw [hb] at hstarted
        cases hts : maxBySeq (query log [.turnStarted] []) with
        | none =>
          have hs : (standing log).started = false := by simpa [hts] using hstarted
          simp [hc, hs]
        | some ts =>
          have hs : (standing log).started = true ↔ b.seq < ts.seq := by simpa [hts] using hstarted
          by_cases hw : wrapI64 b.seq < wrapI64 ts.seq <;> by_cases hlt : b.seq < ts.seq <;> simp [hc, hs, hw, hlt]
    · simp [hr, hc]

/-- A task that is claimed before its turn is started. -/
def claimedTurn : List Record :=
  [⟨1, "task_created", .obj [], ∅⟩, ⟨2, "task_ready", .obj [], ∅⟩, ⟨3, "task_claimed", .obj [], ∅⟩,
    ⟨4, "turn_started", .obj [], (∅ : Metadata).insert "turn_id" "1"⟩]

/-- The theorem at `claimedTurn`. -/
theorem derive_agrees_claimedTurn :
    deriveTaskState claimedTurn (readTaskRecords claimedTurn) = (TaskProjection.replay "task_1" claimedTurn).state :=
  (derive_agrees_iff "task_1" (by decide)).mpr
    ⟨by unfold NoTurnFromReady; decide, fun _ => castsKeepOrder_of_fits (by decide)⟩

/-- A task whose turn is started without a claim, as the pull-based services do. -/
def pulledTurn : List Record :=
  [⟨1, "task_created", .obj [], ∅⟩, ⟨2, "task_ready", .obj [], ∅⟩,
    ⟨3, "turn_started", .obj [], (∅ : Metadata).insert "turn_id" "1"⟩]

/-- For the log database the task stays ready; for the broker store it is executing. -/
theorem derive_misses_pulled_turn :
    Ascending pulledTurn ∧ pulledTurn.head?.map Record.eventType = some "task_created" ∧
    logdbdTaskState pulledTurn = some .ready ∧ (TaskProjection.replay "task_1" pulledTurn).state = .executing ∧
    deriveTaskState pulledTurn (readTaskRecords pulledTurn) ≠ (TaskProjection.replay "task_1" pulledTurn).state := by
  refine ⟨by decide, by decide, by decide, by decide +kernel, ?_⟩
  have hexec : (TaskProjection.replay "task_1" pulledTurn).state = .executing := by decide +kernel
  rw [hexec]
  decide

end Fixus
