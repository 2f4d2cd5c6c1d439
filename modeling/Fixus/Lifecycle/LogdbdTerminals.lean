import Mathlib.Data.List.Count
import Fixus.Store.Logdbd

/-!
# Terminal events on the log database

The store on the log database looks for a terminal event of the same kind before it writes one. A batch is checked as a
whole against what is stored, so two events of one batch do not see each other.

- `Record.claim`: what a terminal record ends, so that nothing else may end it;
- `checkTerminalUniqueness_iff`: the check of the store looks for the claim of the event;
- `terminalsUnique_iff_nodup`: unique terminal events are claims without repetition;
- `logdbd_terminals_unique_iff`: in every run, terminal events stay unique exactly if no batch that is accepted ends
  something twice.
-/

namespace Fixus

open Lib Lib.Eff LogdbdStore

/-! ## Claims -/

/-- What a record of the type ends: the types that end the same, and the tags. -/
def claimOf (et : EventType) (tags : EventScope → Option (List (String × String))) :
    Option (List EventType × List (String × String)) :=
  (conflictTypes et).bind fun c => (tags c.2).map fun t => (c.1, t)

/-- The tags of a level on a record. -/
def Record.scopeTags (r : Record) : EventScope → Option (List (String × String))
  | .turn => (r.metadata.lookup "turn_id").map fun tag => [("turn_id", tag)]
  | .step => (r.metadata.lookup "step_id").map fun tag => [("step_id", tag)]
  | _ => some []

def Record.claim (r : Record) : Option (List EventType × List (String × String)) :=
  (EventType.fromStr r.eventType).bind fun et => claimOf et r.scopeTags

def AgentEvent.claim (e : AgentEvent) : Option (List EventType × List (String × String)) :=
  claimOf e.eventType fun scope => (scopeTags e scope).toOption

/-- At most one record ends a session or a task; at most one ends a turn, and a step in each of the two ways. -/
structure TerminalsUnique (log : List Record) : Prop where
  session : (query log [.sessionEnded] []).length ≤ 1
  task : (query log [.taskSucceeded, .taskFailed, .taskCanceled] []).length ≤ 1
  turn : ∀ tag, (query log turnTerminals [("turn_id", tag)]).length ≤ 1
  llm : ∀ sid, (query log llmTerminals [("step_id", sid)]).length ≤ 1
  tool : ∀ sid, (query log toolTerminals [("step_id", sid)]).length ≤ 1

/-- The claims of a log. -/
def claims (log : List Record) : List (List EventType × List (String × String)) := log.filterMap Record.claim

variable {log : List Record} {e : AgentEvent} {et : EventType} {types : List EventType} {scope : EventScope}
  {tags : List (String × String)}

/-- The types that end the same exclude each other. -/
theorem conflictTypes_iff {et et' : EventType} (h : conflictTypes et = some (types, scope)) :
    et' ∈ types ↔ conflictTypes et' = some (types, scope) := by
  cases et <;> cases h <;> cases et' <;> decide

/-- The tags ask for what a record has on the level. -/
def AsksFor (tags : List (String × String)) (scope : EventScope) : Prop :=
  ∀ r : Record, (tags.all fun kv => r.metadata.lookup kv.1 = some kv.2) = true ↔ r.scopeTags scope = some tags

theorem asksFor_turn (tag : String) : AsksFor [("turn_id", tag)] .turn := fun r => by simp [Record.scopeTags]

theorem asksFor_step (sid : String) : AsksFor [("step_id", sid)] .step := fun r => by simp [Record.scopeTags]

theorem asksFor_task : AsksFor [] .task := fun r => by simp [Record.scopeTags]

theorem asksFor_session : AsksFor [] .session := fun r => by simp [Record.scopeTags]

/-- The tags that the check asks for. -/
theorem asksFor_of_scopeTags (ht : scopeTags e scope = .ok tags) : AsksFor tags scope := by
  cases scope with
  | task =>
    obtain rfl := Except.ok.inj ht
    exact asksFor_task
  | session =>
    obtain rfl := Except.ok.inj ht
    exact asksFor_session
  | turn =>
    cases hk : e.turnId with
    | none => simp [Fixus.scopeTags, hk] at ht
    | some k =>
      obtain rfl : [("turn_id", toString k)] = tags := by simpa [Fixus.scopeTags, hk] using ht
      exact asksFor_turn _
  | step =>
    cases hs : e.stepId with
    | none => simp [Fixus.scopeTags, hs] at ht
    | some sid =>
      obtain rfl : [("step_id", sid)] = tags := by simpa [Fixus.scopeTags, hs] using ht
      exact asksFor_step _

/-- The tags of a level name a turn, a step, or nothing. -/
def LevelTags (tags : List (String × String)) : EventScope → Prop
  | .turn => ∃ tag, tags = [("turn_id", tag)]
  | .step => ∃ sid, tags = [("step_id", sid)]
  | .task | .session => tags = []

/-- The tags that a record has. -/
theorem Record.scopeTags_eq_some {r : Record} (h : r.scopeTags scope = some tags) :
    AsksFor tags scope ∧ LevelTags tags scope := by
  cases scope with
  | task =>
    obtain rfl := Option.some.inj h
    exact ⟨asksFor_task, rfl⟩
  | session =>
    obtain rfl := Option.some.inj h
    exact ⟨asksFor_session, rfl⟩
  | turn =>
    obtain ⟨tag, -, rfl⟩ := Option.map_eq_some_iff.mp h
    exact ⟨asksFor_turn tag, tag, rfl⟩
  | step =>
    obtain ⟨sid, -, rfl⟩ := Option.map_eq_some_iff.mp h
    exact ⟨asksFor_step sid, sid, rfl⟩

/-- A question finds the records with its claim. -/
theorem asks_iff_claim (hc : conflictTypes et = some (types, scope)) (ht : AsksFor tags scope) (r : Record) :
    (types.any (fun t => r.eventType = t.asStr) && tags.all fun kv => r.metadata.lookup kv.1 = some kv.2) = true ↔
      r.claim = some (types, tags) := by
  rw [Bool.and_eq_true, ht r]
  unfold Record.claim claimOf
  cases he : EventType.fromStr r.eventType with
  | none => simp [any_asStr_none he]
  | some et' =>
    rw [any_asStr he, decide_eq_true_eq, conflictTypes_iff hc, Option.bind_some]
    constructor
    · rintro ⟨hc', htags⟩
      rw [hc', Option.bind_some, htags]
      rfl
    · intro h
      obtain ⟨⟨types', scope'⟩, hc', hmap⟩ := Option.bind_eq_some_iff.mp h
      obtain ⟨tags', htags, heq⟩ := Option.map_eq_some_iff.mp hmap
      obtain ⟨rfl, rfl⟩ := Prod.mk.inj heq
      -- the type is among the types of its own claim
      have hboth := (conflictTypes_iff hc).mp ((conflictTypes_iff hc').mpr hc')
      obtain rfl : scope' = scope := (Prod.mk.inj (Option.some.inj (hc'.symm.trans hboth))).2
      exact ⟨hc', htags⟩

/-- A question has as many answers as its claim has. -/
theorem length_query (et : EventType) (hc : conflictTypes et = some (types, scope)) (ht : AsksFor tags scope) :
    (query log types tags).length = (claims log).count (types, tags) := by
  unfold query claims
  rw [List.count_filterMap, List.countP_eq_length_filter]
  refine congrArg List.length (List.filter_congr fun r _ => ?_)
  rw [Bool.eq_iff_iff, beq_iff_eq]
  exact asks_iff_claim hc ht r

/-- The level of a claim is that of its type. -/
theorem TerminalsUnique.query_le (h : TerminalsUnique log) (hc : conflictTypes et = some (types, scope))
    (hlevel : LevelTags tags scope) : (query log types tags).length ≤ 1 := by
  cases et <;> cases hc
  case sessionEnded => exact hlevel ▸ h.session
  case taskSucceeded | taskFailed | taskCanceled => exact hlevel ▸ h.task
  case turnCompleted | turnFailed | turnCanceled | turnBlocked =>
    obtain ⟨tag, rfl⟩ := hlevel
    exact h.turn tag
  case llmCompleted | llmFailed =>
    obtain ⟨sid, rfl⟩ := hlevel
    exact h.llm sid
  case toolCompleted | toolFailed =>
    obtain ⟨sid, rfl⟩ := hlevel
    exact h.tool sid

/-- **Unique terminal events are claims without repetition.** -/
theorem terminalsUnique_iff_nodup : TerminalsUnique log ↔ (claims log).Nodup := by
  rw [List.nodup_iff_count_le_one]
  constructor
  · rintro h ⟨types, tags⟩
    by_cases hmem : (types, tags) ∈ claims log
    · obtain ⟨r, -, hr⟩ := List.mem_filterMap.mp hmem
      obtain ⟨et, -, hclaim⟩ := Option.bind_eq_some_iff.mp hr
      obtain ⟨⟨types', scope⟩, hc, hmap⟩ := Option.bind_eq_some_iff.mp hclaim
      obtain ⟨tags', htags, heq⟩ := Option.map_eq_some_iff.mp hmap
      obtain ⟨rfl, rfl⟩ := Prod.mk.inj heq
      obtain ⟨hasks, hlevel⟩ := Record.scopeTags_eq_some htags
      rw [← length_query et hc hasks]
      exact h.query_le hc hlevel
    · rw [List.count_eq_zero_of_not_mem hmem]
      exact Nat.zero_le 1
  · intro h
    refine ⟨?_, ?_, fun tag => ?_, fun sid => ?_, fun sid => ?_⟩
    · exact (length_query .sessionEnded rfl asksFor_session).trans_le (h _)
    · exact (length_query .taskFailed rfl asksFor_task).trans_le (h _)
    · exact (length_query .turnFailed rfl (asksFor_turn tag)).trans_le (h _)
    · exact (length_query .llmFailed rfl (asksFor_step sid)).trans_le (h _)
    · exact (length_query .toolFailed rfl (asksFor_step sid)).trans_le (h _)

/-! ## Runs -/

/-- The claims of the requests for a task. -/
def claimsFor (qs : List AppendRequest) (taskId : String) : List (List EventType × List (String × String)) :=
  (qs.filter fun q => q.stream = taskId).filterMap fun q => (q.record 0).claim

/-- Requests add their claims. -/
theorem claims_foldl (qs : List AppendRequest) (streams : String → List Record) (taskId : String) :
    claims ((qs.foldl (fun streams q => q.appendTo streams) streams) taskId) =
      claims (streams taskId) ++ claimsFor qs taskId := by
  induction qs generalizing streams with
  | nil => simp [claimsFor]
  | cons q qs ih =>
    rw [List.foldl_cons, ih]
    unfold claims claimsFor AppendRequest.appendTo
    by_cases hq : q.stream = taskId
    · subst hq
      have hnumber : (q.record ((streams q.stream).length + 1)).claim = (q.record 0).claim := rfl
      rw [Function.update_self, List.filterMap_append, List.filter_cons_of_pos (by simp), List.append_assoc]
      congr 1
      simp [List.filterMap_cons, hnumber]
      cases (q.record 0).claim <;> rfl
    · rw [Function.update_of_ne (Ne.symm hq), List.filter_cons_of_neg (by simpa using hq)]

/-- The record of an event claims what the event does. -/
theorem claim_ofEvent (e : AgentEvent) (seq : Nat) : ((AppendRequest.ofEvent e).record seq).claim = e.claim := by
  have htype : EventType.fromStr ((AppendRequest.ofEvent e).record seq).eventType = some e.eventType :=
    EventType.fromStr_asStr _
  have htags : ((AppendRequest.ofEvent e).record seq).scopeTags = fun scope => (scopeTags e scope).toOption := by
    funext scope
    cases scope with
    | task | session => rfl
    | turn =>
      cases hk : e.turnId <;> simp [Record.scopeTags, Fixus.scopeTags, AppendRequest.record,
        AppendRequest.ofEvent, hk] <;> rfl
    | step =>
      cases hs : e.stepId <;> simp [Record.scopeTags, Fixus.scopeTags, AppendRequest.record,
        AppendRequest.ofEvent, hs] <;> rfl
  unfold Record.claim AgentEvent.claim
  rw [htype, htags, Option.bind_some]

/-- An event that passes the checks claims nothing that is there. -/
theorem PassesChecks.claim_not_mem (h : PassesChecks log e) {c} (hc : e.claim = some c) : c ∉ claims log := by
  obtain ⟨⟨types, scope⟩, hconflict, hmap⟩ := Option.bind_eq_some_iff.mp hc
  obtain ⟨tags, htags, rfl⟩ := Option.map_eq_some_iff.mp hmap
  have hok : scopeTags e scope = .ok tags := by
    cases hs : scopeTags e scope with
    | error err => cases (congrArg Except.toOption hs).symm.trans htags
    | ok tags' => rw [← Option.some.inj ((congrArg Except.toOption hs).symm.trans htags)]
  have hnone := query_eq_nil_of_check h.terminals hconflict hok
  have hcount : (query log types tags).length = (claims log).count (types, tags) :=
    length_query e.eventType hconflict (asksFor_of_scopeTags hok)
  rw [hnone] at hcount
  exact List.count_eq_zero.mp hcount.symm

/-- A batch that is accepted ends nothing twice. -/
def BatchApart (maxTurnTag : List Record → Option Nat) (s : LogdbdStore) (c : Call) : Prop :=
  ∀ events, c = .writeEventsBatch events → Accepts maxTurnTag s c →
    ∀ taskId, ((events.filter fun e => e.taskId = taskId).filterMap AgentEvent.claim).Nodup

theorem claimsFor_ofEvent (events : List AgentEvent) (taskId : String) :
    claimsFor (events.map .ofEvent) taskId = (events.filter fun e => e.taskId = taskId).filterMap AgentEvent.claim := by
  unfold claimsFor
  rw [List.filter_map, List.filterMap_map]
  exact List.filterMap_congr fun e _ => claim_ofEvent e 0

/-- The creation of a task claims nothing. -/
theorem claimsFor_created (uuid taskType tenantId userId : String) (provenance : Provenance) (body : Option Json)
    (priority : Int) (effectivePolicy : Option EffectivePolicy) (taskId : String) :
    claimsFor [createdRequest uuid taskType tenantId userId provenance body priority effectivePolicy] taskId = [] := by
  unfold claimsFor
  refine List.filterMap_eq_nil_iff.mpr fun q hq => ?_
  obtain rfl := List.mem_singleton.mp (List.mem_of_mem_filter hq)
  rfl

section Issued

variable {maxTurnTag : List Record → Option Nat} {s : LogdbdStore} {c : Call} {qs : List AppendRequest}

/-- What is sent claims nothing that is there. -/
theorem claimsFor_new (h : Issues maxTurnTag s c qs) {taskId : String} :
    ∀ c ∈ claimsFor qs taskId, c ∉ claims (s.streams taskId) := by
  have hevents : ∀ events : List AgentEvent, (∀ e ∈ events, PassesChecks (s.streams e.taskId) e) →
      ∀ c ∈ claimsFor (events.map .ofEvent) taskId, c ∉ claims (s.streams taskId) := by
    intro events hchecked c hc
    rw [claimsFor_ofEvent] at hc
    obtain ⟨e, he, hclaim⟩ := List.mem_filterMap.mp hc
    obtain ⟨hmem, htask⟩ := List.mem_filter.mp he
    exact of_decide_eq_true htask ▸ (hchecked e hmem).claim_not_mem hclaim
  cases c with
  | op o =>
    obtain ⟨hchecked, rfl⟩ := h
    have htask : (eventFor maxTurnTag s o).taskId = o.taskId := o.event_taskId _
    exact hevents [eventFor maxTurnTag s o] fun e he => List.mem_singleton.mp he ▸ htask ▸ hchecked
  | createTask uuid taskType provenance body priority effectivePolicy =>
    subst h
    simp [claimsFor_created]
  | writeEventsBatch events =>
    obtain ⟨hchecked, rfl⟩ := h
    exact hevents events hchecked

/-- Only a batch can end something twice. -/
theorem batchApart_iff (haccepted : Accepts maxTurnTag s c) (h : Issues maxTurnTag s c qs) :
    BatchApart maxTurnTag s c ↔ ∀ taskId, (claimsFor qs taskId).Nodup := by
  unfold BatchApart
  cases c with
  | op o =>
    obtain ⟨-, rfl⟩ := h
    refine iff_of_true (fun _ heq => by cases heq) fun taskId => ?_
    generalize eventFor maxTurnTag s o = e
    rw [show [AppendRequest.ofEvent e] = [e].map .ofEvent from rfl, claimsFor_ofEvent]
    by_cases he : e.taskId = taskId <;> cases hc : e.claim <;> simp [he, hc]
  | createTask uuid taskType provenance body priority effectivePolicy =>
    subst h
    exact iff_of_true (fun _ heq => by cases heq) fun taskId => by rw [claimsFor_created]; exact List.nodup_nil
  | writeEventsBatch events =>
    obtain ⟨-, rfl⟩ := h
    simp only [claimsFor_ofEvent]
    exact ⟨fun h => h events rfl haccepted, fun h _ heq _ => (Call.writeEventsBatch.inj heq) ▸ h⟩

end Issued

/-- **A call keeps the terminal events of all tasks unique exactly if they were and it is no batch that ends something
twice.** -/
theorem call_terminalsUnique_iff (maxTurnTag : List Record → Option Nat) (s : LogdbdStore) (c : Call) :
    (∀ taskId, TerminalsUnique ((after maxTurnTag s c).streams taskId)) ↔
      (∀ taskId, TerminalsUnique (s.streams taskId)) ∧ BatchApart maxTurnTag s c := by
  simp only [terminalsUnique_iff_nodup]
  rcases call_cases maxTurnTag s c with ⟨hrefused, hsame⟩ | ⟨haccepted, qs, hissues, hstored⟩
  · rw [hsame]
    exact (and_iff_left fun _ _ hok => absurd hok hrefused).symm
  · simp only [hstored, claims_foldl, List.nodup_append]
    constructor
    · intro h
      exact ⟨fun taskId => (h taskId).1, (batchApart_iff haccepted hissues).mpr fun taskId => (h taskId).2.1⟩
    · rintro ⟨h, hapart⟩ taskId
      refine ⟨h taskId, (batchApart_iff haccepted hissues).mp hapart taskId, fun a ha b hb heq => ?_⟩
      exact claimsFor_new hissues b hb (heq ▸ ha)

/-- In a database without records everything is unique. -/
theorem TerminalsUnique.empty : TerminalsUnique [] := terminalsUnique_iff_nodup.mpr List.nodup_nil

/-- **In every run, terminal events stay unique exactly if no batch that is accepted ends something twice.** -/
theorem logdbd_terminals_unique_iff (maxTurnTag : List Record → Option Nat) {s : LogdbdStore}
    (hempty : ∀ taskId, s.streams taskId = []) (calls : List Call) :
    (∀ taskId, TerminalsUnique ((run (after maxTurnTag) s calls).streams taskId)) ↔
      Meets (after maxTurnTag) (BatchApart maxTurnTag) s calls := by
  rw [run_iff (fun s : LogdbdStore => ∀ taskId, TerminalsUnique (s.streams taskId))
    (call_terminalsUnique_iff maxTurnTag)]
  exact and_iff_right fun taskId => hempty taskId ▸ TerminalsUnique.empty

/-- A batch in which a turn is completed and failed. -/
def endedTwice : Call :=
  .writeEventsBatch
    [AgentEvent.new "task_1" (some 1) none .turnCompleted (.obj [("final_output", .str "done")]),
      AgentEvent.new "task_1" (some 1) none .turnFailed (turnFailedPayload "timeout" "too late" none none)]

/-- The batch is accepted, and the turn has ended twice. -/
theorem logdbd_terminals_twice :
    ¬ ∀ taskId,
      TerminalsUnique ((run (after fun _ => none) { streams := fun _ => [] } [endedTwice]).streams taskId) := by
  intro h
  have hmeets := (logdbd_terminals_unique_iff _ (fun _ => rfl) _).mp h
  have hnodup := hmeets.1 _ rfl rfl "task_1"
  revert hnodup
  decide

end Fixus
