import Fixus.Lib.Unended
import Fixus.Lifecycle.Agreement
import Fixus.Lifecycle.RecentTurns
import Fixus.Lifecycle.Representation

/-!
# What is left to recover, in the two stores

A recovery begins with two questions: which turns and which steps have not ended? The broker store keeps the open ones
in its projection; the log database looks for starts that have no end anywhere in the log.

- `LogdbdStore.getIncompleteTurns`, `LogdbdStore.getIncompleteSteps`: the questions to the database;
- `activeTurns_iff_open`, `activeSteps_iff_open`: what the projection keeps, from the log;
- `recovery_reads_agree_iff`: the answers of the two stores are the same exactly if what is open was started once and
  has never ended, and the first event of an open turn reads as its start.
-/

namespace Fixus

open Lib Lib.Eff Lib.Unended BrokerStore TaskProjection

/-! ## The questions to the log database -/

def stepStarts : List EventType := [.llmInvoked, .toolInvoked]

def stepTerminals : List EventType := [.llmCompleted, .llmFailed, .toolCompleted, .toolFailed]

/-- The record is of one of the types. -/
def Record.isOf (types : List EventType) (r : Record) : Bool := types.any fun t => r.eventType = t.asStr

/-- The records of some types that have no peer of other types with the same tag: the answer that the log database is
assumed to give to such a question. -/
def absent (log : List Record) (types peers : List EventType) (joinKey : String) : List Record :=
  (query log types []).filter fun r =>
    !(r.metadata.lookup joinKey).any fun tag => !(query log peers [(joinKey, tag)]).isEmpty

/-- A turn as the database returns its start. -/
def turnOfRecord (r : Record) : IncompleteTurn where
  turnId := r.turnId.getD 0
  redoGroup := ((r.content.index "redo_group").asStr).getD "unknown"
  redoCount := wrapI32 (((r.content.index "redo_count").asI64).getD 0)

/-- A step as the database returns its start. -/
def stepOfRecord (r : Record) : IncompleteStep where
  seq := wrapI64 r.seq
  turnId := r.turnId.getD 0
  stepId := r.stepId.getD ""
  startEventType := r.eventType
  payload := r.content

namespace LogdbdStore

def getIncompleteTurns (taskId : String) : StoreM LogdbdStore (List IncompleteTurn) := do
  let recs ← runQuery taskId fun log => absent log [.turnStarted] turnTerminals "turn_id"
  pure ((recs.map turnOfRecord).insertionSort fun t t' => t.turnId ≤ t'.turnId)

def getIncompleteSteps (taskId : String) : StoreM LogdbdStore (List IncompleteStep) := do
  let recs ← runQuery taskId fun log => absent log stepStarts stepTerminals "step_id"
  pure (recs.map stepOfRecord)

end LogdbdStore

/-! ## What is open in a log -/

def startsTurn : Record → Bool := Record.isOf [.turnStarted]

def endsTurn : Record → Bool := Record.isOf turnTerminals

def startsStep : Record → Bool := Record.isOf stepStarts

def endsStep : Record → Bool := Record.isOf stepTerminals

/-- The turn is open, or the step. -/
abbrev OpenTurn : List Record → Int → Prop := Open Record.turnId startsTurn endsTurn

abbrev OpenStep : List Record → String → Prop := Open Record.stepId startsStep endsStep

/-- The records that start a turn or a step name it, as the check of every event demands. -/
structure StartsNamed (log : List Record) : Prop where
  turns : ∀ r ∈ log, startsTurn r = true → r.turnId.isSome = true
  steps : ∀ r ∈ log, startsStep r = true → r.stepId.isSome = true

variable {taskId : String} {log : List Record} {k : Int} {sid : String}

theorem applyHead_activeTurns_eq (p : TaskProjection) (ae : AgentEvent) : (p.applyHead ae).activeTurns =
    if ae.eventType = .turnStarted then p.activeTurns ∪ ae.turnId.toFinset
    else if ae.eventType ∈ turnTerminals then p.activeTurns \ ae.turnId.toFinset
    else p.activeTurns := by
  unfold applyHead
  cases ae.eventType <;> first
    | rfl
    | (cases ae.stepId <;> rfl)
    | simp [turnTerminals, (closeStep_frame p ae).2.1, addUsage_activeTurns]

/-- **The active turns are the open ones.** -/
theorem activeTurns_iff_open : k ∈ (replay taskId log).activeTurns ↔ OpenTurn log k := by
  induction log using List.reverseRecOn with
  | nil =>
    refine iff_of_false (Finset.notMem_empty k) fun h => ?_
    obtain ⟨e, he, -⟩ := h
    cases he
  | append_singleton log r ih =>
    unfold OpenTurn at ih ⊢
    rw [replay_append, open_snoc, ← ih]
    cases he : EventType.fromStr r.eventType with
    | none =>
      have hstart : startsTurn r = false := any_asStr_none he _
      have hend : endsTurn r = false := any_asStr_none he _
      rw [applyIgnoring_none he]
      simp [hstart, hend]
    | some et =>
      have hstart : startsTurn r = decide (et ∈ [EventType.turnStarted]) := any_asStr he _
      have hend : endsTurn r = decide (et ∈ turnTerminals) := any_asStr he _
      rw [applyIgnoring_some he, applyHead_activeTurns_eq, index_activeTurns, hstart, hend]
      by_cases hk : r.turnId = some k
      · by_cases hs : et = .turnStarted
        · subst hs
          simp [eventOf, hk]
        · by_cases ht : et ∈ turnTerminals <;> simp [eventOf, hk, hs, ht]
      · have hno : k ∉ r.turnId.toFinset := by simpa using hk
        by_cases hs : et = .turnStarted
        · subst hs
          simp [eventOf, hk, hno]
        · by_cases ht : et ∈ turnTerminals <;> simp [eventOf, hk, hs, ht, hno]

/-- The last record that starts or ends a step, if it starts it. -/
def lastStart (log : List Record) (sid : String) : Option Record :=
  (log.filter fun r => r.stepId = some sid && (startsStep r || endsStep r)).getLast?.filter startsStep

/-- An active step is there with its last start. -/
theorem activeSteps_eq_lastStart : (replay taskId log).activeSteps.lookup sid =
    (lastStart log sid).bind fun r => (EventType.fromStr r.eventType).map fun et =>
      (wrapI64 r.seq, eventOf taskId et r) := by
  unfold lastStart
  induction log using List.reverseRecOn with
  | nil => exact Finmap.lookup_empty sid
  | append_singleton log r ih =>
    rw [replay_append, List.filter_append]
    cases he : EventType.fromStr r.eventType with
    | none =>
      have hstart : startsStep r = false := any_asStr_none he _
      have hend : endsStep r = false := any_asStr_none he _
      rw [applyIgnoring_none he, ih]
      simp [hstart, hend]
    | some et =>
      have hstart : startsStep r = et.isStepStart := (any_asStr he _).trans (by cases et <;> rfl)
      have hend : endsStep r = et.isStepTerminal := (any_asStr he _).trans (by cases et <;> rfl)
      rw [applyIgnoring_some he, applyHead_activeSteps, index_activeSteps, ih]
      by_cases hs : r.stepId = some sid
      · cases hb : et.isStepStart with
        | true => simp [eventOf, Option.filter, hs, hstart, hb, he, replay_taskId]
        | false => cases ht : et.isStepTerminal <;> simp [eventOf, Option.filter, hs, hstart, hend, hb, ht]
      · simp [eventOf, hs]

theorem lastStart_eq_some {r : Record} : lastStart log sid = some r ↔
    (log.filter fun r => r.stepId = some sid && (startsStep r || endsStep r)).getLast? = some r ∧
      startsStep r = true := by
  unfold lastStart
  rw [Option.filter_eq_some_iff]

/-- A record that starts a step is of a known type. -/
theorem fromStr_of_startsStep {r : Record} (h : startsStep r = true) :
    ∃ et, EventType.fromStr r.eventType = some et := by
  obtain ⟨et, -, het⟩ := List.any_eq_true.mp h
  exact ⟨et, by rw [of_decide_eq_true het, EventType.fromStr_asStr]⟩

/-- **The active steps are the open ones.** -/
theorem activeSteps_iff_open : sid ∈ (replay taskId log).activeSteps.keys ↔ OpenStep log sid := by
  rw [Finmap.mem_keys, Finmap.mem_iff, activeSteps_eq_lastStart]
  constructor
  · rintro ⟨v, hv⟩
    obtain ⟨r, hr, -⟩ := Option.bind_eq_some_iff.mp hv
    exact ⟨r, lastStart_eq_some.mp hr⟩
  · rintro ⟨r, hr⟩
    obtain ⟨et, het⟩ := fromStr_of_startsStep hr.2
    exact ⟨_, by rw [lastStart_eq_some.mpr hr, Option.bind_some, het, Option.map_some]⟩

/-! ## The answers -/

/-- An active step as the projection returns it. -/
def TaskProjection.incompleteStepOf (p : TaskProjection) (sid : String) : Option IncompleteStep :=
  (p.activeSteps.lookup sid).map fun v =>
    { seq := v.1
      turnId := v.2.turnId.getD 0
      stepId := sid
      startEventType := v.2.eventType.asStr
      payload := v.2.payload }

theorem incompleteSteps_eq (p : TaskProjection) (order : List String) :
    p.incompleteSteps order = (walk order p.activeSteps.keys).filterMap p.incompleteStepOf := rfl

/-- Records with the same tag have the same key. -/
theorem absent_eq_unended {κ : Type} [DecidableEq κ] {key : Record → Option κ} {joinKey : String}
    (hkey : ∀ r ∈ log, ∀ r' ∈ log,
      (∃ tag, r.metadata.lookup joinKey = some tag ∧ r'.metadata.lookup joinKey = some tag) ↔
        ∃ k, key r = some k ∧ key r' = some k) (types peers : List EventType) :
    absent log types peers joinKey = unended key (Record.isOf types) (Record.isOf peers) log := by
  have hall : query log types [] = log.filter (Record.isOf types) := by
    unfold query
    exact List.filter_congr fun r _ => Bool.and_true _
  unfold absent unended
  rw [hall, List.filter_filter]
  refine List.filter_congr fun r hr => ?_
  have hpeer : ((r.metadata.lookup joinKey).any fun tag => !(query log peers [(joinKey, tag)]).isEmpty) =
      (key r).any (endedIn key (Record.isOf peers) log) := by
    rw [Bool.eq_iff_iff, Option.any_eq_true, Option.any_eq_true]
    constructor
    · rintro ⟨tag, htag, hfound⟩
      obtain ⟨r', hr'⟩ := List.exists_mem_of_ne_nil (query log peers [(joinKey, tag)]) (by simpa using hfound)
      obtain ⟨hmem, hpeer⟩ := List.mem_filter.mp hr'
      obtain ⟨k, hk, hk'⟩ := (hkey r hr r' hmem).mp ⟨tag, htag, by simp_all⟩
      exact ⟨k, hk, List.any_eq_true.mpr ⟨r', hmem, by simp_all [Record.isOf]⟩⟩
    · rintro ⟨k, hk, hend⟩
      obtain ⟨r', hmem, hpeer⟩ := List.any_eq_true.mp hend
      rw [Bool.and_eq_true, decide_eq_true_eq] at hpeer
      obtain ⟨tag, htag, htag'⟩ := (hkey r hr r' hmem).mpr ⟨k, hk, hpeer.2⟩
      have hfound : r' ∈ query log peers [(joinKey, tag)] :=
        List.mem_filter.mpr ⟨hmem, by simpa [htag', Record.isOf] using hpeer.1⟩
      exact ⟨tag, htag, by simpa using List.ne_nil_of_mem hfound⟩
  rw [hpeer, Bool.and_comm]

/-- The turns of the database are those without an end. -/
theorem absent_turns (hw : WrittenLog log) :
    absent log [.turnStarted] turnTerminals "turn_id" = unended Record.turnId startsTurn endsTurn log := by
  refine absent_eq_unended (fun r hr r' hr' => ⟨?_, ?_⟩) _ _
  · rintro ⟨tag, htag, htag'⟩
    have hprint := hw.tags r hr tag htag
    obtain ⟨k, hk, -⟩ := Option.map_eq_some_iff.mp hprint
    exact ⟨k, by rw [Record.turnId, htag, Option.bind_some, hk], by rw [Record.turnId, htag', Option.bind_some, hk]⟩
  · rintro ⟨k, hk, hk'⟩
    have hrange := Record.inI64_of_turnId hk
    exact ⟨toString k, (hw.tag_iff hr hrange).mpr hk, (hw.tag_iff hr' hrange).mpr hk'⟩

/-- The steps of the database are those without an end. -/
theorem absent_steps :
    absent log stepStarts stepTerminals "step_id" = unended Record.stepId startsStep endsStep log :=
  absent_eq_unended (fun _ _ _ _ => Iff.rfl) _ _

/-! ## When the answers are the same -/

/-- The first record of a turn reads as its start does; the stores have different defaults. -/
structure ReadsAsStart (first start : Record) : Prop where
  redoGroup : ((first.content.index "redo_group").asStr).getD "?" =
    ((start.content.index "redo_group").asStr).getD "unknown"
  redoCount : wrapI32 (((first.content.index "redo_count").asI64).getD 0) =
    wrapI32 (((start.content.index "redo_count").asI64).getD 0)

/-- What is open was started once and has never ended, and the first record of an open turn reads as its start. -/
structure OpenedOnce (log : List Record) : Prop where
  turns : ∀ k, OpenTurn log k → endedIn Record.turnId endsTurn log k = false ∧
    ∃ start, beginsOf Record.turnId startsTurn log k = [start] ∧
      ∃ first ∈ (log.filter fun r => r.turnId = some k).head?, ReadsAsStart first start
  steps : ∀ sid, OpenStep log sid → endedIn Record.stepId endsStep log sid = false ∧
    ∃ start, beginsOf Record.stepId startsStep log sid = [start]

/-- The two stores answer with the same turns and the same steps, each in its own order. -/
structure RecoveryReadsAgree (taskId : String) (order : List Int) (stepOrder : List String) (s : BrokerStore) :
    Prop where
  turns : ∃ turns turns', (brokerEventStore.getIncompleteTurns taskId order s).1 = .ok turns ∧
    (LogdbdStore.getIncompleteTurns taskId { streams := s.streams }).1 = .ok turns' ∧ turns.Perm turns'
  steps : ∃ steps steps', (brokerEventStore.getIncompleteSteps taskId stepOrder s).1 = .ok steps ∧
    (LogdbdStore.getIncompleteSteps taskId { streams := s.streams }).1 = .ok steps' ∧ steps.Perm steps'

/-- The incomplete turn of the projection is that of the start exactly if the first record reads as the start. -/
theorem incompleteTurnOf_eq_iff (hw : WrittenLog log) {start : Record} (hk : start.turnId = some k) :
    incompleteTurnOf k ((eventsOf taskId log).filter fun e => e.turnId = some k) = some (turnOfRecord start) ↔
      ∃ first ∈ (log.filter fun r => r.turnId = some k).head?, ReadsAsStart first start := by
  have hrange := Record.inI64_of_turnId hk
  have hturn : (log.filter fun r => r.metadata.lookup "turn_id" = some (toString k)) =
      log.filter fun r => r.turnId = some k :=
    List.filter_congr fun r hr => decide_eq_decide.mpr (hw.tag_iff hr hrange)
  rw [← hw.eventsOf_filter hrange, hturn]
  cases hrecs : log.filter fun r => r.turnId = some k with
  | nil =>
    refine iff_of_false (fun h => ?_) fun h => ?_
    · cases h
    · obtain ⟨first, hfirst, -⟩ := h
      cases hfirst
  | cons first rest =>
    have hmem : first ∈ log := List.mem_of_mem_filter (hrecs ▸ List.mem_cons_self)
    obtain ⟨et, het⟩ := Option.isSome_iff_exists.mp (hw.known first hmem)
    have hevents : (eventsOf taskId (first :: rest)).head? = some (eventOf taskId et first) := by simp [eventsOf, het]
    unfold incompleteTurnOf
    rw [hevents, Option.map_some, Option.some.injEq]
    constructor
    · intro h
      have hboth := IncompleteTurn.mk.inj h
      exact ⟨first, rfl, hboth.2.1, hboth.2.2⟩
    · rintro ⟨first', hfirst, hreads⟩
      obtain rfl := Option.some.inj hfirst
      unfold turnOfRecord
      rw [hk, ← hreads.redoGroup, ← hreads.redoCount]
      rfl

/-- The incomplete turns are the same exactly if the open turns were opened once. -/
theorem incompleteTurns_perm_iff (hn : Numbered taskId log) (hw : WrittenLog log) (hnamed : StartsNamed log)
    (order : List Int) :
    ((replay taskId log).incompleteTurns order).Perm
        ((absent log [.turnStarted] turnTerminals "turn_id").map turnOfRecord) ↔
      ∀ k, OpenTurn log k → endedIn Record.turnId endsTurn log k = false ∧
        ∃ start, beginsOf Record.turnId startsTurn log k = [start] ∧
          ∃ first ∈ (log.filter fun r => r.turnId = some k).head?, ReadsAsStart first start := by
  have hopen : ∀ k, k ∈ walk order (replay taskId log).activeTurns ↔ OpenTurn log k :=
    fun _ => mem_walk.trans activeTurns_iff_open
  have hanswer : ∀ k ∈ walk order (replay taskId log).activeTurns,
      ∃ turn, incompleteTurnOf k ((replay taskId log).turnEvents k) = some turn ∧ turn.turnId = k := by
    intro k hk
    obtain ⟨turn, hturn⟩ := incompleteTurnOf_active hn (mem_walk.mp hk)
    exact ⟨turn, hturn, incompleteTurnOf_turnId hturn⟩
  have hkey : ∀ r ∈ log, startsTurn r = true → r.turnId = some (turnOfRecord r).turnId := by
    intro r hr hstart
    obtain ⟨k, hk⟩ := Option.isSome_iff_exists.mp (hnamed.turns r hr hstart)
    simp [turnOfRecord, hk]
  rw [incompleteTurns_replay hn, absent_turns hw,
    unended_perm_iff IncompleteTurn.turnId (nodup_walk _ _) hopen hanswer hkey]
  refine forall_congr' fun k => imp_congr (hopen k) (and_congr_right fun _ => exists_congr fun start => ?_)
  refine and_congr_right fun hone => ?_
  have hstart : start ∈ beginsOf Record.turnId startsTurn log k := hone ▸ List.mem_singleton_self start
  obtain ⟨-, hk⟩ := (Bool.and_eq_true _ _).mp (List.mem_filter.mp hstart).2
  rw [replay_turnEvents hn, incompleteTurnOf_eq_iff hw (of_decide_eq_true hk)]

/-- The last start of a step that was started once and has never ended. -/
theorem lastStart_of_once {start : Record} (hend : endedIn Record.stepId endsStep log sid = false)
    (hone : beginsOf Record.stepId startsStep log sid = [start]) : lastStart log sid = some start := by
  have hmarks : (log.filter fun r => r.stepId = some sid && (startsStep r || endsStep r)) =
      beginsOf Record.stepId startsStep log sid := by
    refine List.filter_congr fun r hr => ?_
    by_cases hs : r.stepId = some sid
    · simp [hs, endedIn_eq_false.mp hend r hr hs]
    · simp [hs]
  have hstart : start ∈ beginsOf Record.stepId startsStep log sid := hone ▸ List.mem_singleton_self start
  refine lastStart_eq_some.mpr ⟨by rw [hmarks, hone]; rfl, ?_⟩
  exact ((Bool.and_eq_true _ _).mp (List.mem_filter.mp hstart).2).1

/-- The active step of a last start. -/
theorem incompleteStepOf_lastStart {start : Record} (h : lastStart log sid = some start) :
    (replay taskId log).incompleteStepOf sid = some { stepOfRecord start with stepId := sid } := by
  obtain ⟨et, het⟩ := fromStr_of_startsStep (lastStart_eq_some.mp h).2
  unfold incompleteStepOf
  rw [activeSteps_eq_lastStart, h, Option.bind_some, het]
  simp [stepOfRecord, eventOf, EventType.asStr_of_fromStr het]

/-- The incomplete steps are the same exactly if the open steps were opened once. -/
theorem incompleteSteps_perm_iff (hnamed : StartsNamed log) (order : List String) :
    ((replay taskId log).incompleteSteps order).Perm
        ((absent log stepStarts stepTerminals "step_id").map stepOfRecord) ↔
      ∀ sid, OpenStep log sid → endedIn Record.stepId endsStep log sid = false ∧
        ∃ start, beginsOf Record.stepId startsStep log sid = [start] := by
  have hopen : ∀ sid, sid ∈ walk order (replay taskId log).activeSteps.keys ↔ OpenStep log sid :=
    fun _ => mem_walk.trans activeSteps_iff_open
  have hanswer : ∀ sid ∈ walk order (replay taskId log).activeSteps.keys,
      ∃ step, (replay taskId log).incompleteStepOf sid = some step ∧ step.stepId = sid := by
    intro sid hsid
    obtain ⟨r, hr⟩ := (hopen sid).mp hsid
    exact ⟨_, incompleteStepOf_lastStart (lastStart_eq_some.mpr hr), rfl⟩
  have hkey : ∀ r ∈ log, startsStep r = true → r.stepId = some (stepOfRecord r).stepId := by
    intro r hr hstart
    obtain ⟨sid, hsid⟩ := Option.isSome_iff_exists.mp (hnamed.steps r hr hstart)
    simp [stepOfRecord, hsid]
  rw [incompleteSteps_eq, absent_steps, unended_perm_iff IncompleteStep.stepId (nodup_walk _ _) hopen hanswer hkey]
  refine forall_congr' fun sid => imp_congr (hopen sid) (and_congr_right fun hend => exists_congr fun start => ?_)
  refine and_iff_left_of_imp fun hone => ?_
  have hstart : start ∈ beginsOf Record.stepId startsStep log sid := hone ▸ List.mem_singleton_self start
  obtain ⟨-, hsid⟩ := (Bool.and_eq_true _ _).mp (List.mem_filter.mp hstart).2
  rw [incompleteStepOf_lastStart (lastStart_of_once hend hone)]
  simp [stepOfRecord, of_decide_eq_true hsid]

/-- A healthy store answers from its projection. -/
theorem withProjection_answer {α : Type} {s : BrokerStore} (hs : Healthy s) (f : TaskProjection → α) :
    (withProjection taskId f s).1 = .ok (f (s.view taskId)) := by
  obtain ⟨a, s', heq, rfl, -⟩ := wp_total (withProjection_healthy hs f)
  rw [heq]

/-- **The two stores answer with the same turns and steps exactly if what is open was opened once.** -/
theorem recovery_reads_agree_iff {s : BrokerStore} (hs : Healthy s)
    (hv : s.view taskId = replay taskId (s.log taskId)) (ha : Ascending (s.log taskId))
    (hseq : ∀ r ∈ s.log taskId, r.seq < 2 ^ 64) (hw : WrittenLog (s.log taskId)) (hnamed : StartsNamed (s.log taskId))
    (order : List Int) (stepOrder : List String) :
    RecoveryReadsAgree taskId order stepOrder s ↔ OpenedOnce (s.log taskId) := by
  have hn : Numbered taskId (s.log taskId) := nodup_seqs ha hseq
  have hturns : (brokerEventStore.getIncompleteTurns taskId order s).1 =
      .ok ((replay taskId (s.log taskId)).incompleteTurns order) := hv ▸ withProjection_answer hs _
  have hsteps : (brokerEventStore.getIncompleteSteps taskId stepOrder s).1 =
      .ok ((replay taskId (s.log taskId)).incompleteSteps stepOrder) := hv ▸ withProjection_answer hs _
  have hsorted := List.perm_insertionSort (fun t t' : IncompleteTurn => t.turnId ≤ t'.turnId)
    ((absent (s.log taskId) [.turnStarted] turnTerminals "turn_id").map turnOfRecord)
  have hturnsIff := incompleteTurns_perm_iff hn hw hnamed order
  have hstepsIff := @incompleteSteps_perm_iff taskId _ hnamed stepOrder
  constructor
  · intro h
    obtain ⟨turns, turns', heq, heq', hperm⟩ := h.turns
    obtain ⟨steps, steps', heqs, heqs', hstepsPerm⟩ := h.steps
    obtain rfl := Except.ok.inj (hturns.symm.trans heq)
    obtain rfl := Except.ok.inj (hsteps.symm.trans heqs)
    obtain rfl := Except.ok.inj heq'
    obtain rfl := Except.ok.inj heqs'
    exact ⟨hturnsIff.mp (hperm.trans hsorted), hstepsIff.mp hstepsPerm⟩
  · intro h
    exact ⟨⟨_, _, hturns, rfl, (hturnsIff.mpr h.turns).trans hsorted.symm⟩,
      ⟨_, _, hsteps, rfl, hstepsIff.mpr h.steps⟩⟩

/-- A turn whose start was stored twice. -/
def startedTwice : List Record :=
  let start : Json := .obj [("redo_group", .str "rg_1"), ("redo_count", .int 0)]
  [⟨1, "task_created", .obj [], ∅⟩, ⟨2, "task_ready", .obj [], ∅⟩,
    ⟨3, "turn_started", start, (∅ : Metadata).insert "turn_id" "1"⟩,
    ⟨4, "turn_started", start, (∅ : Metadata).insert "turn_id" "1"⟩]

/-- The database has the turn twice. -/
theorem recovery_reads_twice : ¬ RecoveryReadsAgree "task_1" [] [] (freshStore startedTwice) := by
  intro h
  have hopened := (recovery_reads_agree_iff (freshStore_healthy _) (freshStore_view _ _) (by decide) (by decide)
    ⟨by decide, by decide⟩ ⟨by decide, by decide⟩ [] []).mp h
  have hactive : (1 : Int) ∈ (replay "task_1" startedTwice).activeTurns := by decide
  have hopen : OpenTurn startedTwice 1 := activeTurns_iff_open.mp hactive
  obtain ⟨-, start, hone, -⟩ := hopened.turns 1 hopen
  have hlength : (beginsOf Record.turnId startsTurn startedTwice 1).length = 1 := congrArg List.length hone
  revert hlength
  decide

end Fixus
