import Mathlib.Data.Int.ConditionallyCompleteOrder
import Mathlib.Data.Int.Interval
import Mathlib.Order.ConditionallyCompleteLattice.Basic
import Fixus.Data.SerdeJson
import Fixus.Lifecycle.Agreement
import Fixus.Store.Context
import Fixus.Store.Redelivery
import Fixus.Store.TenantPolicy

/-!
# When a task is due for a summary

`check_summary_trigger` counts what happened after the boundary of the latest summary: turns, events and tokens. The log
database counts the records of the log; the broker store reads the fields of the projection.

- `checkSummaryTrigger`: the check, over any store;
- `triggerOf`: the three numbers that the log has;
- `triggers_agree_iff`: both stores report them exactly if the log after the boundary is countable in the way that the
  projection counts (`Countable`);
- `triggers_differ`: one turn with a model call.
-/

namespace Fixus

open Lib Lib.Eff BrokerStore TaskProjection Context

/-! ## The check -/

structure SummaryTrigger where
  turnCountSinceLastSummary : Int
  tokenEstimate : Int
  eventCountSinceLastSummary : Int
  deriving DecidableEq

namespace SummaryTrigger

/-- The decision at given thresholds. -/
def reaches (turns tokens events : Int) (t : SummaryTrigger) : Bool :=
  t.turnCountSinceLastSummary ≥ turns || t.tokenEstimate ≥ tokens || t.eventCountSinceLastSummary ≥ events

def shouldSummarize (t : SummaryTrigger) : Bool := t.reaches 50 80000 500

end SummaryTrigger

/-- The `usage.total_tokens` of a payload. -/
def totalTokens (payload : Json) : Option Int :=
  ((payload.get "usage").bind fun usage => usage.get "total_tokens").bind Json.asI64

/-- Add up the tokens of the payloads that can be read. -/
def estimateTokens (fromStr : String → Option Json) (payloads : List String) : Int :=
  payloads.foldl (fun estimate payload =>
    match (fromStr payload).bind totalTokens with
    | some total => wrapI64 (estimate + total)
    | none => estimate) 0

section Store

variable {σ : Type} (fromStr : String → Option Json) (getLatestSummary : StoreM σ (Option AgentEvent))
  (countTurnsAfterSeq countEventsAfterSeq : Int → StoreM σ Int) (getLlmPayloadsAfterSeq : Int → StoreM σ (List String))

def checkSummaryTrigger : StoreM σ SummaryTrigger := do
  let latestSummary ← getLatestSummary
  let summarizedUpToSeq := (latestSummary.map fun e => boundaryOf e.payload).getD 0
  let turnCount ← countTurnsAfterSeq summarizedUpToSeq
  let eventCount ← countEventsAfterSeq summarizedUpToSeq
  let payloads ← getLlmPayloadsAfterSeq summarizedUpToSeq
  pure {
    turnCountSinceLastSummary := turnCount
    tokenEstimate := estimateTokens fromStr payloads
    eventCountSinceLastSummary := eventCount }

end Store

/-! ## The broker store -/

namespace TaskProjection

/-- The entries of the recent turns whose turn begins after the boundary. -/
def countTurnsAfterSeq (p : TaskProjection) (afterSeq : Int) : Int :=
  (p.recentTurnIds.filter fun tid => ((p.byTurnId.lookup tid).getD []).head?.any (afterSeq < ·)).length

def countEventsAfterSeq (p : TaskProjection) (afterSeq : Int) : Int := max (saturatingSub p.maxSeq afterSeq) 0

/-- The payloads of the completed calls, in the order in which the table is walked. -/
def llmPayloadsAfterSeq (toString : Json → String) (p : TaskProjection) (order : List Int) (afterSeq : Int) :
    List String :=
  ((p.afterSeq order afterSeq).filter fun e => e.eventType = .llmCompleted).map fun e => toString e.payload

end TaskProjection

namespace BrokerStore

def checkSummaryTrigger (toString : Json → String) (fromStr : String → Option Json) (taskId : String)
    (order : List Int) : StoreM BrokerStore SummaryTrigger :=
  Fixus.checkSummaryTrigger fromStr (getLatestSummary taskId)
    (fun after => withProjection taskId fun p => p.countTurnsAfterSeq after)
    (fun after => withProjection taskId fun p => p.countEventsAfterSeq after)
    (fun after => withProjection taskId fun p => p.llmPayloadsAfterSeq toString order after)

end BrokerStore

/-! ## The store on the log database -/

/-- The records of turns and of calls of models and tools. -/
def turnAndStepEvents : List EventType :=
  [.turnPending, .turnStarted, .turnCompleted, .turnFailed, .turnCanceled, .turnBlocked, .llmInvoked, .llmCompleted,
    .llmFailed, .toolInvoked, .toolCompleted, .toolFailed]

/-- The different turn tags of the records. -/
def turnTags (records : List Record) : List String := (records.filterMap fun r => r.metadata.lookup "turn_id").dedup

namespace LogdbdStore

/-- Put a question about a stream to the engine. What the engine answers is an assumption, made with each question. -/
def runQuery {α : Type} (taskId : String) (ask : List Record → α) : StoreM LogdbdStore α := do
  let log ← mapErr (fun e => .internal ("logdbd query: " ++ e)) (scanAll taskId)
  pure (ask log)

/-- The first number that a query after a boundary looks at. -/
def fromSeq (afterSeq : Int) : Nat := (max (wrapI64 (afterSeq + 1)) 1).toNat

/-- The records from a number on. -/
def since (log : List Record) (afterSeq : Int) : List Record := log.filter fun r => fromSeq afterSeq ≤ r.seq

def getLatestSummary (taskId : String) : StoreM LogdbdStore (Option AgentEvent) :=
  runQuery taskId fun log => (query log [.summaryMarker] []).getLast?.map (eventOf taskId .summaryMarker)

def countTurnsAfterSeq (taskId : String) (afterSeq : Int) : StoreM LogdbdStore Int :=
  runQuery taskId fun log => (turnTags (query (since log afterSeq) [.turnStarted] [])).length

def countEventsAfterSeq (taskId : String) (afterSeq : Int) : StoreM LogdbdStore Int :=
  runQuery taskId fun log => (query (since log afterSeq) turnAndStepEvents []).length

/-- The contents of the completed calls that have one; `raw` is the text of a record's content. -/
def getLlmPayloadsAfterSeq (raw : Record → String) (taskId : String) (afterSeq : Int) :
    StoreM LogdbdStore (List String) :=
  runQuery taskId fun log =>
    ((query (since log afterSeq) [.llmCompleted] []).filter fun r => !(raw r).isEmpty).map raw

def checkSummaryTrigger (fromStr : String → Option Json) (raw : Record → String) (taskId : String) :
    StoreM LogdbdStore SummaryTrigger :=
  Fixus.checkSummaryTrigger fromStr (getLatestSummary taskId) (countTurnsAfterSeq taskId) (countEventsAfterSeq taskId)
    (getLlmPayloadsAfterSeq raw taskId)

end LogdbdStore

/-! ## What the log says -/

/-- The records after a boundary. -/
def recordsAfter (log : List Record) (boundary : Int) : List Record := log.filter fun r => boundary < r.seq

/-- The different turns started after the boundary, the records of turns and steps after it, and their tokens. -/
def triggerOf (log : List Record) (boundary : Int) : SummaryTrigger where
  turnCountSinceLastSummary := (turnTags (query (recordsAfter log boundary) [.turnStarted] [])).length
  tokenEstimate := ((query (recordsAfter log boundary) [.llmCompleted] []).filterMap fun r => totalTokens r.content).sum
  eventCountSinceLastSummary := (query (recordsAfter log boundary) turnAndStepEvents []).length

/-- The log has positive ascending numbers, and each is followed by an `i64`. -/
structure NumberedLog (log : List Record) : Prop where
  ascending : Ascending log
  positive : ∀ r ∈ log, 0 < r.seq
  fits : ∀ r ∈ log, r.seq + 1 < 2 ^ 63

/-- The library reads the texts of the payloads: the contents of the records, and what it wrote itself. -/
structure ReadsUsage (toString : Json → String) (fromStr : String → Option Json) (raw : Record → String)
    (log : List Record) : Prop where
  empty : fromStr "" = none
  stored : ∀ r ∈ log, (fromStr (raw r)).bind totalTokens = totalTokens r.content
  written : ∀ r ∈ log, (fromStr (toString r.content)).bind totalTokens = totalTokens r.content

/-- Both stores report the numbers of the log. -/
structure TriggersAgree (toString : Json → String) (fromStr : String → Option Json) (raw : Record → String)
    (taskId : String) (s : BrokerStore) : Prop where
  broker : ∀ order, (BrokerStore.checkSummaryTrigger toString fromStr taskId order s).1 =
    .ok (triggerOf (s.log taskId) (summaryBoundary (s.log taskId)))
  logdbd : (LogdbdStore.checkSummaryTrigger fromStr raw taskId { streams := s.streams }).1 =
    .ok (triggerOf (s.log taskId) (summaryBoundary (s.log taskId)))

/-! ## When the counts agree -/

/-- A record of a turn or a step. -/
def counted (r : Record) : Bool := turnAndStepEvents.any fun t => r.eventType = t.asStr

/-- The record belongs to a turn of which nothing is known up to the boundary. -/
def ofNewTurn (log : List Record) (boundary : Int) (r : Record) : Bool :=
  (indexedTurn r).isSome && log.all fun r' => indexedTurn r' = indexedTurn r → boundary < r'.seq

/-- The record is the first after the boundary that starts its turn. -/
def opensTurn (log : List Record) (boundary : Int) (r : Record) : Bool :=
  r.eventType = "turn_started" && boundary < r.seq && (r.metadata.lookup "turn_id").isSome &&
    log.all fun r' => r'.eventType = "turn_started" ∧ boundary < r'.seq ∧ r'.seq < r.seq →
      r'.metadata.lookup "turn_id" ≠ r.metadata.lookup "turn_id"

/-- The projection counts what the log says: from the boundary on all numbers are those of turns and steps; new turns
have as many records beyond the one that opens them as old turns are opened again; and the tokens fit. -/
structure Countable (log : List Record) (boundary : Int) : Prop where
  boundary_nonneg : 0 ≤ boundary
  boundary_succ : boundary + 1 < 2 ^ 63 ∨ ∀ r ∈ log, counted r = false
  consecutive : ∀ k : Int, boundary < k → (∃ r ∈ log, (EventType.fromStr r.eventType).isSome = true ∧ k ≤ r.seq) →
    ∃ r ∈ log, (r.seq : Int) = k ∧ counted r = true
  turns : log.countP (fun r => ofNewTurn log boundary r && !opensTurn log boundary r) =
    log.countP fun r => opensTurn log boundary r && !ofNewTurn log boundary r
  tokens : InI64 (triggerOf log boundary).tokenEstimate

/-! ## Turns -/

variable {taskId : String} {log : List Record} {boundary : Int}

namespace NumberedLog

theorem inI64 (h : NumberedLog log) {r : Record} (hr : r ∈ log) : InI64 r.seq := by
  have hfits := h.fits r hr
  exact ⟨by omega, by omega⟩

theorem wrapI64_seq (h : NumberedLog log) {r : Record} (hr : r ∈ log) : wrapI64 r.seq = r.seq :=
  wrapI64_of_inI64 (h.inI64 hr)

theorem lt (h : NumberedLog log) : ∀ r ∈ log, r.seq < 2 ^ 64 := by
  intro r hr
  have hfits := h.fits r hr
  omega

end NumberedLog

/-- A turn begins after the boundary exactly if all its records are after it. -/
theorem head_any_iff (h : NumberedLog log) {tid : Int} (hmem : ∃ r ∈ log, indexedTurn r = some tid) :
    (((replay taskId log).byTurnId.lookup tid).getD []).head?.any (boundary < ·) =
      log.all fun r' => indexedTurn r' = some tid → boundary < r'.seq := by
  rw [replay_byTurnId, Bool.eq_iff_iff]
  obtain ⟨r, hr, hrt⟩ := hmem
  have hasc : (log.filter fun r => indexedTurn r = some tid).Pairwise fun r r' => r.seq < r'.seq := h.ascending.filter _
  cases hf : log.filter fun r => indexedTurn r = some tid with
  | nil => exact absurd (List.filter_eq_nil_iff.mp hf r hr) (by simpa using hrt)
  | cons first rest =>
    have hfirst : first ∈ log ∧ indexedTurn first = some tid := by
      have hmem : first ∈ log.filter fun r => indexedTurn r = some tid := hf ▸ List.mem_cons_self
      simpa using hmem
    rw [hf] at hasc
    simp only [List.map_cons, List.head?_cons, Option.any_some, decide_eq_true_eq, List.all_eq_true,
      h.wrapI64_seq hfirst.1]
    constructor
    · intro hb r' hr' ht'
      have hmem' : r' ∈ first :: rest := hf ▸ List.mem_filter.mpr ⟨hr', by simpa using ht'⟩
      rcases List.mem_cons.mp hmem' with rfl | hrest
      · exact hb
      · have hlt := List.rel_of_pairwise_cons hasc hrest
        omega
    · exact fun hall => hall first hfirst.1 hfirst.2

/-- The broker store counts the records of new turns. -/
theorem countTurnsAfterSeq_replay (h : NumberedLog log) :
    (replay taskId log).countTurnsAfterSeq boundary = log.countP (ofNewTurn log boundary) := by
  unfold TaskProjection.countTurnsAfterSeq
  rw [replay_recentTurnIds, ← List.countP_eq_length_filter, List.countP_filterMap]
  refine congrArg Nat.cast (List.countP_congr fun r hr => ?_)
  unfold ofNewTurn
  cases htid : indexedTurn r with
  | none => simp
  | some tid =>
    rw [Option.map_some, Option.getD_some, head_any_iff h ⟨r, hr, htid⟩]
    simp

/-- One more element is counted if it is new. -/
theorem length_dedup_concat {β : Type} [DecidableEq β] (l : List β) (b : β) :
    (l ++ [b]).dedup.length = l.dedup.length + if b ∈ l then 0 else 1 := by
  have hperm : (l ++ [b]).dedup.Perm (b :: l).dedup := (List.perm_append_singleton b l).dedup
  rw [hperm.length_eq]
  by_cases hb : b ∈ l
  · rw [List.dedup_cons_of_mem hb, if_pos hb, Nat.add_zero]
  · rw [List.dedup_cons_of_notMem hb, if_neg hb, List.length_cons]

/-- The tags of the turns started after the boundary. -/
def startTags (log : List Record) (boundary : Int) : List String :=
  (query (recordsAfter log boundary) [.turnStarted] []).filterMap fun r => r.metadata.lookup "turn_id"

theorem mem_startTags {tag : String} : tag ∈ startTags log boundary ↔
    ∃ r ∈ log, r.eventType = "turn_started" ∧ boundary < r.seq ∧ r.metadata.lookup "turn_id" = some tag := by
  simp only [startTags, query, recordsAfter, List.mem_filterMap, List.mem_filter, List.any_cons, List.any_nil,
    List.all_nil, Bool.or_false, Bool.and_true, decide_eq_true_eq, EventType.asStr]
  constructor
  · rintro ⟨r, ⟨⟨hr, hb⟩, he⟩, ht⟩
    exact ⟨r, hr, of_decide_eq_true he, hb, ht⟩
  · rintro ⟨r, hr, he, hb, ht⟩
    exact ⟨r, ⟨⟨hr, hb⟩, decide_eq_true he⟩, ht⟩

/-- The different turns started after the boundary are as many as the records that open one. -/
theorem length_turnTags (h : Ascending log) :
    (turnTags (query (recordsAfter log boundary) [.turnStarted] [])).length = log.countP (opensTurn log boundary) := by
  show (startTags log boundary).dedup.length = _
  induction log using List.reverseRecOn with
  | nil => rfl
  | append_singleton log r ih =>
    obtain ⟨hlog, -, hlt⟩ := List.pairwise_append.mp h
    have hbefore : ∀ r' ∈ log, r'.seq < r.seq := fun r' hr' => hlt r' hr' r (by simp)
    have hold : log.countP (opensTurn (log ++ [r]) boundary) = log.countP (opensTurn log boundary) := by
      refine List.countP_congr fun r' hr' => ?_
      have hnot := (hbefore r' hr').not_gt
      simp [opensTurn, hnot]
    have hnew : opensTurn (log ++ [r]) boundary r = true ↔ r.eventType = "turn_started" ∧ boundary < r.seq ∧
        ∃ tag, r.metadata.lookup "turn_id" = some tag ∧ tag ∉ startTags log boundary := by
      simp only [opensTurn, Bool.and_eq_true, decide_eq_true_eq, List.all_eq_true, List.mem_append, List.mem_singleton,
        Option.isSome_iff_exists, mem_startTags]
      constructor
      · rintro ⟨⟨⟨he, hb⟩, tag, ht⟩, hall⟩
        refine ⟨he, hb, tag, ht, fun ⟨r', hr', he', hb', ht'⟩ => ?_⟩
        exact hall r' (Or.inl hr') ⟨he', hb', hbefore r' hr'⟩ (ht'.trans ht.symm)
      · rintro ⟨he, hb, tag, ht, hfresh⟩
        refine ⟨⟨⟨he, hb⟩, tag, ht⟩, fun r' hr' ⟨he', hb', hlt'⟩ heq => ?_⟩
        rcases hr' with hr' | rfl
        · exact hfresh ⟨r', hr', he', hb', heq.trans ht⟩
        · exact absurd hlt' (lt_irrefl _)
    have htags : startTags (log ++ [r]) boundary = startTags log boundary ++
        if r.eventType = "turn_started" ∧ boundary < r.seq then (r.metadata.lookup "turn_id").toList else [] := by
      unfold startTags query recordsAfter
      rw [List.filter_append, List.filter_append, List.filterMap_append]
      by_cases hb : boundary < r.seq
      · by_cases he : r.eventType = "turn_started"
        · cases hl : r.metadata.lookup "turn_id" <;> simp [hb, he, hl, EventType.asStr]
        · simp [hb, he, EventType.asStr]
      · simp [hb]
    rw [htags, List.countP_append, hold, List.countP_singleton, ← ih hlog]
    by_cases hs : r.eventType = "turn_started" ∧ boundary < r.seq
    · cases hl : r.metadata.lookup "turn_id" with
      | none => simp [hs, hnew, hl]
      | some tag =>
        rw [if_pos hs, Option.toList_some, length_dedup_concat]
        by_cases htag : tag ∈ startTags log boundary <;> simp [hnew, hs, hl, htag]
    · rw [if_neg hs, List.append_nil, if_neg fun ho => hs ⟨(hnew.mp ho).1, (hnew.mp ho).2.1⟩, Nat.add_zero]

/-- The two counts of turns are equal exactly if the records on both sides that the other one leaves out are equally
many. -/
theorem countP_eq_iff {α : Type} (p q : α → Bool) (l : List α) : l.countP p = l.countP q ↔
    l.countP (fun a => p a && !q a) = l.countP fun a => q a && !p a := by
  have hp : l.countP p = l.countP (fun a => p a && q a) + l.countP fun a => p a && !q a := by
    rw [List.countP_eq_countP_filter_add l p q, List.countP_filter, List.countP_filter]
  have hq : l.countP q = l.countP (fun a => p a && q a) + l.countP fun a => q a && !p a := by
    rw [List.countP_eq_countP_filter_add l q p, List.countP_filter, List.countP_filter]
    simp only [Bool.and_comm]
  omega

/-! ## Tokens -/

/-- The estimate is the sum of the tokens, wrapped around. -/
theorem estimateTokens_eq (fromStr : String → Option Json) (payloads : List String) :
    estimateTokens fromStr payloads =
      wrapI64 (payloads.filterMap fun payload => (fromStr payload).bind totalTokens).sum := by
  unfold estimateTokens
  induction payloads using List.reverseRecOn with
  | nil => rfl
  | append_singleton payloads payload ih =>
    rw [List.foldl_append, List.filterMap_append, List.sum_append, ih]
    cases ht : (fromStr payload).bind totalTokens with
    | none => simp [ht]
    | some total => simp [ht, wrapI64_add_left]

/-- The tokens of the events are those of the records. -/
theorem tokens_eventsOf (taskId : String) (hseq : ∀ r ∈ log, wrapI64 r.seq = r.seq) :
    (((eventsOf taskId log).filter fun e => boundary < e.seq).filter fun e => e.eventType = .llmCompleted).filterMap
        (fun e => totalTokens e.payload) =
      (query (recordsAfter log boundary) [.llmCompleted] []).filterMap fun r => totalTokens r.content := by
  induction log with
  | nil => rfl
  | cons r log ih =>
    have hr := hseq r List.mem_cons_self
    have ih := ih fun r' hr' => hseq r' (List.mem_cons_of_mem _ hr')
    unfold eventsOf query recordsAfter at ih ⊢
    simp only [List.any_cons, List.any_nil, List.all_nil, Bool.or_false, Bool.and_true] at ih ⊢
    cases he : EventType.fromStr r.eventType with
    | none =>
      have hne : r.eventType ≠ EventType.llmCompleted.asStr := fun heq => by
        rw [heq, EventType.fromStr_asStr] at he
        cases he
      rw [List.filterMap_cons_none (by simp [he]), ih]
      by_cases hb : boundary < r.seq <;> simp [hb, hne]
    | some et =>
      have heq : r.eventType = et.asStr := EventType.asStr_of_fromStr he
      have hllm : r.eventType = EventType.llmCompleted.asStr ↔ et = .llmCompleted :=
        ⟨fun h => EventType.asStr_inj (heq.symm.trans h), fun h => h ▸ heq⟩
      have hs : (eventOf taskId et r).seq = r.seq := hr
      have ht : (eventOf taskId et r).eventType = et := rfl
      have hp : (eventOf taskId et r).payload = r.content := rfl
      rw [List.filterMap_cons_some (by rw [he]; rfl)]
      by_cases hb : boundary < r.seq
      · by_cases hl : et = .llmCompleted
        · subst hl
          simp only [List.filter_cons, List.filterMap_cons, hs, ht, hp, hb, hllm.mpr rfl, decide_true, if_true, ih]
        · have hne : r.eventType ≠ EventType.llmCompleted.asStr := fun heq => hl (hllm.mp heq)
          simp only [List.filter_cons, hs, ht, hb, hne, hl, decide_true, decide_false, if_true, Bool.false_eq_true,
            if_false, ih]
      · simp only [List.filter_cons, hs, hb, decide_false, Bool.false_eq_true, if_false, ih]

/-- The broker store estimates the tokens of the log. -/
theorem estimateTokens_replay (h : NumberedLog log) {toString : Json → String} {fromStr : String → Option Json}
    {raw : Record → String} (hread : ReadsUsage toString fromStr raw log) (order : List Int) :
    estimateTokens fromStr ((replay taskId log).llmPayloadsAfterSeq toString order boundary) =
      wrapI64 (triggerOf log boundary).tokenEstimate := by
  rw [estimateTokens_eq, TaskProjection.llmPayloadsAfterSeq, List.filterMap_map]
  refine congrArg wrapI64 ?_
  have hn : ((eventsOf taskId log).map AgentEvent.seq).Nodup := nodup_seqs h.ascending h.lt
  have hperm := (((afterSeq_perm hn boundary order).filter fun e =>
    e.eventType = .llmCompleted).filterMap ((fun payload => (fromStr payload).bind totalTokens) ∘
      fun e : AgentEvent => toString e.payload))
  rw [hperm.sum_eq, triggerOf, ← tokens_eventsOf taskId fun r hr => h.wrapI64_seq hr]
  refine congrArg List.sum (List.filterMap_congr fun e he => ?_)
  obtain ⟨r, hr, hre⟩ := List.mem_filterMap.mp (List.mem_of_mem_filter (List.mem_of_mem_filter he))
  obtain ⟨et, -, rfl⟩ := Option.map_eq_some_iff.mp hre
  exact hread.written r hr

/-! ## Events -/

@[simp] theorem index_maxSeq (p : TaskProjection) (ae : AgentEvent) : (p.index ae).maxSeq = max p.maxSeq ae.seq := by
  unfold index
  cases ae.turnId <;> rfl

@[simp] theorem applyHead_maxSeq (p : TaskProjection) (ae : AgentEvent) : (p.applyHead ae).maxSeq = p.maxSeq := by
  have hclose : (p.closeStep ae).maxSeq = p.maxSeq := by
    unfold closeStep
    split
    · rfl
    · split <;> rfl
  have husage : ∀ (q : TaskProjection) (v : Json), (q.addUsage v).maxSeq = q.maxSeq := by
    intro q v
    unfold addUsage
    cases v.get "usage" <;> rfl
  unfold applyHead
  cases ae.eventType <;> first
    | rfl
    | (cases ae.stepId <;> rfl)
    | simp only [hclose, husage]

/-- The head of a projection is the largest number among the events of the log, or 0. -/
theorem replay_maxSeq (taskId : String) (log : List Record) : (replay taskId log).maxSeq =
    ((log.filter fun r => (EventType.fromStr r.eventType).isSome).map fun r => wrapI64 r.seq).foldl max 0 := by
  induction log using List.reverseRecOn with
  | nil => rfl
  | append_singleton log r ih =>
    rw [replay_append]
    cases he : EventType.fromStr r.eventType with
    | none =>
      rw [applyIgnoring_none he, ih, List.filter_append, List.filter_cons_of_neg (by simp [he]), List.filter_nil,
        List.append_nil]
    | some et =>
      have hs : (eventOf (replay taskId log).taskId et r).seq = wrapI64 r.seq := rfl
      rw [applyIgnoring_some he, applyHead_maxSeq, index_maxSeq, ih, hs, List.filter_append, List.filter_cons_of_pos
        (by rw [he]; rfl), List.filter_nil, List.map_append, List.foldl_append, List.map_cons, List.map_nil,
        List.foldl_cons, List.foldl_nil]

/-- The numbers up to the head are those up to some event. -/
theorem le_maxSeq_iff (h : NumberedLog log) {k : Int} (hk : 0 < k) : k ≤ (replay taskId log).maxSeq ↔
    ∃ r ∈ log, (EventType.fromStr r.eventType).isSome = true ∧ k ≤ r.seq := by
  rw [replay_maxSeq]
  have hfold : ∀ (l : List Int) (m : Int), k ≤ l.foldl max m ↔ k ≤ m ∨ ∃ n ∈ l, k ≤ n := by
    intro l
    induction l with
    | nil => simp
    | cons n l ih =>
      intro m
      rw [List.foldl_cons, ih, le_max_iff]
      simp [or_assoc]
  rw [hfold]
  constructor
  · rintro (hle | ⟨n, hn, hle⟩)
    · omega
    · obtain ⟨r, hr, rfl⟩ := List.mem_map.mp hn
      obtain ⟨hr, he⟩ := List.mem_filter.mp hr
      exact ⟨r, hr, he, by rwa [h.wrapI64_seq hr] at hle⟩
  · rintro ⟨r, hr, he, hle⟩
    exact Or.inr ⟨wrapI64 r.seq, List.mem_map_of_mem (List.mem_filter.mpr ⟨hr, he⟩), by rwa [h.wrapI64_seq hr]⟩

/-- The head and its successor are `i64` numbers from 0 on. -/
theorem maxSeq_bounds (taskId : String) (h : NumberedLog log) :
    0 ≤ (replay taskId log).maxSeq ∧ (replay taskId log).maxSeq + 1 < 2 ^ 63 := by
  constructor
  · rw [replay_maxSeq]
    have hfold : ∀ (l : List Int) (m : Int), m ≤ l.foldl max m := by
      intro l
      induction l with
      | nil => simp
      | cons n l ih => exact fun m => (le_max_left m n).trans (ih _)
    exact hfold _ 0
  · by_contra hlarge
    have hpos : (0 : Int) < (replay taskId log).maxSeq := by omega
    obtain ⟨r, hr, -, hle⟩ := (le_maxSeq_iff h hpos).mp le_rfl
    have hfits := h.fits r hr
    omega

/-- The numbers of the records of turns and steps after the boundary. -/
def countedSeqs (log : List Record) (boundary : Int) : Finset Int :=
  ((query (recordsAfter log boundary) turnAndStepEvents []).map fun r => (r.seq : Int)).toFinset

theorem mem_countedSeqs {k : Int} : k ∈ countedSeqs log boundary ↔
    ∃ r ∈ log, counted r = true ∧ boundary < r.seq ∧ (r.seq : Int) = k := by
  simp only [countedSeqs, query, recordsAfter, List.mem_toFinset, List.mem_map, List.mem_filter, List.all_nil,
    Bool.and_true, decide_eq_true_eq]
  constructor
  · rintro ⟨r, ⟨⟨hr, hb⟩, hc⟩, hk⟩
    exact ⟨r, hr, hc, hb, hk⟩
  · rintro ⟨r, hr, hc, hb, hk⟩
    exact ⟨r, ⟨⟨hr, hb⟩, hc⟩, hk⟩

/-- Records with different numbers are as many as their numbers. -/
theorem card_countedSeqs (h : Ascending log) :
    (countedSeqs log boundary).card = (query (recordsAfter log boundary) turnAndStepEvents []).length := by
  have hasc : (query (recordsAfter log boundary) turnAndStepEvents []).Pairwise fun r r' => r.seq < r'.seq :=
    (h.filter _).filter _
  have hnodup : ((query (recordsAfter log boundary) turnAndStepEvents []).map fun r => (r.seq : Int)).Nodup :=
    List.pairwise_map.mpr (hasc.imp fun hlt heq => by omega)
  rw [countedSeqs, List.toFinset_card_of_nodup hnodup, List.length_map]

/-- A record of a turn or step has a known type. -/
theorem known_of_counted {r : Record} (h : counted r = true) : (EventType.fromStr r.eventType).isSome = true := by
  obtain ⟨t, -, ht⟩ := List.any_eq_true.mp h
  rw [of_decide_eq_true ht, EventType.fromStr_asStr]
  rfl

/-- The counted numbers lie between the boundary and the head. -/
theorem countedSeqs_subset (taskId : String) (boundary : Int) (h : NumberedLog log) :
    countedSeqs log boundary ⊆ Finset.Ioc (max boundary 0) (replay taskId log).maxSeq := by
  intro k hk
  obtain ⟨r, hr, hc, hb, rfl⟩ := mem_countedSeqs.mp hk
  have hpos : (0 : Int) < r.seq := by exact_mod_cast h.positive r hr
  rw [Finset.mem_Ioc]
  exact ⟨max_lt hb hpos, (le_maxSeq_iff h hpos).mpr ⟨r, hr, known_of_counted hc, le_rfl⟩⟩

/-- The broker store counts the numbers up to the head: these are the records of turns and steps exactly if no others
follow a boundary from 0 on. -/
theorem countEventsAfterSeq_iff (taskId : String) (h : NumberedLog log) (hb : InI64 boundary) :
    (replay taskId log).countEventsAfterSeq boundary = (triggerOf log boundary).eventCountSinceLastSummary ↔
      0 ≤ boundary ∧ ∀ k : Int, boundary < k →
        (∃ r ∈ log, (EventType.fromStr r.eventType).isSome = true ∧ k ≤ r.seq) →
          ∃ r ∈ log, (r.seq : Int) = k ∧ counted r = true := by
  have hcount : (triggerOf log boundary).eventCountSinceLastSummary = (countedSeqs log boundary).card := by
    rw [card_countedSeqs h.ascending]
    rfl
  have hsub := countedSeqs_subset taskId boundary h
  have hcard := Finset.card_le_card hsub
  rw [Int.card_Ioc] at hcard
  obtain ⟨hnonneg, hsucc⟩ := maxSeq_bounds taskId h
  obtain ⟨hlo, hhi⟩ := hb
  rw [hcount]
  by_cases hpos : 0 ≤ boundary
  · rw [max_eq_left hpos] at hsub hcard
    have hvalue : (replay taskId log).countEventsAfterSeq boundary =
        (Finset.Ioc boundary (replay taskId log).maxSeq).card := by
      rw [Int.card_Ioc]
      unfold TaskProjection.countEventsAfterSeq saturatingSub
      omega
    rw [hvalue, Nat.cast_inj]
    constructor
    · intro heq
      refine ⟨hpos, fun k hk hknown => ?_⟩
      have hall := Finset.eq_of_subset_of_card_le hsub heq.le
      have hmem : k ∈ countedSeqs log boundary := by
        rw [hall, Finset.mem_Ioc]
        exact ⟨hk, (le_maxSeq_iff h (by omega)).mpr hknown⟩
      obtain ⟨r, hr, hc, -, hrk⟩ := mem_countedSeqs.mp hmem
      exact ⟨r, hr, hrk, hc⟩
    · rintro ⟨-, hall⟩
      refine congrArg Finset.card (Finset.Subset.antisymm (fun k hk => ?_) hsub)
      obtain ⟨hbk, hkm⟩ := Finset.mem_Ioc.mp hk
      obtain ⟨r, hr, hrk, hc⟩ := hall k hbk ((le_maxSeq_iff h (by omega)).mp hkm)
      exact mem_countedSeqs.mpr ⟨r, hr, hc, hrk ▸ hbk, hrk⟩
  · -- below 0 there are more numbers than records
    refine iff_of_false ?_ fun hright => hpos hright.1
    rw [max_eq_right (by omega)] at hcard
    unfold TaskProjection.countEventsAfterSeq saturatingSub
    omega

/-! ## The stores on a log -/

/-- The boundary of a summary is an `i64`. -/
theorem summaryBoundary_inI64 (log : List Record) : InI64 (summaryBoundary log) := by
  have hasI64 : ∀ v : Json, ∀ n ∈ v.asI64, InI64 n := by
    intro v n hn
    cases v with
    | int m =>
      obtain ⟨hm, heq⟩ := Option.ite_none_right_eq_some.mp hn
      exact Option.some.inj heq ▸ hm
    | _ => cases hn
  unfold summaryBoundary
  cases latestMarker log with
  | none => exact ⟨by decide, by decide⟩
  | some payload =>
    rw [Option.map_some, Option.getD_some, boundaryOf]
    cases hv : (payload.get "summarized_up_to_seq").bind Json.asI64 with
    | none => exact ⟨by decide, by decide⟩
    | some n =>
      obtain ⟨v, -, hn⟩ := Option.bind_eq_some_iff.mp hv
      exact hasI64 v n hn

/-- The numbers that the broker store reads off a projection. -/
def TaskProjection.summaryTrigger (toString : Json → String) (fromStr : String → Option Json) (p : TaskProjection)
    (order : List Int) (boundary : Int) : SummaryTrigger where
  turnCountSinceLastSummary := p.countTurnsAfterSeq boundary
  tokenEstimate := estimateTokens fromStr (p.llmPayloadsAfterSeq toString order boundary)
  eventCountSinceLastSummary := p.countEventsAfterSeq boundary

/-- The numbers that the log database reads off a log. -/
def LogdbdStore.summaryTrigger (log : List Record) (boundary : Int) : SummaryTrigger where
  turnCountSinceLastSummary := (turnTags (query (since log boundary) [.turnStarted] [])).length
  tokenEstimate :=
    wrapI64 ((query (since log boundary) [.llmCompleted] []).filterMap fun r => totalTokens r.content).sum
  eventCountSinceLastSummary := (query (since log boundary) turnAndStepEvents []).length

/-- The check on a healthy broker reads the projection of the log. -/
theorem brokerTrigger_eq {s : BrokerStore} (hs : Healthy s) (hv : s.view taskId = replay taskId (s.log taskId))
    (toString : Json → String) (fromStr : String → Option Json) (order : List Int) :
    (BrokerStore.checkSummaryTrigger toString fromStr taskId order s).1 =
      .ok ((replay taskId (s.log taskId)).summaryTrigger toString fromStr order (summaryBoundary (s.log taskId))) := by
  have hwp : wp (BrokerStore.checkSummaryTrigger toString fromStr taskId order) (fun t _ => t =
      (replay taskId (s.log taskId)).summaryTrigger toString fromStr order (summaryBoundary (s.log taskId)))
      (fun _ _ => False) s := by
    unfold BrokerStore.checkSummaryTrigger Fixus.checkSummaryTrigger BrokerStore.getLatestSummary
    rw [wp_bind]
    refine wp_mono (withProjection_healthy hs _) (fun latest s₁ h₁ => ?_) fun _ _ h => h
    obtain ⟨rfl, hloaded⟩ := h₁
    rw [wp_bind]
    refine wp_mono (withProjection_healthy hloaded.healthy _) (fun turns s₂ h₂ => ?_) fun _ _ h => h
    obtain ⟨rfl, hloaded₂⟩ := h₂
    rw [wp_bind]
    refine wp_mono (withProjection_healthy hloaded₂.healthy _) (fun events s₃ h₃ => ?_) fun _ _ h => h
    obtain ⟨rfl, hloaded₃⟩ := h₃
    rw [wp_bind]
    refine wp_mono (withProjection_healthy hloaded₃.healthy _) (fun payloads s₄ h₄ => ?_) fun _ _ h => h
    obtain ⟨rfl, -⟩ := h₄
    rw [wp_pure, hloaded₃.view, hloaded₂.view, hloaded.view, hv]
    unfold latestSummaryEvent summaryBoundary
    rw [replay_latestSummary]
    cases latestMarker (s.log taskId) <;> rfl
  obtain ⟨t, s', heq, rfl⟩ := wp_total hwp
  rw [heq]

/-- The last marker that a query finds is the latest one. -/
theorem getLast_query_marker (log : List Record) :
    (query log [.summaryMarker] []).getLast?.map Record.content = latestMarker log := by
  induction log using List.reverseRecOn with
  | nil => rfl
  | append_singleton log r ih =>
    have hstep : latestMarker (log ++ [r]) =
        if EventType.fromStr r.eventType = some .summaryMarker then some r.content else latestMarker log := by
      simp [latestMarker]
    rw [hstep]
    by_cases hm : EventType.fromStr r.eventType = some .summaryMarker
    · have happ : query (log ++ [r]) [.summaryMarker] [] = query log [.summaryMarker] [] ++ [r] := by
        simp [query, List.filter_append, EventType.asStr_of_fromStr hm]
      rw [happ, if_pos hm, List.getLast?_concat, Option.map_some]
    · have hnot : ([EventType.summaryMarker].any fun t => r.eventType = t.asStr) = false := by
        refine List.any_eq_false.mpr fun t ht heq => hm ?_
        rw [of_decide_eq_true heq, List.mem_singleton.mp ht, EventType.fromStr_asStr]
      rw [query_append_of_not hnot, if_neg hm, ih]

/-- The check on the log database puts its questions to the log. -/
theorem logdbdTrigger_eq {streams : String → List Record} {toString : Json → String} {fromStr : String → Option Json}
    {raw : Record → String} (hread : ReadsUsage toString fromStr raw (streams taskId)) :
    (LogdbdStore.checkSummaryTrigger fromStr raw taskId { streams }).1 =
      .ok (LogdbdStore.summaryTrigger (streams taskId) (summaryBoundary (streams taskId))) := by
  have hboundary : (((query (streams taskId) [.summaryMarker] []).getLast?.map
      (eventOf taskId .summaryMarker)).map fun e => boundaryOf e.payload).getD 0 =
        summaryBoundary (streams taskId) := by
    unfold summaryBoundary
    rw [← getLast_query_marker, Option.map_map, Option.map_map]
    rfl
  have htokens : ∀ boundary, estimateTokens fromStr (((query (LogdbdStore.since (streams taskId) boundary)
      [.llmCompleted] []).filter fun r => !(raw r).isEmpty).map raw) =
        (LogdbdStore.summaryTrigger (streams taskId) boundary).tokenEstimate := by
    intro boundary
    rw [estimateTokens_eq, List.filterMap_map, List.filterMap_filter]
    refine congrArg (fun l : List Int => wrapI64 l.sum) (List.filterMap_congr fun r hr => ?_)
    have hlog : r ∈ streams taskId := List.mem_of_mem_filter (List.mem_of_mem_filter hr)
    rw [← hread.stored r hlog]
    by_cases hempty : raw r = ""
    · simp [hempty, hread.empty]
    · simp [hempty]
  show Except.ok _ = Except.ok _
  rw [hboundary]
  simp only [htokens]
  rfl

/-- A query starts right after the boundary, unless there is no `i64` after it. -/
theorem since_eq {boundary : Int} (hb : 0 ≤ boundary) (hsucc : boundary + 1 < 2 ^ 63) (log : List Record) :
    LogdbdStore.since log boundary = recordsAfter log boundary := by
  refine List.filter_congr fun r _ => ?_
  unfold LogdbdStore.fromSeq
  rw [wrapI64_of_inI64 ⟨by omega, hsucc⟩, max_eq_left (by omega), decide_eq_decide]
  omega

/-- Past the last `i64` it starts over. -/
theorem since_last (h : NumberedLog log) {boundary : Int} (hsucc : boundary + 1 = 2 ^ 63) :
    LogdbdStore.since log boundary = log := by
  refine List.filter_eq_self.mpr fun r hr => ?_
  have hwrap : wrapI64 (boundary + 1) = -2 ^ 63 := by
    rw [hsucc]
    rfl
  have hpos := h.positive r hr
  unfold LogdbdStore.fromSeq
  rw [hwrap, max_eq_right (by decide), decide_eq_true_eq]
  omega

/-- No record comes after the last `i64`. -/
theorem recordsAfter_last (h : NumberedLog log) {boundary : Int} (hsucc : boundary + 1 = 2 ^ 63) :
    recordsAfter log boundary = [] := by
  refine List.filter_eq_nil_iff.mpr fun r hr => ?_
  have hfits := h.fits r hr
  rw [decide_eq_true_eq]
  omega

/-- Queries for some of the types of turns and steps find nothing where nothing is counted. -/
theorem query_eq_nil {types : List EventType} (hsub : ∀ t ∈ types, t ∈ turnAndStepEvents)
    (hnone : ∀ r ∈ log, counted r = false) : query log types [] = [] := by
  refine List.filter_eq_nil_iff.mpr fun r hr hq => ?_
  rw [Bool.and_eq_true] at hq
  obtain ⟨t, ht, heq⟩ := List.any_eq_true.mp hq.1
  have hc : counted r = true := List.any_eq_true.mpr ⟨t, hsub t ht, heq⟩
  rw [hnone r hr] at hc
  cases hc

/-- What the broker store reports is what the log says. -/
theorem brokerTrigger_iff (taskId : String) (h : NumberedLog log) (hb : InI64 boundary) {toString : Json → String}
    {fromStr : String → Option Json} {raw : Record → String} (hread : ReadsUsage toString fromStr raw log) :
    (∀ order, (replay taskId log).summaryTrigger toString fromStr order boundary = triggerOf log boundary) ↔
      (0 ≤ boundary ∧ ∀ k : Int, boundary < k →
        (∃ r ∈ log, (EventType.fromStr r.eventType).isSome = true ∧ k ≤ r.seq) →
          ∃ r ∈ log, (r.seq : Int) = k ∧ counted r = true) ∧
      log.countP (fun r => ofNewTurn log boundary r && !opensTurn log boundary r) =
        log.countP (fun r => opensTurn log boundary r && !ofNewTurn log boundary r) ∧
      InI64 (triggerOf log boundary).tokenEstimate := by
  have hfields : ∀ t t' : SummaryTrigger, t = t' ↔ t.eventCountSinceLastSummary = t'.eventCountSinceLastSummary ∧
      t.turnCountSinceLastSummary = t'.turnCountSinceLastSummary ∧ t.tokenEstimate = t'.tokenEstimate := by
    rintro ⟨turns, tokens, events⟩ ⟨turns', tokens', events'⟩
    rw [SummaryTrigger.mk.injEq]
    tauto
  have hturns : (replay taskId log).countTurnsAfterSeq boundary = (triggerOf log boundary).turnCountSinceLastSummary ↔
      log.countP (fun r => ofNewTurn log boundary r && !opensTurn log boundary r) =
        log.countP (fun r => opensTurn log boundary r && !ofNewTurn log boundary r) := by
    rw [countTurnsAfterSeq_replay h, ← countP_eq_iff, triggerOf, length_turnTags h.ascending, Nat.cast_inj]
  have htokens : ∀ order, estimateTokens fromStr ((replay taskId log).llmPayloadsAfterSeq toString order boundary) =
      (triggerOf log boundary).tokenEstimate ↔ InI64 (triggerOf log boundary).tokenEstimate := by
    intro order
    rw [estimateTokens_replay h hread]
    exact ⟨fun heq => heq ▸ wrapI64_inI64 _, wrapI64_of_inI64⟩
  rw [← countEventsAfterSeq_iff taskId h hb, ← hturns]
  constructor
  · intro hall
    obtain ⟨he, ht, htok⟩ := (hfields _ _).mp (hall [])
    exact ⟨he, ht, (htokens []).mp htok⟩
  · rintro ⟨he, ht, htok⟩ order
    exact (hfields _ _).mpr ⟨he, ht, (htokens order).mpr htok⟩

/-- What the log database reports is what the log says. -/
theorem logdbdTrigger_iff (h : NumberedLog log) (hb : InI64 boundary) (hnonneg : 0 ≤ boundary)
    (htokens : InI64 (triggerOf log boundary).tokenEstimate) :
    LogdbdStore.summaryTrigger log boundary = triggerOf log boundary ↔
      (boundary + 1 < 2 ^ 63 ∨ ∀ r ∈ log, counted r = false) := by
  by_cases hsucc : boundary + 1 < 2 ^ 63
  · refine iff_of_true ?_ (Or.inl hsucc)
    unfold LogdbdStore.summaryTrigger
    rw [since_eq hnonneg hsucc]
    exact congrArg (fun tokens => SummaryTrigger.mk _ tokens _) (wrapI64_of_inI64 htokens)
  · have hlast : boundary + 1 = 2 ^ 63 := by
      have hhi := hb.2
      omega
    unfold LogdbdStore.summaryTrigger triggerOf
    rw [since_last h hlast, recordsAfter_last h hlast]
    constructor
    · intro heq
      have hevents := congrArg SummaryTrigger.eventCountSinceLastSummary heq
      have hnil : query log turnAndStepEvents [] = [] := List.length_eq_zero_iff.mp (Nat.cast_inj.mp hevents)
      refine Or.inr fun r hr => Bool.eq_false_iff.mpr fun hc => ?_
      exact List.filter_eq_nil_iff.mp hnil r hr (by simpa [counted] using hc)
    · rintro (hlt | hnone)
      · exact absurd hlt hsucc
      · rw [query_eq_nil (by decide) hnone, query_eq_nil (by decide) hnone, query_eq_nil (by decide) hnone]
        rfl

/-- **The two stores report the numbers of the log exactly if it is countable after the boundary of its latest
summary.** -/
theorem triggers_agree_iff {s : BrokerStore} {toString : Json → String} {fromStr : String → Option Json}
    {raw : Record → String} (hs : Healthy s) (hv : s.view taskId = replay taskId (s.log taskId))
    (h : NumberedLog (s.log taskId)) (hread : ReadsUsage toString fromStr raw (s.log taskId)) :
    TriggersAgree toString fromStr raw taskId s ↔ Countable (s.log taskId) (summaryBoundary (s.log taskId)) := by
  have hinI64 := summaryBoundary_inI64 (s.log taskId)
  have hbroker := brokerTrigger_iff taskId h hinI64 hread
  have hlogdbd : (LogdbdStore.checkSummaryTrigger fromStr raw taskId { streams := s.streams }).1 =
      .ok (LogdbdStore.summaryTrigger (s.log taskId) (summaryBoundary (s.log taskId))) :=
    logdbdTrigger_eq hread
  constructor
  · rintro ⟨hb, hl⟩
    simp only [brokerTrigger_eq hs hv, hlogdbd, Except.ok.injEq] at hb hl
    obtain ⟨⟨hnonneg, hconsecutive⟩, hturns, htokens⟩ := hbroker.mp hb
    exact ⟨hnonneg, (logdbdTrigger_iff h hinI64 hnonneg htokens).mp hl, hconsecutive, hturns, htokens⟩
  · rintro ⟨hnonneg, hsucc, hconsecutive, hturns, htokens⟩
    have hb := hbroker.mpr ⟨⟨hnonneg, hconsecutive⟩, hturns, htokens⟩
    refine ⟨fun order => ?_, ?_⟩
    · rw [brokerTrigger_eq hs hv, hb order]
    · rw [hlogdbd, (logdbdTrigger_iff h hinI64 hnonneg htokens).mpr hsucc]

/-- Then both stores trigger a summary at the same thresholds. -/
theorem TriggersAgree.reaches {s : BrokerStore} {toString : Json → String} {fromStr : String → Option Json}
    {raw : Record → String} (h : TriggersAgree toString fromStr raw taskId s) (order : List Int)
    (turns tokens events : Int) :
    (BrokerStore.checkSummaryTrigger toString fromStr taskId order s).1.map (·.reaches turns tokens events) =
      (LogdbdStore.checkSummaryTrigger fromStr raw taskId { streams := s.streams }).1.map
        (·.reaches turns tokens events) := by
  rw [h.broker order, h.logdbd]

/-- Each turn starts with its first record. -/
structure StartsFirst (log : List Record) : Prop where
  numbered : ∀ r ∈ log, r.eventType = "turn_started" → (r.metadata.lookup "turn_id").isSome = true →
    (indexedTurn r).isSome = true
  first : ∀ r ∈ log, r.eventType = "turn_started" → ∀ r' ∈ log, indexedTurn r' = indexedTurn r → r.seq ≤ r'.seq

/-- Where each turn starts with its first record, the turns are counted right exactly if the new ones have no other
record. -/
theorem turns_iff_of_startsFirst (h : StartsFirst log) :
    log.countP (fun r => ofNewTurn log boundary r && !opensTurn log boundary r) =
        log.countP (fun r => opensTurn log boundary r && !ofNewTurn log boundary r) ↔
      ∀ r ∈ log, ofNewTurn log boundary r = true → opensTurn log boundary r = true := by
  have hnew : ∀ r ∈ log, opensTurn log boundary r = true → ofNewTurn log boundary r = true := by
    intro r hr ho
    simp only [opensTurn, Bool.and_eq_true, decide_eq_true_eq] at ho
    obtain ⟨⟨⟨he, hb⟩, htag⟩, -⟩ := ho
    simp only [ofNewTurn, Bool.and_eq_true, List.all_eq_true, decide_eq_true_eq]
    refine ⟨h.numbered r hr he htag, fun r' hr' heq => ?_⟩
    have hle := h.first r hr he r' hr' heq
    omega
  have hzero : log.countP (fun r => opensTurn log boundary r && !ofNewTurn log boundary r) = 0 := by
    refine List.countP_eq_zero.mpr fun r hr hp => ?_
    rw [Bool.and_eq_true] at hp
    simp [hnew r hr hp.1] at hp
  rw [hzero, List.countP_eq_zero]
  refine forall₂_congr fun r _ => ?_
  cases ofNewTurn log boundary r <;> cases opensTurn log boundary r <;> decide

/-- The library reads the usage of a payload that it wrote. -/
theorem SerdeJson.readsUsage (serde : SerdeJson) (hempty : serde.fromStr "" = none)
    (h : ∀ r ∈ log, r.content.Exact 127) :
    ReadsUsage serde.toString serde.fromStr (fun r => serde.toString r.content) log := by
  have hsorted : ∀ v : Json, totalTokens v.sorted = totalTokens v := by
    have hasI64 : ∀ v : Json, v.sorted.asI64 = v.asI64 := fun v => by cases v <;> rfl
    intro v
    unfold totalTokens
    rw [Json.get_sorted]
    cases v.get "usage" with
    | none => rfl
    | some usage =>
      simp only [Option.map_some, Option.bind_some, Json.get_sorted]
      cases usage.get "total_tokens" with
      | none => rfl
      | some total => exact hasI64 total
  have hread : ∀ r ∈ log, (serde.fromStr (serde.toString r.content)).bind totalTokens = totalTokens r.content := by
    intro r hr
    rw [serde.fromStr_toString (h r hr), Option.bind_some, hsorted]
  exact ⟨hempty, hread, hread⟩

/-- A turn is started right after a summary, and a call of it is not tagged with it. -/
def summarizedLog : List Record :=
  let marker : Json := .obj [("summarized_up_to_seq", .int 3), ("summarized_up_to_turn_id", .int 0),
    ("summary", .str "s")]
  [⟨1, "task_created", .obj [], ∅⟩, ⟨2, "task_ready", .obj [], ∅⟩, ⟨3, "summary_marker", marker, ∅⟩,
    ⟨4, "turn_started", .obj [("user_input", .str "hello")], (∅ : Metadata).insert "turn_id" "1"⟩,
    ⟨5, "llm_invoked", .obj [("model", .str "m")], (∅ : Metadata).insert "step_id" "a"⟩,
    ⟨6, "llm_completed", .obj [("usage", .obj [("total_tokens", .int 7)])], (∅ : Metadata).insert "step_id" "a"⟩]

/-- The theorem at `summarizedLog`. -/
theorem triggers_agree_summarizedLog :
    TriggersAgree SerdeJson.compact.toString SerdeJson.compact.fromStr (fun r => SerdeJson.compact.toString r.content)
      "task_1" (freshStore summarizedLog) := by
  have hnumbered : NumberedLog summarizedLog := ⟨by decide, by decide, by decide⟩
  have hexact : ∀ r ∈ summarizedLog, r.content.Exact 127 := by
    simp [summarizedLog, Json.Exact]
  have hcountable : Countable summarizedLog 3 := by
    refine ⟨by decide, Or.inl (by decide), ?_, by decide +kernel, by decide +kernel⟩
    rintro k hk ⟨r, hr, -, hle⟩
    have hmax : ∀ r ∈ summarizedLog, r.seq ≤ 6 := by decide
    have hr := hmax r hr
    have hcases : k = 4 ∨ k = 5 ∨ k = 6 := by omega
    rcases hcases with rfl | rfl | rfl <;> decide +kernel
  exact (triggers_agree_iff (freshStore_healthy _) (freshStore_view _ _) hnumbered
    (SerdeJson.compact.readsUsage (by decide +kernel) hexact)).mpr hcountable

/-- For one turn with a model call the broker store counts three turns and five events. -/
theorem triggers_differ :
    let toString := SerdeJson.compact.toString
    let fromStr := SerdeJson.compact.fromStr
    let raw := fun r : Record => SerdeJson.compact.toString r.content
    (BrokerStore.checkSummaryTrigger toString fromStr "task_1" [] (freshStore callLog)).1 = .ok ⟨3, 7, 5⟩ ∧
      (LogdbdStore.checkSummaryTrigger fromStr raw "task_1" { streams := fun _ => callLog }).1 = .ok ⟨1, 7, 3⟩ ∧
      triggerOf callLog 0 = ⟨1, 7, 3⟩ ∧ ¬ TriggersAgree toString fromStr raw "task_1" (freshStore callLog) := by
  intro toString fromStr raw
  have hbroker : (BrokerStore.checkSummaryTrigger toString fromStr "task_1" [] (freshStore callLog)).1 =
    .ok ⟨3, 7, 5⟩ := by decide +kernel
  refine ⟨hbroker, by decide +kernel, by decide +kernel, fun h => ?_⟩
  have heq := hbroker.symm.trans (h.broker [])
  exact absurd heq (by decide +kernel)

end Fixus
