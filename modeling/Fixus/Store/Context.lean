import Fixus.Store.Healthy

/-!
# The conversation that an LLM gets to see

The messages of a task come from the events after the boundary of its latest summary. The projection keeps the events
in a hash table, whose order of iteration is an argument here; how a JSON value is written as text is a parameter.

- `eventsToMessages`, `buildLlmContext`, `fullReplay`: the conversion, over any store;
- `replay_bySeq`, `replay_turnEvents`: the events of a projection are those of the log;
- `context_in_order_iff`: the conversation is in the order of the log for every order of iteration exactly if the
  messages of any two events can change places;
- `context_out_of_order`: a model that sees its answer before the question.
-/

namespace Fixus

open Lib Lib.Eff BrokerStore TaskProjection

namespace Context

variable (render : Json → String)

/-- The messages of an event. -/
def messagesOf (e : AgentEvent) : List Message :=
  match e.eventType with
  | .turnStarted =>
    match (e.payload.get "user_input").bind Json.asStr with
    | some userInput => [{ role := "user", content := userInput }]
    | none => []
  | .llmCompleted =>
    let text := match (e.payload.get "content").bind Json.asStr with
      | some content => if content.isEmpty then [] else [{ role := "assistant", content }]
      | none => []
    let calls := match e.payload.get "tool_calls" with
      | some (.arr (call :: calls)) =>
        [{ role := "assistant", content := "[tool_calls] " ++ render (.arr (call :: calls)) }]
      | _ => []
    text ++ calls
  | .toolCompleted =>
    match e.payload.get "output" with
    | some output =>
      let toolName := ((e.payload.get "tool_name").bind Json.asStr).getD "tool"
      [{ role := "tool", content := "[" ++ toolName ++ "] " ++ render output }]
    | none => []
  | _ => []

def eventsToMessages (events : List AgentEvent) : List Message := events.flatMap (messagesOf render)

/-! ## Building a context -/

structure LlmContext where
  summary : String
  summarizedUpToSeq : Int
  summarizedUpToTurnId : Option Int
  messages : List Message
  incrementalStartSeq : Int

structure FullReplay where
  events : List AgentEvent
  messages : List Message

section Store

variable {σ : Type} (getLatestSummary : StoreM σ (Option AgentEvent))
  (getEventsAfterSeq : Int → StoreM σ (List AgentEvent))

/-- The boundary that a summary names. -/
def boundaryOf (payload : Json) : Int := ((payload.get "summarized_up_to_seq").bind Json.asI64).getD 0

/-- The latest summary and the messages after it. -/
def buildLlmContext : StoreM σ LlmContext := do
  let latestSummary ← getLatestSummary
  let (summary, upToSeq, upToTurnId) := match latestSummary with
    | some e => (((e.payload.get "summary").bind Json.asStr).getD "", boundaryOf e.payload,
        (e.payload.get "summarized_up_to_turn_id").bind Json.asI64)
    | none => ("", 0, none)
  let events ← getEventsAfterSeq upToSeq
  pure {
    summary
    summarizedUpToSeq := upToSeq
    summarizedUpToTurnId := upToTurnId
    messages := eventsToMessages render events
    incrementalStartSeq := wrapI64 (upToSeq + 1) }

/-- All events and their messages. -/
def fullReplay : StoreM σ FullReplay := do
  let events ← getEventsAfterSeq 0
  pure { events, messages := eventsToMessages render events }

end Store

end Context

open Context

/-! ## The broker store -/

/-- The events after a sequence number, in the order in which the table is walked. -/
def TaskProjection.afterSeq (p : TaskProjection) (order : List Int) (afterSeq : Int) : List AgentEvent :=
  ((walk order p.bySeq.keys).filter (afterSeq < ·)).filterMap p.bySeq.lookup

/-- The latest summary as an event. -/
def TaskProjection.latestSummaryEvent (p : TaskProjection) : Option AgentEvent :=
  p.latestSummary.map fun payload =>
    { taskId := p.taskId
      seq := p.summarizedUpToSeq
      turnId := none
      stepId := none
      eventType := .summaryMarker
      payload }

namespace BrokerStore

def getEventsAfterSeq (taskId : String) (order : List Int) (afterSeq : Int) : StoreM BrokerStore (List AgentEvent) :=
  withProjection taskId fun p => p.afterSeq order afterSeq

def getLatestSummary (taskId : String) : StoreM BrokerStore (Option AgentEvent) :=
  withProjection taskId fun p => p.latestSummaryEvent

end BrokerStore

/-! ## What the log says -/

/-- The events of a log. -/
def eventsOf (taskId : String) (log : List Record) : List AgentEvent :=
  log.filterMap fun r => (EventType.fromStr r.eventType).map fun et => eventOf taskId et r

/-- The events in ascending order of their sequence numbers. -/
def inSeqOrder (events : List AgentEvent) : List AgentEvent := events.insertionSort fun e e' => e.seq ≤ e'.seq

/-- The payload of the latest summary marker. -/
def latestMarker (log : List Record) : Option Json :=
  log.foldl
    (fun marker r => if EventType.fromStr r.eventType = some .summaryMarker then some r.content else marker) none

/-- The boundary of the latest summary, 0 without one. -/
def summaryBoundary (log : List Record) : Int := ((latestMarker log).map boundaryOf).getD 0

/-- The messages of the events after a boundary, in the order of the log. -/
def historyAfter (render : Json → String) (taskId : String) (log : List Record) (boundary : Int) : List Message :=
  eventsToMessages render ((inSeqOrder (eventsOf taskId log)).filter fun e => boundary < e.seq)

/-- The messages of any two events after the boundary can change places. -/
def Interchangeable (render : Json → String) (taskId : String) (log : List Record) (boundary : Int) : Prop :=
  ∀ e ∈ eventsOf taskId log, ∀ e' ∈ eventsOf taskId log, boundary < e.seq → boundary < e'.seq →
    messagesOf render e ++ messagesOf render e' = messagesOf render e' ++ messagesOf render e

/-! ## The events of a projection -/

variable {render : Json → String} {taskId : String} {log : List Record} {boundary : Int}

/-- Head updates other than that of a marker leave the latest summary alone. -/
theorem applyHead_latestSummary (p : TaskProjection) (ae : AgentEvent) : (p.applyHead ae).latestSummary =
    if ae.eventType = .summaryMarker then some ae.payload else p.latestSummary := by
  have hclose : (p.closeStep ae).latestSummary = p.latestSummary := by
    unfold closeStep
    split
    · rfl
    · split <;> rfl
  have husage : ∀ (q : TaskProjection) (v : Json), (q.addUsage v).latestSummary = q.latestSummary := by
    intro q v
    unfold addUsage
    cases v.get "usage" <;> rfl
  unfold applyHead
  cases ae.eventType <;> first
    | rfl
    | (cases ae.stepId <;> rfl)
    | simp [hclose, husage]

/-- The projection keeps the payload of the latest marker. -/
theorem replay_latestSummary (taskId : String) (log : List Record) :
    (replay taskId log).latestSummary = latestMarker log := by
  induction log using List.reverseRecOn with
  | nil => rfl
  | append_singleton log r ih =>
    have hstep : latestMarker (log ++ [r]) =
        if EventType.fromStr r.eventType = some .summaryMarker then some r.content else latestMarker log := by
      simp [latestMarker]
    rw [replay_append, hstep]
    cases he : EventType.fromStr r.eventType with
    | none =>
      rw [applyIgnoring_none he, ih]
      rfl
    | some et =>
      have hindex : ∀ (p : TaskProjection) ae, (p.index ae).latestSummary = p.latestSummary := fun p ae => by
        unfold index
        cases ae.turnId <;> rfl
      rw [applyIgnoring_some he, applyHead_latestSummary, hindex, ih]
      by_cases hm : et = .summaryMarker <;> simp [hm, eventOf]

theorem replay_taskId (taskId : String) (log : List Record) : (replay taskId log).taskId = taskId := by
  induction log using List.reverseRecOn with
  | nil => rfl
  | append_singleton log r ih => rw [replay_append, applyIgnoring_taskId, ih]

/-- The events of a log with different numbers have different numbers. -/
theorem nodup_seqs_of_nodup (hn : (log.map Record.seq).Nodup) (hseq : ∀ r ∈ log, r.seq < 2 ^ 64) :
    ((eventsOf taskId log).map AgentEvent.seq).Nodup := by
  have hcasts : (log.map fun r => wrapI64 r.seq).Nodup := by
    refine (List.Nodup.of_map _ hn).map_on fun r hr r' hr' heq => ?_
    exact List.inj_on_of_nodup_map hn hr hr' (wrapI64_natCast_inj (hseq r hr) (hseq r' hr') heq)
  refine hcasts.sublist ?_
  clear hn hseq hcasts
  induction log with
  | nil => exact List.Sublist.slnil
  | cons r log ih =>
    cases he : EventType.fromStr r.eventType with
    | none => simpa [eventsOf, he] using ih.cons _
    | some et => simpa [eventsOf, he, eventOf] using ih.cons_cons (wrapI64 r.seq)

/-- The events of a log with ascending numbers have different numbers. -/
theorem nodup_seqs (ha : Ascending log) (hseq : ∀ r ∈ log, r.seq < 2 ^ 64) :
    ((eventsOf taskId log).map AgentEvent.seq).Nodup := by
  have hn : (log.map Record.seq).Nodup := List.pairwise_map.mpr (ha.imp fun hlt => hlt.ne)
  exact nodup_seqs_of_nodup hn hseq

/-- The table of a projection has the events of the log. -/
theorem replay_bySeq (hn : ((eventsOf taskId log).map AgentEvent.seq).Nodup) {k : Int} {e : AgentEvent} :
    (replay taskId log).bySeq.lookup k = some e ↔ e ∈ eventsOf taskId log ∧ e.seq = k := by
  induction log using List.reverseRecOn generalizing e with
  | nil =>
    have hempty : (replay taskId []).bySeq = ∅ := rfl
    simp [hempty, eventsOf]
  | append_singleton log r ih =>
    rw [replay_append]
    cases he : EventType.fromStr r.eventType with
    | none =>
      have hsame : eventsOf taskId (log ++ [r]) = eventsOf taskId log := by simp [eventsOf, he]
      rw [applyIgnoring_none he, hsame]
      exact ih (hsame ▸ hn)
    | some et =>
      have hmore : eventsOf taskId (log ++ [r]) = eventsOf taskId log ++ [eventOf taskId et r] := by simp [eventsOf, he]
      rw [hmore, List.map_append, List.nodup_append] at hn
      obtain ⟨hold, -, hnew⟩ := hn
      rw [applyIgnoring_some he, applyHead_bySeq, index_bySeq, replay_taskId, hmore, List.mem_append,
        List.mem_singleton]
      generalize eventOf taskId et r = ae at hnew ⊢
      by_cases hk : k = ae.seq
      · subst hk
        rw [Finmap.lookup_insert]
        constructor
        · intro heq
          exact ⟨Or.inr (Option.some.inj heq).symm, by rw [← Option.some.inj heq]⟩
        · rintro ⟨hmem | rfl, hs⟩
          · exact absurd hs (hnew _ (List.mem_map_of_mem hmem) _ (by simp))
          · rfl
      · rw [Finmap.lookup_insert_of_ne _ hk, ih hold]
        constructor
        · exact fun h => ⟨Or.inl h.1, h.2⟩
        · rintro ⟨hmem | rfl, hs⟩
          · exact ⟨hmem, hs⟩
          · exact absurd hs.symm hk

/-- The numbers under a turn are those of its events. -/
theorem replay_turnSeqs (k : Int) : ((replay taskId log).byTurnId.lookup k).getD [] =
    ((eventsOf taskId log).filter fun e => e.turnId = some k).map AgentEvent.seq := by
  induction log using List.reverseRecOn with
  | nil => rfl
  | append_singleton log r ih =>
    rw [replay_append]
    cases he : EventType.fromStr r.eventType with
    | none =>
      have hsame : eventsOf taskId (log ++ [r]) = eventsOf taskId log := by simp [eventsOf, he]
      rw [applyIgnoring_none he, hsame, ih]
    | some et =>
      have hmore : eventsOf taskId (log ++ [r]) = eventsOf taskId log ++ [eventOf taskId et r] := by simp [eventsOf, he]
      rw [applyIgnoring_some he, applyHead_byTurnId, index_byTurnId, replay_taskId, hmore, ih]
      by_cases hk : (eventOf taskId et r).turnId = some k <;> simp [hk]

/-- The events of a turn are those of the log. -/
theorem replay_turnEvents (hn : ((eventsOf taskId log).map AgentEvent.seq).Nodup) (k : Int) :
    (replay taskId log).turnEvents k = (eventsOf taskId log).filter fun e => e.turnId = some k := by
  unfold TaskProjection.turnEvents
  rw [replay_turnSeqs, List.filterMap_map]
  have hself : ∀ e ∈ (eventsOf taskId log).filter (fun e => e.turnId = some k),
      ((replay taskId log).bySeq.lookup ∘ AgentEvent.seq) e = some e :=
    fun e he => (replay_bySeq hn).mpr ⟨List.mem_of_mem_filter he, rfl⟩
  rw [List.filterMap_congr hself, List.filterMap_some]

/-- A table entry is under the number of its event. -/
theorem seq_of_lookup (hn : ((eventsOf taskId log).map AgentEvent.seq).Nodup) {k : Int} {e : AgentEvent}
    (h : (replay taskId log).bySeq.lookup k = some e) : e.seq = k := ((replay_bySeq hn).mp h).2

/-- The table in ascending order has the events of the log in ascending order. -/
theorem inSeqOrder_eventsOf (hn : ((eventsOf taskId log).map AgentEvent.seq).Nodup) :
    inSeqOrder (eventsOf taskId log) =
      (ascending (replay taskId log).bySeq.keys).filterMap (replay taskId log).bySeq.lookup := by
  have : Std.Total fun e e' : AgentEvent => e.seq ≤ e'.seq := ⟨fun _ _ => le_total _ _⟩
  have : IsTrans AgentEvent fun e e' => e.seq ≤ e'.seq := ⟨fun _ _ _ => le_trans⟩
  have hmem : ∀ e, e ∈ (ascending (replay taskId log).bySeq.keys).filterMap (replay taskId log).bySeq.lookup ↔
      e ∈ eventsOf taskId log := by
    intro e
    rw [List.mem_filterMap]
    constructor
    · rintro ⟨k, -, hl⟩
      exact ((replay_bySeq hn).mp hl).1
    · intro he
      have hl := (replay_bySeq hn).mpr ⟨he, rfl⟩
      exact ⟨e.seq, mem_ascending.mpr (Finmap.mem_keys.mpr (Finmap.mem_of_lookup_eq_some hl)), hl⟩
  have hstrict : ((ascending (replay taskId log).bySeq.keys).filterMap (replay taskId log).bySeq.lookup).Pairwise
      fun e e' => e.seq < e'.seq := by
    refine List.Pairwise.filterMap _ (fun k k' hlt e he e' he' => ?_) (pairwise_ascending _)
    rw [seq_of_lookup hn he, seq_of_lookup hn he']
    exact hlt
  refine List.Perm.eq_of_pairwise (fun e e' he he' h h' => ?_) (List.pairwise_insertionSort _ _)
    (hstrict.imp le_of_lt) ?_
  · have he : e ∈ eventsOf taskId log := (List.perm_insertionSort _ _).mem_iff.mp he
    exact List.inj_on_of_nodup_map hn he ((hmem e').mp he') (le_antisymm h h')
  · refine (List.perm_insertionSort _ _).trans ((List.perm_ext_iff_of_nodup (List.Nodup.of_map _ hn) ?_).mpr fun e =>
      (hmem e).symm)
    exact hstrict.imp fun hlt heq => hlt.ne (congrArg AgentEvent.seq heq)

/-- The walk in ascending order meets the events in the order of the log. -/
theorem filter_inSeqOrder (hn : ((eventsOf taskId log).map AgentEvent.seq).Nodup) :
    ((inSeqOrder (eventsOf taskId log)).filter fun e => boundary < e.seq) =
    (replay taskId log).afterSeq [] boundary := by
  rw [inSeqOrder_eventsOf hn, afterSeq, walk_nil]
  generalize ascending (replay taskId log).bySeq.keys = ks
  induction ks with
  | nil => rfl
  | cons k ks ih =>
    cases hl : (replay taskId log).bySeq.lookup k with
    | none => by_cases hk : boundary < k <;> simp [hl, hk, ih]
    | some e =>
      have hs := seq_of_lookup hn hl
      by_cases hk : boundary < k <;> simp [hl, hk, hs, ih]

/-- In whatever order the table is walked, the events after a boundary are those of the log. -/
theorem afterSeq_perm (hn : ((eventsOf taskId log).map AgentEvent.seq).Nodup) (boundary : Int) (order : List Int) :
    ((replay taskId log).afterSeq order boundary).Perm ((eventsOf taskId log).filter fun e => boundary < e.seq) := by
  have hwalk : ((replay taskId log).afterSeq order boundary).Perm ((replay taskId log).afterSeq [] boundary) :=
    ((walk_perm order [] _).filter _).filterMap _
  refine hwalk.trans ?_
  rw [← filter_inSeqOrder hn]
  exact (List.perm_insertionSort _ _).filter _

/-- What is read off the table at a number. -/
def readingAt (render : Json → String) (p : TaskProjection) (boundary k : Int) : List Message :=
  if boundary < k then ((p.bySeq.lookup k).map (messagesOf render)).getD [] else []

theorem eventsToMessages_afterSeq (p : TaskProjection) (order : List Int) :
    eventsToMessages render (p.afterSeq order boundary) =
      (walk order p.bySeq.keys).flatMap (readingAt render p boundary) := by
  unfold eventsToMessages afterSeq
  generalize walk order p.bySeq.keys = ks
  induction ks with
  | nil => rfl
  | cons k ks ih =>
    by_cases hk : boundary < k
    · cases hl : p.bySeq.lookup k <;> simp [readingAt, hk, hl, ih]
    · simp [readingAt, hk, ih]

/-- **The messages come in the order of the log for every order of iteration exactly if any two events can change
places.** -/
theorem messages_in_order_iff (hn : ((eventsOf taskId log).map AgentEvent.seq).Nodup) :
    (∀ order, eventsToMessages render ((replay taskId log).afterSeq order boundary) =
      historyAfter render taskId log boundary) ↔ Interchangeable render taskId log boundary := by
  unfold historyAfter
  rw [filter_inSeqOrder hn]
  simp only [eventsToMessages_afterSeq, walk_nil]
  rw [walk_flatMap_iff]
  constructor
  · intro h e he e' he' hb hb'
    have hl := (replay_bySeq hn).mpr ⟨he, rfl⟩
    have hl' := (replay_bySeq hn).mpr ⟨he', rfl⟩
    have hcomm := h e.seq (Finmap.mem_keys.mpr (Finmap.mem_of_lookup_eq_some hl)) e'.seq
      (Finmap.mem_keys.mpr (Finmap.mem_of_lookup_eq_some hl'))
    simpa [readingAt, hb, hb', hl, hl'] using hcomm
  · intro h k hk k' hk'
    obtain ⟨e, hl⟩ := Finmap.mem_iff.mp (Finmap.mem_keys.mp hk)
    obtain ⟨e', hl'⟩ := Finmap.mem_iff.mp (Finmap.mem_keys.mp hk')
    obtain ⟨he, hs⟩ := (replay_bySeq hn).mp hl
    obtain ⟨he', hs'⟩ := (replay_bySeq hn).mp hl'
    unfold readingAt
    by_cases hb : boundary < k
    · by_cases hb' : boundary < k'
      · simpa [hb, hb', hl, hl'] using h e he e' he' (hs ▸ hb) (hs' ▸ hb')
      · simp [hb']
    · simp [hb]

/-! ## On the broker store -/

section Answers

variable {s : BrokerStore} (render : Json → String) (order : List Int)

/-- A context on a healthy broker has the messages after the boundary of the latest summary. -/
theorem buildLlmContext_healthy (hs : Healthy s) (hv : s.view taskId = replay taskId (s.log taskId)) :
    wp (buildLlmContext render (getLatestSummary taskId) (getEventsAfterSeq taskId order))
      (fun ctx _ => ctx.messages = eventsToMessages render
        ((replay taskId (s.log taskId)).afterSeq order (summaryBoundary (s.log taskId)))) (fun _ _ => False) s := by
  unfold buildLlmContext getLatestSummary getEventsAfterSeq
  rw [wp_bind]
  refine wp_mono (withProjection_healthy hs _) (fun latest s₁ h₁ => ?_) fun _ _ h => h
  obtain ⟨rfl, hloaded⟩ := h₁
  rw [wp_bind]
  refine wp_mono (withProjection_healthy hloaded.healthy _) (fun events s₂ h₂ => ?_) fun _ _ h => h
  obtain ⟨rfl, -⟩ := h₂
  rw [wp_pure, hloaded.view, hv]
  have hlatest := replay_latestSummary taskId (s.log taskId)
  unfold latestSummaryEvent summaryBoundary
  rw [hlatest]
  cases latestMarker (s.log taskId) <;> rfl

/-- A full replay on a healthy broker has the messages of all events. -/
theorem fullReplay_healthy (hs : Healthy s) (hv : s.view taskId = replay taskId (s.log taskId)) :
    wp (fullReplay render (getEventsAfterSeq taskId order))
      (fun full _ => full.messages = eventsToMessages render ((replay taskId (s.log taskId)).afterSeq order 0))
      (fun _ _ => False) s := by
  unfold fullReplay getEventsAfterSeq
  rw [wp_bind]
  refine wp_mono (withProjection_healthy hs _) (fun events s₁ h₁ => ?_) fun _ _ h => h
  obtain ⟨rfl, -⟩ := h₁
  rw [wp_pure, hv]

end Answers

/-- For every order of iteration the context and the full replay have the messages in the order of the log. -/
def ContextInOrder (render : Json → String) (taskId : String) (s : BrokerStore) : Prop :=
  ∀ order,
    (buildLlmContext render (getLatestSummary taskId) (getEventsAfterSeq taskId order) s).1.map
        Context.LlmContext.messages =
      .ok (historyAfter render taskId (s.log taskId) (summaryBoundary (s.log taskId))) ∧
    (fullReplay render (getEventsAfterSeq taskId order) s).1.map FullReplay.messages =
      .ok (historyAfter render taskId (s.log taskId) 0)

/-- **An LLM sees the history of its task in order exactly if it makes no difference**: the messages of any two events
after the boundary can change places. -/
theorem context_in_order_iff {s : BrokerStore} (hs : Healthy s) (hv : s.view taskId = replay taskId (s.log taskId))
    (ha : Ascending (s.log taskId)) (hseq : ∀ r ∈ s.log taskId, r.seq < 2 ^ 64) : ContextInOrder render taskId s ↔
      Interchangeable render taskId (s.log taskId) (summaryBoundary (s.log taskId)) ∧
        Interchangeable render taskId (s.log taskId) 0 := by
  have hn : ((eventsOf taskId (s.log taskId)).map AgentEvent.seq).Nodup := nodup_seqs ha hseq
  rw [← messages_in_order_iff hn, ← messages_in_order_iff hn, ← forall_and]
  refine forall_congr' fun order => and_congr ?_ ?_
  · obtain ⟨ctx, s', heq, hctx⟩ := wp_total (buildLlmContext_healthy render order hs hv)
    rw [heq, ← hctx]
    simp [Except.map]
  · obtain ⟨full, s', heq, hfull⟩ := wp_total (fullReplay_healthy render order hs hv)
    rw [heq, ← hfull]
    simp [Except.map]

/-- One turn with a reply of the model. -/
def replyLog : List Record :=
  let turn : Metadata := (∅ : Metadata).insert "turn_id" "1"
  [⟨1, "task_created", .obj [], ∅⟩, ⟨2, "task_ready", .obj [], ∅⟩,
    ⟨3, "turn_started", .obj [("user_input", .str "hello")], turn⟩,
    ⟨4, "llm_invoked", .obj [("model", .str "m")], turn.insert "step_id" "a"⟩,
    ⟨5, "llm_completed", .obj [("content", .str "hi")], turn.insert "step_id" "a"⟩]

/-- A store that has cached nothing, on top of a log. -/
def freshStore (log : List Record) : BrokerStore := { streams := fun _ => log }

theorem freshStore_healthy (log : List Record) : Healthy (freshStore log) :=
  ⟨rfl, List.nodup_nil, nofun, (show 1 ≤ 1000 by decide)⟩

theorem freshStore_view (taskId : String) (log : List Record) :
    (freshStore log).view taskId = replay taskId ((freshStore log).log taskId) := rfl

/-- The theorem at the turn before the reply. -/
theorem context_in_order_request : ContextInOrder (fun _ => "") "task_1" (freshStore (replyLog.take 4)) := by
  have hinter : ∀ boundary, Interchangeable (fun _ => "") "task_1" (replyLog.take 4) boundary := by
    intro boundary e he e' he' _ _
    simp [eventsOf, replyLog, EventType.fromStr] at he he'
    rcases he with rfl | rfl | rfl | rfl <;> rcases he' with rfl | rfl | rfl | rfl <;> rfl
  exact (context_in_order_iff (freshStore_healthy _) (freshStore_view _ _) (by decide) (by decide)).mpr
    ⟨hinter _, hinter _⟩

/-- With an order of iteration that has the reply first, the model sees its answer before the question. -/
theorem context_out_of_order :
    (fullReplay (fun _ => "") (getEventsAfterSeq "task_1" [5, 3]) (freshStore replyLog)).1.map
        (fun full => full.messages.map Message.role) = .ok ["assistant", "user"] ∧
      ¬ ContextInOrder (fun _ => "") "task_1" (freshStore replyLog) := by
  refine ⟨by decide +kernel, fun h => ?_⟩
  have hroles := congrArg (fun answer => answer.map (List.map Message.role)) (h [5, 3]).2
  exact absurd hroles (by decide +kernel)

end Fixus
