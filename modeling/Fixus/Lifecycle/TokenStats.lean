import Fixus.Lib.Table
import Fixus.Lifecycle.SummaryTrigger

/-!
# Token statistics

The projection of the broker store counts the calls of each model as their records come in; the log database counts them
by a query. The report adds the counts of the models up.

- `statsOf`: the counts of a list of calls;
- `tokenStats_replay`, `logdbdStats_eq`: what the two stores count;
- `token_stats_agree_iff`: they report the same, with the right totals, exactly if every completed call has a usage and
  the name of a model, and the totals fit;
- `token_stats_differ`: a call without a usage.
-/

namespace Fixus

open Lib Lib.Eff BrokerStore TaskProjection

/-! ## The report -/

/-- The counts of all models together. -/
structure TokenUsageTotals where
  callCount : Int := 0
  promptTokens : Int := 0
  completionTokens : Int := 0
  totalTokens : Int := 0
  deriving DecidableEq, Repr

structure TokenUsageResponse where
  byModel : List TokenUsageStats
  totals : TokenUsageTotals

/-- The counts of the models, added up. -/
def TokenUsageResponse.fromByModel (byModel : List TokenUsageStats) : TokenUsageResponse :=
  { byModel
    totals := byModel.foldl (fun totals s =>
      { callCount := wrapI64 (totals.callCount + s.callCount)
        promptTokens := wrapI64 (totals.promptTokens + s.promptTokens)
        completionTokens := wrapI64 (totals.completionTokens + s.completionTokens)
        totalTokens := wrapI64 (totals.totalTokens + s.totalTokens) }) {} }

/-- The four sums over the models. -/
def sumTotals (byModel : List TokenUsageStats) : TokenUsageTotals where
  callCount := (byModel.map TokenUsageStats.callCount).sum
  promptTokens := (byModel.map TokenUsageStats.promptTokens).sum
  completionTokens := (byModel.map TokenUsageStats.completionTokens).sum
  totalTokens := (byModel.map TokenUsageStats.totalTokens).sum

/-! ## The stores -/

/-- The entries of the models, in the order in which the table is walked. -/
def TaskProjection.tokenUsageStats (p : TaskProjection) (order : List String) : List TokenUsageStats :=
  (walk order p.tokenStats.keys).filterMap p.tokenStats.lookup

def BrokerStore.getTokenUsageStats (taskId : String) (order : List String) :
    StoreM BrokerStore (List TokenUsageStats) :=
  withProjection taskId fun p => p.tokenUsageStats order

namespace LogdbdStore

/-- The loop over the records of completed calls. -/
def addRecord (map : Finmap fun _ : String => TokenUsageStats) (payload : Json) :
    Finmap fun _ : String => TokenUsageStats :=
  let model := ((payload.get "model").bind Json.asStr).getD "unknown"
  let usage := payload.get "usage"
  let count (key : String) : Int := ((usage.bind fun u => u.get key).bind Json.asI64).getD 0
  let entry := (map.lookup model).getD
    { model, callCount := 0, promptTokens := 0, completionTokens := 0, totalTokens := 0 }
  map.insert model
    { entry with
      callCount := wrapI64 (entry.callCount + 1)
      promptTokens := wrapI64 (entry.promptTokens + count "prompt_tokens")
      completionTokens := wrapI64 (entry.completionTokens + count "completion_tokens")
      totalTokens := wrapI64 (entry.totalTokens + count "total_tokens") }

/-- The counts of the models, by name; records without content are skipped, `raw` being the text of a record's
content. -/
def countRecords (raw : Record → String) (recs : List Record) : List TokenUsageStats :=
  let map := ((recs.filter fun r => !(raw r).isEmpty).map Record.content).foldl addRecord ∅
  (ascending map.keys).filterMap map.lookup

def getTokenUsageStats (raw : Record → String) (taskId : String) : StoreM LogdbdStore (List TokenUsageStats) :=
  runQuery taskId fun log => countRecords raw (query log [.llmCompleted] [])

end LogdbdStore

/-! ## Counting calls -/

/-- What is counted of a completed call. -/
structure LlmCall where
  model : String
  promptTokens : Int
  completionTokens : Int
  totalTokens : Int

/-- The call of a payload; its model is called by a name of the store's own if the payload has none. -/
def callOf (unnamed : String) (payload : Json) : LlmCall :=
  let count (key : String) : Int := (((payload.get "usage").bind fun u => u.get key).bind Json.asI64).getD 0
  { model := ((payload.get "model").bind Json.asStr).getD unnamed
    promptTokens := count "prompt_tokens"
    completionTokens := count "completion_tokens"
    totalTokens := count "total_tokens" }

/-- No calls of a model yet. -/
def noCalls (model : String) : TokenUsageStats :=
  { model, callCount := 0, promptTokens := 0, completionTokens := 0, totalTokens := 0 }

/-- One more call of a model. -/
def addCall (s : TokenUsageStats) (c : LlmCall) : TokenUsageStats :=
  { s with
    callCount := wrapI64 (s.callCount + 1)
    promptTokens := wrapI64 (s.promptTokens + c.promptTokens)
    completionTokens := wrapI64 (s.completionTokens + c.completionTokens)
    totalTokens := wrapI64 (s.totalTokens + c.totalTokens) }

/-- The calls of a model. -/
def callsOf (calls : List LlmCall) (model : String) : List LlmCall := calls.filter fun c => c.model = model

/-- The counts of a model. -/
def statOf (calls : List LlmCall) (model : String) : TokenUsageStats where
  model
  callCount := wrapI64 (callsOf calls model).length
  promptTokens := wrapI64 ((callsOf calls model).map LlmCall.promptTokens).sum
  completionTokens := wrapI64 ((callsOf calls model).map LlmCall.completionTokens).sum
  totalTokens := wrapI64 ((callsOf calls model).map LlmCall.totalTokens).sum

/-- The counts of all models. -/
def statsOf (calls : List LlmCall) : List TokenUsageStats := (calls.map LlmCall.model).dedup.map (statOf calls)

/-- The completed calls of a log. -/
def completedCalls (log : List Record) : List Json := (query log [.llmCompleted] []).map Record.content

/-- Every sum of the totals is an `i64`. -/
def TokenUsageTotals.Fit (t : TokenUsageTotals) : Prop :=
  InI64 t.callCount ∧ InI64 t.promptTokens ∧ InI64 t.completionTokens ∧ InI64 t.totalTokens

instance (t : TokenUsageTotals) : Decidable t.Fit := inferInstanceAs (Decidable (_ ∧ _))

/-- Both stores report the same counts, up to the order of the models, and totals that are the sums. -/
def TokenStatsAgree (raw : Record → String) (taskId : String) (s : BrokerStore) : Prop :=
  ∀ order, ∃ byModel byModel',
    (BrokerStore.getTokenUsageStats taskId order s).1 = .ok byModel ∧
    (LogdbdStore.getTokenUsageStats raw taskId { streams := s.streams }).1 = .ok byModel' ∧
    byModel.Perm byModel' ∧
    (TokenUsageResponse.fromByModel byModel).totals = sumTotals byModel ∧
    (TokenUsageResponse.fromByModel byModel').totals = sumTotals byModel'

/-- Every completed call has a usage and the name of a model, and the sums over the models fit. -/
structure CountedAlike (log : List Record) : Prop where
  usage : ∀ payload ∈ completedCalls log, (payload.get "usage").isSome = true
  model : ∀ payload ∈ completedCalls log, ((payload.get "model").bind Json.asStr).isSome = true
  fit : (sumTotals (statsOf ((completedCalls log).map (callOf "unknown")))).Fit

/-! ## The counts of a list of calls -/

/-- Counting one call after the other. -/
theorem foldl_addCall (calls : List LlmCall) (model : String) : calls.foldl addCall (noCalls model) =
    { model
      callCount := wrapI64 calls.length
      promptTokens := wrapI64 (calls.map LlmCall.promptTokens).sum
      completionTokens := wrapI64 (calls.map LlmCall.completionTokens).sum
      totalTokens := wrapI64 (calls.map LlmCall.totalTokens).sum } := by
  induction calls using List.reverseRecOn with
  | nil => rfl
  | append_singleton calls c ih =>
    rw [List.foldl_append, ih]
    simp [addCall, wrapI64_add_left]

/-- The table of a list of calls. -/
def table (calls : List LlmCall) : Finmap fun _ : String => TokenUsageStats :=
  calls.foldl (tally LlmCall.model noCalls addCall) ∅

/-- In whatever order the table is walked, it has the counts of the models. -/
theorem table_perm (calls : List LlmCall) (order : List String) :
    ((walk order (table calls).keys).filterMap (table calls).lookup).Perm (statsOf calls) := by
  have hlookup : ∀ model ∈ walk order (table calls).keys, (table calls).lookup model = some (statOf calls model) := by
    intro model hm
    have hmem := (mem_keys_foldl_tally LlmCall.model noCalls addCall calls model).mp (mem_walk.mp hm)
    rw [table, lookup_foldl_tally, if_pos hmem, foldl_addCall]
    rfl
  have hmap : (walk order (table calls).keys).filterMap (table calls).lookup =
      (walk order (table calls).keys).map (statOf calls) := by
    rw [List.filterMap_congr hlookup, ← List.filterMap_eq_map]
    rfl
  rw [hmap]
  refine ((List.perm_ext_iff_of_nodup (nodup_walk _ _) (List.nodup_dedup _)).mpr fun model => ?_).map _
  rw [mem_walk, table, mem_keys_foldl_tally, List.mem_dedup]

/-- The totals wrap around where their sums do not fit. -/
theorem fromByModel_totals (byModel : List TokenUsageStats) : (TokenUsageResponse.fromByModel byModel).totals =
    { callCount := wrapI64 (sumTotals byModel).callCount
      promptTokens := wrapI64 (sumTotals byModel).promptTokens
      completionTokens := wrapI64 (sumTotals byModel).completionTokens
      totalTokens := wrapI64 (sumTotals byModel).totalTokens } := by
  unfold TokenUsageResponse.fromByModel sumTotals
  dsimp only
  induction byModel using List.reverseRecOn with
  | nil => rfl
  | append_singleton byModel s ih =>
    rw [List.foldl_append, ih]
    simp [wrapI64_add_left]

/-- The totals are the sums exactly if the sums fit. -/
theorem fromByModel_totals_iff (byModel : List TokenUsageStats) :
    (TokenUsageResponse.fromByModel byModel).totals = sumTotals byModel ↔ (sumTotals byModel).Fit := by
  have hwrap : ∀ n, wrapI64 n = n ↔ InI64 n := fun n => ⟨fun h => h ▸ wrapI64_inI64 n, wrapI64_of_inI64⟩
  rw [fromByModel_totals]
  unfold TokenUsageTotals.Fit
  simp only [← hwrap]
  cases sumTotals byModel
  simp

theorem sumTotals_perm {byModel byModel' : List TokenUsageStats} (h : byModel.Perm byModel') :
    sumTotals byModel = sumTotals byModel' := by
  unfold sumTotals
  rw [(h.map _).sum_eq, (h.map _).sum_eq, (h.map _).sum_eq, (h.map _).sum_eq]

/-! ## What the stores count -/

variable {taskId : String} {log : List Record}

/-- The projection counts a call that has a usage. -/
theorem addUsage_tokenStats (p : TaskProjection) (payload : Json) : (p.addUsage payload).tokenStats =
    if (payload.get "usage").isSome then tally LlmCall.model noCalls addCall p.tokenStats (callOf "?" payload)
    else p.tokenStats := by
  have hindex : ∀ (v : Json) key, (v.index key).asI64 = (v.get key).bind Json.asI64 := by
    intro v key
    unfold Json.index
    cases v.get key <;> rfl
  have hname : (payload.index "model").asStr = (payload.get "model").bind Json.asStr := by
    unfold Json.index
    cases payload.get "model" <;> rfl
  unfold addUsage
  cases hu : payload.get "usage" with
  | none => rfl
  | some usage =>
    simp only [tally, callOf, addCall, noCalls, hu, hindex, Option.bind_some, Option.isSome_some, if_true]
    rw [hname]

/-- Only a completed call changes the counts. -/
theorem applyHead_tokenStats (p : TaskProjection) (ae : AgentEvent) : (p.applyHead ae).tokenStats =
    if ae.eventType = .llmCompleted then (p.addUsage ae.payload).tokenStats else p.tokenStats := by
  have hclose : (p.closeStep ae).tokenStats = p.tokenStats := by
    unfold closeStep
    split
    · rfl
    · split <;> rfl
  have husage : ((p.closeStep ae).addUsage ae.payload).tokenStats = (p.addUsage ae.payload).tokenStats := by
    rw [addUsage_tokenStats, addUsage_tokenStats, hclose]
  unfold applyHead
  cases ae.eventType <;> first
    | rfl
    | (cases ae.stepId <;> rfl)
    | simp [hclose, husage]

/-- The calls that the broker store counts: those with a usage. -/
def brokerCalls (log : List Record) : List LlmCall :=
  ((completedCalls log).filter fun payload => (payload.get "usage").isSome).map (callOf "?")

/-- The calls that the log database counts: all. -/
def logdbdCalls (log : List Record) : List LlmCall := (completedCalls log).map (callOf "unknown")

theorem completedCalls_append (log : List Record) (r : Record) : completedCalls (log ++ [r]) =
    completedCalls log ++ if EventType.fromStr r.eventType = some .llmCompleted then [r.content] else [] := by
  have htype : EventType.fromStr r.eventType = some .llmCompleted ↔ r.eventType = EventType.llmCompleted.asStr :=
    ⟨EventType.asStr_of_fromStr, fun h => h ▸ EventType.fromStr_asStr _⟩
  by_cases h : r.eventType = EventType.llmCompleted.asStr <;> simp [completedCalls, query, htype, h]

/-- The broker store keeps the table of these calls. -/
theorem tokenStats_replay (taskId : String) (log : List Record) :
    (replay taskId log).tokenStats = table (brokerCalls log) := by
  induction log using List.reverseRecOn with
  | nil => rfl
  | append_singleton log r ih =>
    have hindex : ∀ (p : TaskProjection) ae, (p.index ae).tokenStats = p.tokenStats := fun p ae => by
      unfold index
      cases ae.turnId <;> rfl
    rw [replay_append, brokerCalls, completedCalls_append]
    cases he : EventType.fromStr r.eventType with
    | none => simpa [applyIgnoring_none he, brokerCalls] using ih
    | some et =>
      rw [applyIgnoring_some he, applyHead_tokenStats, hindex, ih]
      by_cases hc : et = .llmCompleted
      · subst hc
        rw [if_pos rfl, addUsage_tokenStats, hindex, ih]
        by_cases hu : (r.content.get "usage").isSome = true <;>
          simp [eventOf, hu, table, brokerCalls, List.filter_append]
      · simp [eventOf, hc, brokerCalls]

/-- The log database builds the table of all calls. -/
theorem logdbdStats_eq {streams : String → List Record} {raw : Record → String}
    (hraw : ∀ r ∈ query (streams taskId) [.llmCompleted] [], raw r ≠ "") :
    (LogdbdStore.getTokenUsageStats raw taskId { streams }).1 =
      .ok ((walk [] (table (logdbdCalls (streams taskId))).keys).filterMap
        (table (logdbdCalls (streams taskId))).lookup) := by
  have hall : ((query (streams taskId) [.llmCompleted] []).filter fun r => !(raw r).isEmpty) =
      query (streams taskId) [.llmCompleted] [] := by
    refine List.filter_eq_self.mpr fun r hr => ?_
    have hne := hraw r hr
    simpa [String.isEmpty_iff] using hne
  have htable : (completedCalls (streams taskId)).foldl LogdbdStore.addRecord ∅ =
      table (logdbdCalls (streams taskId)) := by
    rw [table, logdbdCalls, List.foldl_map]
    rfl
  have hask : (LogdbdStore.getTokenUsageStats raw taskId { streams }).1 =
      .ok (LogdbdStore.countRecords raw (query (streams taskId) [.llmCompleted] [])) := rfl
  have hcalls : (query (streams taskId) [.llmCompleted] []).map Record.content = completedCalls (streams taskId) := rfl
  rw [hask, LogdbdStore.countRecords, hall, hcalls, htable, walk_nil]

/-! ## When the counts agree -/

/-- Of two conditions, one weaker than the other, that hold equally often, both hold of the same elements. -/
theorem imp_of_length_filter_eq {α : Type} {p q : α → Bool} {l : List α} (himp : ∀ a ∈ l, p a = true → q a = true)
    (h : (l.filter p).length = (l.filter q).length) {a : α} (ha : a ∈ l) (hq : q a = true) : p a = true := by
  have hboth : l.filter p = (l.filter q).filter p := by
    rw [List.filter_filter]
    refine List.filter_congr fun b hb => ?_
    cases hp : p b with
    | false => rfl
    | true => simp [himp b hb hp]
  rw [hboth, List.length_filter_eq_length_iff] at h
  exact h a (List.mem_filter.mpr ⟨ha, hq⟩)

/-- A payload that belongs to a model for the broker store, or for the log database. -/
def countedFor (model : String) (payload : Json) : Bool :=
  (payload.get "usage").isSome && (callOf "?" payload).model = model

theorem length_brokerCalls (log : List Record) (model : String) : (callsOf (brokerCalls log) model).length =
    ((completedCalls log).filter (countedFor model)).length := by
  unfold callsOf brokerCalls countedFor
  rw [List.filter_map, List.length_map, List.filter_filter]
  refine congrArg List.length (List.filter_congr fun payload _ => ?_)
  rw [Bool.and_comm]
  rfl

theorem length_logdbdCalls (log : List Record) (model : String) : (callsOf (logdbdCalls log) model).length =
    ((completedCalls log).filter fun payload => (callOf "unknown" payload).model = model).length := by
  unfold callsOf logdbdCalls
  rw [List.filter_map, List.length_map]
  rfl

/-- **The counts are the same exactly if every completed call has a usage and the name of a model.** -/
theorem statsOf_perm_iff (hlen : log.length < 2 ^ 64) :
    (statsOf (brokerCalls log)).Perm (statsOf (logdbdCalls log)) ↔
      (∀ payload ∈ completedCalls log, (payload.get "usage").isSome = true) ∧
        ∀ payload ∈ completedCalls log, ((payload.get "model").bind Json.asStr).isSome = true := by
  constructor
  · intro h
    have hcompleted : (completedCalls log).length < 2 ^ 64 := by
      refine lt_of_le_of_lt ?_ hlen
      rw [completedCalls, List.length_map]
      exact List.length_filter_le _ _
    -- a model of the log database has as many calls on the broker store
    have hcount : ∀ payload ∈ completedCalls log,
        ((completedCalls log).filter (countedFor (callOf "unknown" payload).model)).length =
          ((completedCalls log).filter
            fun p => (callOf "unknown" p).model = (callOf "unknown" payload).model).length := by
      intro payload hp
      have hstat : statOf (logdbdCalls log) (callOf "unknown" payload).model ∈ statsOf (logdbdCalls log) :=
        List.mem_map_of_mem (List.mem_dedup.mpr (List.mem_map_of_mem (List.mem_map_of_mem hp)))
      obtain ⟨model, -, heq⟩ := List.mem_map.mp (h.mem_iff.mpr hstat)
      obtain rfl : model = (callOf "unknown" payload).model := congrArg TokenUsageStats.model heq
      have hwrap := congrArg TokenUsageStats.callCount heq
      simp only [statOf, length_brokerCalls, length_logdbdCalls, wrapI64] at hwrap
      have hle := fun p => List.length_filter_le p (completedCalls log)
      have hle₁ := hle (countedFor (callOf "unknown" payload).model)
      have hle₂ := hle fun p => (callOf "unknown" p).model = (callOf "unknown" payload).model
      omega
    have hmodel : ∀ payload ∈ completedCalls log, ((payload.get "model").bind Json.asStr).isSome = true := by
      intro payload hp
      by_contra hnone
      have hm := Option.not_isSome_iff_eq_none.mp hnone
      have hcall : (callOf "unknown" payload).model = "unknown" := by simp [callOf, hm]
      have hlengths := hcount payload hp
      rw [hcall] at hlengths
      -- the broker store counts no such call under this name
      have hcounted := imp_of_length_filter_eq (fun p _ hc => ?_) hlengths hp (by simp [hcall])
      · simp [countedFor, callOf, hm] at hcounted
      · cases hp : (p.get "model").bind Json.asStr <;> simp_all [countedFor, callOf]
    refine ⟨fun payload hp => ?_, hmodel⟩
    have hcounted := imp_of_length_filter_eq (fun p hmem hc => ?_) (hcount payload hp) hp (by simp)
    · simp only [countedFor, Bool.and_eq_true] at hcounted
      exact hcounted.1
    · obtain ⟨model, hm⟩ := Option.isSome_iff_exists.mp (hmodel p hmem)
      simp only [countedFor, Bool.and_eq_true, callOf, hm] at hc ⊢
      exact hc.2
  · rintro ⟨husage, hmodel⟩
    have heq : brokerCalls log = logdbdCalls log := by
      unfold brokerCalls logdbdCalls
      rw [List.filter_eq_self.mpr husage]
      refine List.map_congr_left fun payload hp => ?_
      obtain ⟨model, hm⟩ := Option.isSome_iff_exists.mp (hmodel payload hp)
      simp [callOf, hm]
    rw [heq]

/-- **Both stores report the same token statistics, with the right totals, exactly if every completed call has a usage
and the name of a model, and the sums over the models fit.** -/
theorem token_stats_agree_iff {s : BrokerStore} {raw : Record → String} (hs : Healthy s)
    (hv : s.view taskId = replay taskId (s.log taskId))
    (hraw : ∀ r ∈ query (s.log taskId) [.llmCompleted] [], raw r ≠ "")
    (hlen : (s.log taskId).length < 2 ^ 64) : TokenStatsAgree raw taskId s ↔ CountedAlike (s.log taskId) := by
  have hbroker : ∀ order, (BrokerStore.getTokenUsageStats taskId order s).1 =
      .ok ((walk order (table (brokerCalls (s.log taskId))).keys).filterMap
        (table (brokerCalls (s.log taskId))).lookup) := by
    intro order
    have hread : wp (BrokerStore.getTokenUsageStats taskId order)
        (fun stats s' => stats = (s.view taskId).tokenUsageStats order ∧ Loaded taskId s s') (fun _ _ => False) s :=
      withProjection_healthy hs _
    obtain ⟨stats, s', heq, hstats, -⟩ := wp_total hread
    rw [heq, hstats, hv, TaskProjection.tokenUsageStats, tokenStats_replay]
  have hlogdbd : (LogdbdStore.getTokenUsageStats raw taskId { streams := s.streams }).1 =
      .ok ((walk [] (table (logdbdCalls (s.log taskId))).keys).filterMap
        (table (logdbdCalls (s.log taskId))).lookup) := logdbdStats_eq hraw
  have hperm := table_perm (brokerCalls (s.log taskId))
  have hperm' := table_perm (logdbdCalls (s.log taskId)) []
  constructor
  · intro h
    obtain ⟨byModel, byModel', heq, heq', hagree, -, htotals⟩ := h []
    rw [hbroker] at heq
    rw [hlogdbd] at heq'
    cases heq
    cases heq'
    obtain ⟨husage, hmodel⟩ := (statsOf_perm_iff hlen).mp ((hperm []).symm.trans (hagree.trans hperm'))
    refine ⟨husage, hmodel, ?_⟩
    have hfit := (fromByModel_totals_iff _).mp htotals
    rwa [sumTotals_perm hperm'] at hfit
  · intro h order
    have hagree := (statsOf_perm_iff hlen).mpr ⟨h.usage, h.model⟩
    refine ⟨_, _, hbroker order, hlogdbd, (hperm order).trans (hagree.trans hperm'.symm), ?_, ?_⟩
    · rw [fromByModel_totals_iff, sumTotals_perm ((hperm order).trans hagree)]
      exact h.fit
    · rw [fromByModel_totals_iff, sumTotals_perm hperm']
      exact h.fit

/-- A log with the completed calls of these payloads. -/
def callsLog (payloads : List Json) : List Record :=
  ⟨1, "task_created", .obj [], ∅⟩ ::
    payloads.zipIdx.map fun (payload, i) => ⟨i + 2, "llm_completed", payload, (∅ : Metadata).insert "step_id" "a"⟩

/-- The payload of a completed call. -/
def callPayload (model : String) (usage : Option Usage) : Json :=
  (Json.obj [("model", .str model), ("local_seq", .int 1)]).setOpt "usage" (usage.map Usage.toJson)

/-- Three calls of two models. -/
theorem token_stats_agree_two_models : TokenStatsAgree (fun _ => "{}") "task_1" (freshStore (callsLog
    [callPayload "m" (some ⟨10, 5, 15⟩), callPayload "n" (some ⟨1, 2, 3⟩), callPayload "m" (some ⟨7, 1, 8⟩)])) :=
  (token_stats_agree_iff (freshStore_healthy _) (freshStore_view _ _) (by decide) (by decide)).mpr
    ⟨by decide +kernel, by decide +kernel, by decide +kernel⟩

/-- The broker store does not count an accepted call without a usage. -/
theorem token_stats_differ : validatePayloadRequiredFields .llmCompleted (callPayload "m" none) = .ok () ∧
    ¬ TokenStatsAgree (fun _ => "{}") "task_1" (freshStore (callsLog [callPayload "m" none])) := by
  refine ⟨by decide +kernel, fun h => ?_⟩
  obtain ⟨byModel, byModel', heq, heq', hagree, -⟩ := h []
  have hnone : (BrokerStore.getTokenUsageStats "task_1" []
      (freshStore (callsLog [callPayload "m" none]))).1 = .ok [] := by decide +kernel
  have hone : (LogdbdStore.getTokenUsageStats (fun _ => "{}") "task_1"
      { streams := (freshStore (callsLog [callPayload "m" none])).streams }).1 = .ok [⟨"m", 1, 0, 0, 0⟩] := by
    decide +kernel
  rw [hnone] at heq
  rw [hone] at heq'
  cases heq
  cases heq'
  exact absurd hagree.length_eq (by decide)

end Fixus
