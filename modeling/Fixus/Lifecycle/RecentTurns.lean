import Mathlib.Data.List.DropRight
import Fixus.Lifecycle.SummaryTrigger

/-!
# The context of the recent turns

`build_recent_turns_context` puts the messages of the latest turns one after the other. The broker store takes the turns
from a list that the projection extends with every record of a turn; the log database asks for the different turns that
were started.

- `buildRecentTurnsContext`, `recentTurns`: the context, over any store, and the turns that its messages come from;
- `latestTurns`: the largest turn numbers of the log;
- `recent_turns_iff`: the context of both stores has the messages of the latest turns, each once, exactly if the last
  records of the log do (`LastTagsOnce`);
- `last_turn_repeated`: one turn with a reply.
-/

namespace Fixus

open Lib Lib.Eff BrokerStore TaskProjection Context

/-! ## Building the context -/

namespace Context

section Store

variable {σ : Type} (render : Json → String) (getRecentTurnIds : Int → StoreM σ (List Int))
  (getTurnEvents : Int → StoreM σ (List AgentEvent))

/-- The loop over the turns. -/
def extendEach (allMessages : List Message) : List Int → StoreM σ (List Message)
  | [] => pure allMessages
  | turnId :: turnIds => do
    let events ← getTurnEvents turnId
    extendEach (allMessages ++ eventsToMessages render events) turnIds

def buildRecentTurnsContext (recentTurns : Int) : StoreM σ (List Message) := do
  let turnIds ← getRecentTurnIds recentTurns
  extendEach render getTurnEvents [] turnIds.reverse

/-- The messages of each of the turns. -/
def eachTurn : List Int → StoreM σ (List (Int × List Message))
  | [] => pure []
  | turnId :: turnIds => do
    let events ← getTurnEvents turnId
    let rest ← eachTurn turnIds
    pure ((turnId, eventsToMessages render events) :: rest)

/-- The turns of the context, with their messages. -/
def recentTurns (recentTurns : Int) : StoreM σ (List (Int × List Message)) := do
  let turnIds ← getRecentTurnIds recentTurns
  eachTurn render getTurnEvents turnIds.reverse

theorem extendEach_eq (allMessages : List Message) (turnIds : List Int) :
    extendEach render getTurnEvents allMessages turnIds = (do
      let turns ← eachTurn render getTurnEvents turnIds
      pure (allMessages ++ turns.flatMap Prod.snd)) := by
  induction turnIds generalizing allMessages with
  | nil => simp [extendEach, eachTurn]
  | cons turnId turnIds ih => simp [extendEach, eachTurn, ih]

/-- The context is the messages of its turns. -/
theorem buildRecentTurnsContext_eq (n : Int) :
    buildRecentTurnsContext render getRecentTurnIds getTurnEvents n = (do
      let turns ← recentTurns render getRecentTurnIds getTurnEvents n
      pure (turns.flatMap Prod.snd)) := by
  unfold buildRecentTurnsContext recentTurns
  simp [extendEach_eq]

end Store

end Context

/-! ## The stores -/

/-- The entries of the recent turns, the latest first. -/
def TaskProjection.latestTurnIds (p : TaskProjection) (limit : Int) : List Int :=
  p.recentTurnIds.reverse.take (limit % 2 ^ 64).toNat

namespace BrokerStore

def getRecentTurnIds (taskId : String) (limit : Int) : StoreM BrokerStore (List Int) :=
  withProjection taskId fun p => p.latestTurnIds limit

/-- `build_recent_turns_context` on the broker store, by turns. -/
def recentTurns (render : Json → String) (taskId : String) (n : Int) : StoreM BrokerStore (List (Int × List Message)) :=
  Context.recentTurns render (getRecentTurnIds taskId) (brokerEventStore.getTurnEvents taskId) n

def buildRecentTurnsContext (render : Json → String) (taskId : String) (n : Int) : StoreM BrokerStore (List Message) :=
  Context.buildRecentTurnsContext render (getRecentTurnIds taskId) (brokerEventStore.getTurnEvents taskId) n

end BrokerStore

namespace LogdbdStore

/-- The different numbers of the started turns, the largest first. -/
def getRecentTurnIds (taskId : String) (limit : Int) : StoreM LogdbdStore (List Int) :=
  runQuery taskId fun log =>
    (((turnTags (query log [.turnStarted] [])).filterMap parseI64).insertionSort (· ≥ ·)).take (max limit 0).toNat

/-- The event of a record of the database. -/
def eventFromRecord (taskId : String) (r : Record) : Except AppError AgentEvent :=
  match EventType.fromStr r.eventType with
  | none => .error (.invalidEventType r.eventType)
  | some et => .ok (eventOf taskId et r)

def getTurnEvents (taskId : String) (turnId : Int) : StoreM LogdbdStore (List AgentEvent) := do
  let recs ← runQuery taskId fun log => log.filter fun r => r.metadata.lookup "turn_id" = some (toString turnId)
  ofExcept (recs.mapM (eventFromRecord taskId))

def buildRecentTurnsContext (render : Json → String) (taskId : String) (n : Int) : StoreM LogdbdStore (List Message) :=
  Context.buildRecentTurnsContext render (getRecentTurnIds taskId) (getTurnEvents taskId) n

end LogdbdStore

/-! ## What the log says -/

/-- The turns that were started. -/
def startedTurns (log : List Record) : Finset Int :=
  (log.filterMap fun r => if r.eventType = "turn_started" then r.turnId else none).toFinset

/-- The `n` largest of them, in ascending order. -/
def latestTurns (log : List Record) (n : Int) : List Int := (ascending (startedTurns log)).rtake n.toNat

/-- The messages of a turn, in the order of the log. -/
def turnMessages (render : Json → String) (taskId : String) (log : List Record) (turnId : Int) : List Message :=
  eventsToMessages render ((eventsOf taskId log).filter fun e => e.turnId = some turnId)

/-- Turns with their messages. -/
def withMessages (render : Json → String) (taskId : String) (log : List Record) (turnIds : List Int) :
    List (Int × List Message) := turnIds.map fun t => (t, turnMessages render taskId log t)

/-- The turns that have something to say. -/
def talking (turns : List (Int × List Message)) : List (Int × List Message) := turns.filter fun t => !t.2.isEmpty

/-- The context has the messages of the latest turns, one turn after the other, and each turn once; and so it has on the
log database. -/
structure RecentTurnsRight (render : Json → String) (taskId : String) (n : Int) (s : BrokerStore) : Prop where
  turns : (recentTurns render taskId n s).1.map talking =
    .ok (talking (withMessages render taskId (s.log taskId) (latestTurns (s.log taskId) n)))
  messages : (buildRecentTurnsContext render taskId n s).1 =
    .ok ((latestTurns (s.log taskId) n).flatMap (turnMessages render taskId (s.log taskId)))
  logdbd : (LogdbdStore.buildRecentTurnsContext render taskId n { streams := s.streams }).1 =
    .ok ((latestTurns (s.log taskId) n).flatMap (turnMessages render taskId (s.log taskId)))

/-- The turns of the last `n` records that belong to one. -/
def lastTags (log : List Record) (n : Int) : List Int := (log.filterMap indexedTurn).rtake n.toNat

/-- Among the turns of the last `n` records that belong to one, those with messages ascend strictly, and they are those
of the latest turns. -/
structure LastTagsOnce (render : Json → String) (taskId : String) (log : List Record) (n : Int) : Prop where
  ascending : ((lastTags log n).filter fun t => !(turnMessages render taskId log t).isEmpty).Pairwise (· < ·)
  latest : ∀ t, turnMessages render taskId log t ≠ [] → (t ∈ lastTags log n ↔ t ∈ latestTurns log n)

/-- The log has known event types, and the texts of `i64`s as turn tags. -/
structure WrittenLog (log : List Record) : Prop where
  known : ∀ r ∈ log, (EventType.fromStr r.eventType).isSome = true
  tags : ∀ r ∈ log, ∀ tag ∈ r.metadata.lookup "turn_id", (parseI64 tag).map toString = some tag

/-! ## The broker store -/

section Broker

variable {s : BrokerStore} (render : Json → String) {taskId : String}

/-- The loop over the turns of a healthy store. -/
theorem eachTurn_healthy (hs : Healthy s) (hv : s.view taskId = replay taskId (s.log taskId))
    (hn : ((eventsOf taskId (s.log taskId)).map AgentEvent.seq).Nodup) (turnIds : List Int) :
    wp (eachTurn render (brokerEventStore.getTurnEvents taskId) turnIds)
      (fun turns _ => turns = withMessages render taskId (s.log taskId) turnIds)
      (fun _ _ => False) s := by
  -- the log stays what it was when the loop began
  generalize hlog : s.log taskId = log at hv hn ⊢
  induction turnIds generalizing s with
  | nil => rfl
  | cons turnId turnIds ih =>
    unfold eachTurn
    rw [wp_bind]
    refine wp_mono (withProjection_healthy hs _) (fun events s₁ h₁ => ?_) fun _ _ h => h
    obtain ⟨rfl, hloaded⟩ := h₁
    have hlog₁ : s₁.log taskId = log := (congrFun hloaded.streams taskId).trans hlog
    rw [wp_bind]
    refine wp_mono (ih hloaded.healthy hlog₁ (hloaded.view.trans hv)) (fun turns s₂ h₂ => ?_) fun _ _ h => h
    rw [wp_pure, h₂, hv, replay_turnEvents hn]
    rfl

/-- The broker store goes through the turns of the last records. -/
theorem recentTurns_healthy (hs : Healthy s) (hv : s.view taskId = replay taskId (s.log taskId))
    (hn : ((eventsOf taskId (s.log taskId)).map AgentEvent.seq).Nodup) {n : Int} (hpos : 0 ≤ n) (hfits : InI64 n) :
    (BrokerStore.recentTurns render taskId n s).1 =
      .ok (withMessages render taskId (s.log taskId) (lastTags (s.log taskId) n)) := by
  have hread : wp (BrokerStore.recentTurns render taskId n)
      (fun turns _ => turns = withMessages render taskId (s.log taskId) (lastTags (s.log taskId) n))
      (fun _ _ => False) s := by
    unfold BrokerStore.recentTurns Context.recentTurns
    rw [wp_bind]
    refine wp_mono (withProjection_healthy hs _) (fun turnIds s₁ h₁ => ?_) fun _ _ h => h
    obtain ⟨rfl, hloaded⟩ := h₁
    have hlog₁ : s₁.log taskId = s.log taskId := congrFun hloaded.streams taskId
    have hids : ((s.view taskId).latestTurnIds n).reverse = lastTags (s.log taskId) n := by
      have hmod : n % 2 ^ 64 = n := Int.emod_eq_of_lt hpos (by have := hfits.2; omega)
      unfold latestTurnIds lastTags
      rw [hv, replay_recentTurnIds, hmod, List.rtake_eq_reverse_take_reverse]
    rw [hids, ← hlog₁]
    exact eachTurn_healthy render hloaded.healthy (by rw [hloaded.view, hv, hlog₁]) (hlog₁ ▸ hn) _
  obtain ⟨turns, s', heq, hturns⟩ := wp_total hread
  rw [heq, hturns]

end Broker

/-! ## The log database -/

namespace WrittenLog

variable {log : List Record} {taskId : String}

/-- A turn tag is the text of its number. -/
theorem tag_iff (h : WrittenLog log) {r : Record} (hr : r ∈ log) {k : Int} (hk : InI64 k) :
    r.metadata.lookup "turn_id" = some (toString k) ↔ r.turnId = some k := by
  unfold Record.turnId
  constructor
  · intro hl
    rw [hl]
    exact parseI64_toString hk
  · intro hl
    obtain ⟨tag, htag, hparse⟩ := Option.bind_eq_some_iff.mp hl
    have hprint := h.tags r hr tag htag
    rw [hparse] at hprint
    exact htag.trans hprint.symm

/-- The database finds the different started turns, the largest first. -/
theorem recentIds_eq (h : WrittenLog log) :
    ((turnTags (query log [.turnStarted] [])).filterMap parseI64).insertionSort (· ≥ ·) =
      (ascending (startedTurns log)).reverse := by
  have hmem : ∀ tag, tag ∈ turnTags (query log [.turnStarted] []) ↔
      ∃ r ∈ log, r.eventType = "turn_started" ∧ r.metadata.lookup "turn_id" = some tag := by
    intro tag
    simp only [turnTags, query, List.mem_dedup, List.mem_filterMap, List.mem_filter, List.any_cons, List.any_nil,
      List.all_nil, Bool.or_false, Bool.and_true, EventType.asStr, and_assoc]
    exact exists_congr fun r => and_congr_right fun _ => and_congr_left fun _ => decide_eq_true_iff
  have hprint : ((turnTags (query log [.turnStarted] [])).filterMap parseI64).map toString =
      turnTags (query log [.turnStarted] []) := by
    rw [List.map_filterMap]
    conv_rhs => rw [← List.filterMap_some (l := turnTags (query log [.turnStarted] []))]
    refine List.filterMap_congr fun tag htag => ?_
    obtain ⟨r, hr, -, hl⟩ := (hmem tag).mp htag
    exact h.tags r hr tag hl
  have hnodup : ((turnTags (query log [.turnStarted] [])).filterMap parseI64).Nodup :=
    List.Nodup.of_map toString (by rw [hprint]; exact List.nodup_dedup _)
  have hids : ∀ k, k ∈ (turnTags (query log [.turnStarted] [])).filterMap parseI64 ↔ k ∈ startedTurns log := by
    intro k
    simp only [List.mem_filterMap, hmem, startedTurns, List.mem_toFinset, Option.ite_none_right_eq_some,
      Record.turnId, Option.bind_eq_some_iff]
    constructor
    · rintro ⟨tag, ⟨r, hr, he, hl⟩, hk⟩
      exact ⟨r, hr, he, tag, hl, hk⟩
    · rintro ⟨r, hr, he, tag, hl, hk⟩
      exact ⟨tag, ⟨r, hr, he, hl⟩, hk⟩
  have : Std.Total fun k k' : Int => k ≥ k' := ⟨fun _ _ => le_total _ _⟩
  have : IsTrans Int fun k k' => k ≥ k' := ⟨fun _ _ _ h h' => le_trans h' h⟩
  refine List.Perm.eq_of_pairwise (fun _ _ _ _ h h' => le_antisymm h' h) (List.pairwise_insertionSort _ _)
    (List.pairwise_reverse.mpr ((pairwise_ascending _).imp le_of_lt)) ?_
  refine (List.perm_insertionSort _ _).trans ((List.perm_ext_iff_of_nodup hnodup ?_).mpr fun k => ?_)
  · exact List.nodup_reverse.mpr (nodup_ascending _)
  · rw [hids, List.mem_reverse, mem_ascending]

/-- The records of a turn are read as its events. -/
theorem mapM_eventFromRecord (h : WrittenLog log) {recs : List Record} (hsub : recs ⊆ log) :
    recs.mapM (LogdbdStore.eventFromRecord taskId) = .ok (eventsOf taskId recs) := by
  induction recs with
  | nil => rfl
  | cons r recs ih =>
    obtain ⟨hr, hrest⟩ := List.cons_subset.mp hsub
    obtain ⟨et, het⟩ := Option.isSome_iff_exists.mp (h.known r hr)
    have hread : LogdbdStore.eventFromRecord taskId r = .ok (eventOf taskId et r) := by
      simp [LogdbdStore.eventFromRecord, het]
    have hcons : eventsOf taskId (r :: recs) = eventOf taskId et r :: eventsOf taskId recs := by simp [eventsOf, het]
    rw [List.mapM_cons, hread, hcons, ih hrest]
    rfl

/-- The events of some of the records. -/
theorem eventsOf_filter (h : WrittenLog log) {k : Int} (hk : InI64 k) :
    eventsOf taskId (log.filter fun r => r.metadata.lookup "turn_id" = some (toString k)) =
      (eventsOf taskId log).filter fun e => e.turnId = some k := by
  unfold eventsOf
  rw [List.filterMap_filter, List.filter_filterMap]
  refine List.filterMap_congr fun r hr => ?_
  have htag : (r.metadata.lookup "turn_id" = some (toString k)) = (r.turnId = some k) := propext (h.tag_iff hr hk)
  simp only [htag]
  cases EventType.fromStr r.eventType with
  | none => simp
  | some et => by_cases ht : r.turnId = some k <;> simp [ht, eventOf, Option.filter]

end WrittenLog

section Logdbd

variable {streams : String → List Record} {render : Json → String} {taskId : String}

/-- The loop over the turns of the database. -/
theorem extendEach_logdbd (h : WrittenLog (streams taskId)) (allMessages : List Message) {turnIds : List Int}
    (hids : ∀ t ∈ turnIds, InI64 t) :
    extendEach render (LogdbdStore.getTurnEvents taskId) allMessages turnIds { streams } =
      (.ok (allMessages ++ turnIds.flatMap (turnMessages render taskId (streams taskId))), { streams }) := by
  induction turnIds generalizing allMessages with
  | nil => simp [extendEach]; rfl
  | cons turnId turnIds ih =>
    obtain ⟨hid, hrest⟩ := List.forall_mem_cons.mp hids
    have hread : LogdbdStore.getTurnEvents taskId turnId { streams } =
        (.ok ((eventsOf taskId (streams taskId)).filter fun e => e.turnId = some turnId), { streams }) := by
      have hask : LogdbdStore.getTurnEvents taskId turnId { streams } =
          ofExcept (((streams taskId).filter fun r => r.metadata.lookup "turn_id" = some (toString turnId)).mapM
            (LogdbdStore.eventFromRecord taskId)) { streams } := rfl
      rw [hask, h.mapM_eventFromRecord (List.filter_subset_self _), h.eventsOf_filter hid]
      rfl
    unfold extendEach
    rw [bind_apply, Eff.bind, hread]
    simp only
    rw [ih _ hrest, List.flatMap_cons, List.append_assoc]
    rfl

/-- The log database has the messages of the latest turns. -/
theorem buildRecentTurnsContext_logdbd (h : WrittenLog (streams taskId)) (n : Int) :
    (LogdbdStore.buildRecentTurnsContext render taskId n { streams }).1 =
      .ok ((latestTurns (streams taskId) n).flatMap (turnMessages render taskId (streams taskId))) := by
  have hids : LogdbdStore.getRecentTurnIds taskId n { streams } =
      (.ok ((latestTurns (streams taskId) n).reverse), { streams }) := by
    have hask : LogdbdStore.getRecentTurnIds taskId n { streams } =
        (.ok ((((turnTags (query (streams taskId) [.turnStarted] [])).filterMap parseI64).insertionSort (· ≥ ·)).take
          (max n 0).toNat), { streams }) := rfl
    have hmax : (max n 0).toNat = n.toNat := by omega
    rw [hask, h.recentIds_eq, hmax, latestTurns, List.rtake_eq_reverse_take_reverse, List.reverse_reverse]
  have hrange : ∀ t ∈ latestTurns (streams taskId) n, InI64 t := by
    intro t ht
    have hstarted : t ∈ startedTurns (streams taskId) := mem_ascending.mp (List.mem_of_mem_drop ht)
    obtain ⟨r, -, hr⟩ := List.mem_filterMap.mp (List.mem_toFinset.mp hstarted)
    exact Record.inI64_of_turnId (Option.ite_none_right_eq_some.mp hr).2
  unfold LogdbdStore.buildRecentTurnsContext Context.buildRecentTurnsContext
  rw [bind_apply, Eff.bind, hids]
  simp only [List.reverse_reverse]
  rw [extendEach_logdbd h [] hrange, List.nil_append]

end Logdbd

/-! ## When the context is right -/

variable {s : BrokerStore} {render : Json → String} {taskId : String} {log : List Record} {n : Int}

/-- What turns say is what the talking ones say. -/
theorem flatMap_talking (turns : List (Int × List Message)) :
    turns.flatMap Prod.snd = (talking turns).flatMap Prod.snd := by
  induction turns with
  | nil => rfl
  | cons t turns ih => by_cases ht : t.2 = [] <;> simp_all [talking]

/-- Lists of turns talk alike exactly if they have the same talking turns. -/
theorem talking_withMessages_iff {turnIds turnIds' : List Int} :
    talking (withMessages render taskId log turnIds) = talking (withMessages render taskId log turnIds') ↔
      (turnIds.filter fun t => !(turnMessages render taskId log t).isEmpty) =
        turnIds'.filter fun t => !(turnMessages render taskId log t).isEmpty := by
  have hinj : Function.Injective fun t => (t, turnMessages render taskId log t) := fun _ _ h => congrArg Prod.fst h
  have htalking : ∀ ts, talking (withMessages render taskId log ts) =
      (ts.filter fun t => !(turnMessages render taskId log t).isEmpty).map fun t =>
        (t, turnMessages render taskId log t) := fun _ => List.filter_map
  rw [htalking, htalking, hinj.list_map.eq_iff]

/-- The turns of the last records are the latest turns, as far as they talk, exactly if their tags ascend and are
those. -/
theorem lastTagsOnce_iff :
    ((lastTags log n).filter fun t => !(turnMessages render taskId log t).isEmpty) =
        (latestTurns log n).filter (fun t => !(turnMessages render taskId log t).isEmpty) ↔
      LastTagsOnce render taskId log n := by
  have hlatest : ((latestTurns log n).filter fun t => !(turnMessages render taskId log t).isEmpty).Pairwise (· < ·) :=
    ((pairwise_ascending _).sublist (List.drop_sublist _ _)).filter _
  have hmem : ∀ (ts : List Int) t, t ∈ ts.filter (fun t => !(turnMessages render taskId log t).isEmpty) ↔
      t ∈ ts ∧ turnMessages render taskId log t ≠ [] := by
    intro ts t
    simp [List.mem_filter]
  constructor
  · intro heq
    refine ⟨heq ▸ hlatest, fun t ht => ?_⟩
    have hboth := (hmem (lastTags log n) t).symm.trans ((iff_of_eq (by rw [heq])).trans (hmem (latestTurns log n) t))
    exact ⟨fun h => (hboth.mp ⟨h, ht⟩).1, fun h => (hboth.mpr ⟨h, ht⟩).1⟩
  · intro h
    refine List.Perm.eq_of_pairwise (fun _ _ _ _ h h' => absurd h h'.asymm) h.ascending hlatest ?_
    refine (List.perm_ext_iff_of_nodup (h.ascending.imp ne_of_lt) (hlatest.imp ne_of_lt)).mpr fun t => ?_
    rw [hmem, hmem]
    exact and_congr_left fun ht => h.latest t ht

/-- **The context has the messages of the latest turns, each once, exactly if the last records of turns do.** -/
theorem recent_turns_iff (hs : Healthy s) (hv : s.view taskId = replay taskId (s.log taskId))
    (ha : Ascending (s.log taskId)) (hseq : ∀ r ∈ s.log taskId, r.seq < 2 ^ 64) (hw : WrittenLog (s.log taskId))
    (hpos : 0 ≤ n) (hfits : InI64 n) :
    RecentTurnsRight render taskId n s ↔ LastTagsOnce render taskId (s.log taskId) n := by
  have hread := recentTurns_healthy render hs hv (nodup_seqs ha hseq) hpos hfits
  have hturns : (BrokerStore.recentTurns render taskId n s).1.map talking =
      .ok (talking (withMessages render taskId (s.log taskId) (latestTurns (s.log taskId) n))) ↔
        LastTagsOnce render taskId (s.log taskId) n := by
    rw [hread, ← lastTagsOnce_iff, Except.map, Except.ok.injEq, talking_withMessages_iff]
  constructor
  · exact fun h => hturns.mp h.turns
  · intro h
    refine ⟨hturns.mpr h, ?_, buildRecentTurnsContext_logdbd hw n⟩
    -- the context is the messages of the turns that talk
    have heq := talking_withMessages_iff.mpr (lastTagsOnce_iff.mpr h)
    have hcontext : (BrokerStore.buildRecentTurnsContext render taskId n s).1 =
        (BrokerStore.recentTurns render taskId n s).1.map fun turns => turns.flatMap Prod.snd := by
      unfold BrokerStore.buildRecentTurnsContext BrokerStore.recentTurns
      rw [buildRecentTurnsContext_eq, bind_apply, Eff.bind]
      cases Context.recentTurns render (getRecentTurnIds taskId) (brokerEventStore.getTurnEvents taskId) n s with
      | mk r s' => cases r <;> rfl
    rw [hcontext, hread, Except.map, flatMap_talking, heq, ← flatMap_talking, withMessages, List.flatMap_map]

/-- Two turns that have nothing but their questions. -/
def twoQuestions : List Record :=
  let turn (k : String) : Metadata := (∅ : Metadata).insert "turn_id" k
  [⟨1, "task_created", .obj [], ∅⟩, ⟨2, "task_ready", .obj [], ∅⟩,
    ⟨3, "turn_started", .obj [("user_input", .str "hello")], turn "1"⟩, ⟨4, "task_blocked", .obj [], ∅⟩,
    ⟨5, "turn_started", .obj [("user_input", .str "and now?")], turn "2"⟩]

theorem recent_turns_questions : RecentTurnsRight (fun _ => "") "task_1" 2 (freshStore twoQuestions) := by
  have hw : WrittenLog twoQuestions := ⟨by decide +kernel, by decide +kernel⟩
  exact (recent_turns_iff (freshStore_healthy _) (freshStore_view _ _) (by decide) (by decide) hw (by decide)
    (by decide)).mpr
    (lastTagsOnce_iff.mp (by decide +kernel))

/-- The three records of a turn with a reply bring its two messages three times. -/
theorem last_turn_repeated : ¬ RecentTurnsRight (fun _ => "") "task_1" 3 (freshStore replyLog) := by
  intro h
  have hlength := congrArg (fun context => context.toOption.map List.length) h.messages
  revert hlength
  decide +kernel

end Fixus
