import Mathlib.Logic.Relation
import Fixus.Lib.UpTo
import Fixus.Store.Projection

/-!
# History and live feed of a turn's stream

A client that follows a turn is sent the turn's part of a scan of the log, and then what the live feed brings that the
scan did not. Commits go on all the while.

- `planHistoryReplay_ascending`: the replay of a log without its sorting loop;
- `Covered.…`: what a scan and the feed together have brought;
- `InStep.…`: one lemma for each step of the log, the scan, the feed and the tokens;
- `stream_exact`: nothing of the turn is lost, sent twice or sent after its end;
- `late_record_dropped`: the watermark is signed, and records from `2 ^ 63` on are taken for old ones.

The text of a record's content is a parameter. The failure of the subscription and a client that hangs up end the
handler and are left out.
-/

namespace Fixus

/-- A record as the log hands it out. -/
structure LogRecord where
  seq : Nat
  eventType : String
  content : List UInt8
  metadata : Metadata

def LogRecord.turnId (r : LogRecord) : Option Int := (r.metadata.lookup "turn_id").bind parseI64

def terminalEvents : List String := ["turn_completed", "turn_failed", "turn_canceled", "turn_blocked"]

def isTerminalEvent (eventType : String) : Bool := terminalEvents.contains eventType

def subscribeEventTypes : List String :=
  ["turn_started", "turn_completed", "turn_failed", "turn_canceled", "turn_blocked", "llm_invoked", "llm_completed",
    "llm_failed", "tool_invoked", "tool_completed", "tool_failed"]

/-- What is sent to a client: an event of the log, a token of the fast path, or the end. -/
inductive Sse where
  | event (eventType data : String)
  | chunk (data : String)
  | done
  deriving DecidableEq

section Handler

variable (fromUtf8Lossy : List UInt8 → String)

def LogRecord.sse (r : LogRecord) : Sse := .event r.eventType (fromUtf8Lossy r.content)

/-- What a scan of the log has to say about a turn. -/
structure ReplayPlan where
  events : List Sse := []
  hitTerminal : Bool := false
  lastSeq : Int := 0

/-- The loop over the turn's records; it ends at a terminal one. -/
def replayLoop (plan : ReplayPlan) : List LogRecord → ReplayPlan
  | [] => plan
  | r :: rest =>
    let plan' := { plan with
      lastSeq := max plan.lastSeq (wrapI64 r.seq)
      events := plan.events ++ [r.sse fromUtf8Lossy] }
    if isTerminalEvent r.eventType then { plan' with hitTerminal := true } else replayLoop plan' rest

def planHistoryReplay (history : List LogRecord) (turnId : Int) : ReplayPlan :=
  let matching := (history.filter fun r => r.turnId = some turnId).mergeSort fun a b => a.seq ≤ b.seq
  replayLoop fromUtf8Lossy {} matching

def shouldEmitLive (recSeq lastHistorySeq : Int) : Bool := lastHistorySeq < recSeq

/-- What is sent after the scan, and the watermark to go on with unless that was all. A failed scan is no scan. -/
def replayHistory (turnId : Int) : Option (List LogRecord) → List Sse × Option Int
  | none => ([], some 0)
  | some history =>
    let plan := planHistoryReplay fromUtf8Lossy history turnId
    if plan.hitTerminal then (plan.events ++ [.done], none) else (plan.events, some plan.lastSeq)

/-- What is sent for the next item of the feed, and whether to go on. An error of the feed, or its end, ends the
stream. -/
def onLive (turnId lastHistorySeq : Int) : Option LogRecord → List Sse × Bool
  | none => ([.done], false)
  | some r =>
    if !shouldEmitLive (wrapI64 r.seq) lastHistorySeq then ([], true)
    else if r.turnId ≠ some turnId then ([], true)
    else if isTerminalEvent r.eventType then ([r.sse fromUtf8Lossy, .done], false)
    else ([r.sse fromUtf8Lossy], true)

end Handler

/-! ## The log, the feed and the handler together -/

/-- Which records the feed delivers: those of the types subscribed to, perhaps others. -/
structure SseFeed where
  delivers : LogRecord → Bool
  subscribed : ∀ r, r.eventType ∈ subscribeEventTypes → delivers r = true

/-- How far the handler is. The feed starts at the end the log had at the subscription. -/
inductive StreamPhase where
  | connecting
  | attached (mark : Nat)
  | tailing (next : Nat) (lastHistorySeq : Int)
  | closed

structure StreamSystem where
  committed : List LogRecord := []
  phase : StreamPhase := .connecting
  sent : List Sse := []

/-- A step of the log, of the handler or of the fast path; numbers of records stay below a limit. -/
inductive StreamStep (fromUtf8Lossy : List UInt8 → String) (feed : SseFeed) (turnId : Int) (limit : Nat)
    (σ : StreamSystem) : StreamSystem → Prop
  | commit (r : LogRecord) (pos : 1 ≤ r.seq) (lt : r.seq < limit) (asc : ∀ x ∈ σ.committed, x.seq < r.seq) :
    StreamStep fromUtf8Lossy feed turnId limit σ { σ with committed := σ.committed ++ [r] }
  | attach (h : σ.phase = .connecting) :
    StreamStep fromUtf8Lossy feed turnId limit σ { σ with phase := .attached σ.committed.length }
  | scan (mark n : Nat) (h : σ.phase = .attached mark) (after : mark ≤ n) (le : n ≤ σ.committed.length) :
    StreamStep fromUtf8Lossy feed turnId limit σ
      { σ with
        phase := match (replayHistory fromUtf8Lossy turnId (some (σ.committed.take n))).2 with
          | some last => .tailing mark last
          | none => .closed
        sent := σ.sent ++ (replayHistory fromUtf8Lossy turnId (some (σ.committed.take n))).1 }
  | pass (next : Nat) (last : Int) (r : LogRecord) (h : σ.phase = .tailing next last) (hr : σ.committed[next]? = some r)
      (no : feed.delivers r = false) :
    StreamStep fromUtf8Lossy feed turnId limit σ { σ with phase := .tailing (next + 1) last }
  | recv (next : Nat) (last : Int) (r : LogRecord) (h : σ.phase = .tailing next last) (hr : σ.committed[next]? = some r)
      (yes : feed.delivers r = true) :
    StreamStep fromUtf8Lossy feed turnId limit σ
      { σ with
        phase := if (onLive fromUtf8Lossy turnId last (some r)).2 then .tailing (next + 1) last else .closed
        sent := σ.sent ++ (onLive fromUtf8Lossy turnId last (some r)).1 }
  | token (data : String) (h : σ.phase ≠ .connecting) :
    StreamStep fromUtf8Lossy feed turnId limit σ { σ with sent := σ.sent ++ [.chunk data] }

/-- The records of a turn up to its first end. -/
def turnEvents (turnId : Int) (log : List LogRecord) : List LogRecord :=
  Lib.upTo (fun r => isTerminalEvent r.eventType) (log.filter fun r => r.turnId = some turnId)

/-- The event is one of the log. -/
def Sse.isEvent : Sse → Bool
  | .event _ _ => true
  | _ => false

/-- The event is one of the log, of a type subscribed to. -/
def Sse.isSubscribed : Sse → Bool
  | .event eventType _ => subscribeEventTypes.contains eventType
  | _ => false

/-- The handler has nothing left to do: it is through, or through with what the feed holds. -/
def StreamSystem.CaughtUp (σ : StreamSystem) : Prop :=
  σ.phase = .closed ∨ ∃ last, σ.phase = .tailing σ.committed.length last

/-- The events sent so far are the first events of the turn, each once and in the order of the log; nothing of the log
is sent that is not of the turn or comes after its end; and when the handler has caught up, none is missing. -/
structure StreamExact (fromUtf8Lossy : List UInt8 → String) (turnId : Int) (σ : StreamSystem) : Prop where
  ascending : σ.committed.Pairwise fun r r' => r.seq < r'.seq
  sent : σ.sent.filter Sse.isSubscribed <+:
    ((turnEvents turnId σ.committed).map (LogRecord.sse fromUtf8Lossy)).filter Sse.isSubscribed
  nothingElse : (σ.sent.filter Sse.isEvent).Sublist
    ((turnEvents turnId σ.committed).map (LogRecord.sse fromUtf8Lossy))
  complete : σ.CaughtUp → σ.sent.filter Sse.isSubscribed =
    ((turnEvents turnId σ.committed).map (LogRecord.sse fromUtf8Lossy)).filter Sse.isSubscribed

/-! ## What the scan brings -/

section Replay

variable {fromUtf8Lossy : List UInt8 → String} {turnId : Int}

/-- The records of a turn. -/
def ofTurn (turnId : Int) (log : List LogRecord) : List LogRecord := log.filter fun r => r.turnId = some turnId

/-- The number is the largest of the records', or 0. -/
def Watermark (last : Int) (rs : List LogRecord) : Prop := ∀ k : Int, last < k ↔ 0 < k ∧ ∀ r ∈ rs, wrapI64 r.seq < k

theorem replayLoop_events (plan : ReplayPlan) (rs : List LogRecord) :
    (replayLoop fromUtf8Lossy plan rs).events =
      plan.events ++ (Lib.upTo (fun r => isTerminalEvent r.eventType) rs).map (LogRecord.sse fromUtf8Lossy) := by
  induction rs generalizing plan with
  | nil => simp [replayLoop]
  | cons r rs ih =>
    rw [replayLoop, Lib.upTo]
    by_cases h : isTerminalEvent r.eventType = true
    · simp [h]
    · simp [h, ih]

theorem replayLoop_hitTerminal {plan : ReplayPlan} (hplan : plan.hitTerminal = false) (rs : List LogRecord) :
    (replayLoop fromUtf8Lossy plan rs).hitTerminal = rs.any fun r => isTerminalEvent r.eventType := by
  induction rs generalizing plan with
  | nil => simp [replayLoop, hplan]
  | cons r rs ih =>
    rw [replayLoop]
    by_cases h : isTerminalEvent r.eventType = true
    · simp [h]
    · simp only [h, Bool.false_eq_true, if_false, List.any_cons, Bool.false_or]
      exact ih hplan

theorem replayLoop_lastSeq {rs : List LogRecord} (hrs : ∀ r ∈ rs, isTerminalEvent r.eventType = false)
    (plan : ReplayPlan) (k : Int) :
    (replayLoop fromUtf8Lossy plan rs).lastSeq < k ↔ plan.lastSeq < k ∧ ∀ r ∈ rs, wrapI64 r.seq < k := by
  induction rs generalizing plan with
  | nil => simp [replayLoop]
  | cons r rs ih =>
    rw [replayLoop, hrs r List.mem_cons_self]
    simp only [Bool.false_eq_true, if_false]
    rw [ih fun x hx => hrs x (List.mem_cons_of_mem r hx)]
    simp only [List.mem_cons, forall_eq_or_imp, max_lt_iff, and_assoc]

/-- An ascending history needs no sorting. -/
theorem planHistoryReplay_ascending {history : List LogRecord}
    (hasc : history.Pairwise fun r r' => r.seq < r'.seq) (turnId : Int) :
    planHistoryReplay fromUtf8Lossy history turnId = replayLoop fromUtf8Lossy {} (ofTurn turnId history) := by
  have hsorted : (ofTurn turnId history).Pairwise fun a b => decide (a.seq ≤ b.seq) = true :=
    (hasc.filter _).imp fun h => by simpa using h.le
  show replayLoop fromUtf8Lossy {} ((ofTurn turnId history).mergeSort fun a b => decide (a.seq ≤ b.seq)) = _
  rw [List.mergeSort_of_pairwise hsorted]

/-- A history with an end of the turn in it is all there is to send. -/
theorem replayHistory_of_terminal {history : List LogRecord} (hasc : history.Pairwise fun r r' => r.seq < r'.seq)
    (h : ∃ r ∈ ofTurn turnId history, isTerminalEvent r.eventType = true) :
    replayHistory fromUtf8Lossy turnId (some history) =
      ((turnEvents turnId history).map (LogRecord.sse fromUtf8Lossy) ++ [.done], none) := by
  have hit : (replayLoop fromUtf8Lossy {} (ofTurn turnId history)).hitTerminal = _ := replayLoop_hitTerminal rfl _
  rw [List.any_eq_true.mpr h] at hit
  simp only [replayHistory, planHistoryReplay_ascending hasc, hit, if_true, replayLoop_events, List.nil_append]
  rfl

/-- After another one the feed takes over. -/
theorem replayHistory_of_open (fromUtf8Lossy : List UInt8 → String) {history : List LogRecord}
    (hasc : history.Pairwise fun r r' => r.seq < r'.seq)
    (h : ∀ r ∈ ofTurn turnId history, isTerminalEvent r.eventType = false) :
    ∃ last, Watermark last (ofTurn turnId history) ∧ replayHistory fromUtf8Lossy turnId (some history) =
      ((ofTurn turnId history).map (LogRecord.sse fromUtf8Lossy), some last) := by
  have hit : (replayLoop fromUtf8Lossy {} (ofTurn turnId history)).hitTerminal = _ := replayLoop_hitTerminal rfl _
  have hany : (ofTurn turnId history).any (fun r => isTerminalEvent r.eventType) = false := by
    simpa using h
  rw [hany] at hit
  refine ⟨(replayLoop fromUtf8Lossy {} (ofTurn turnId history)).lastSeq, replayLoop_lastSeq h {}, ?_⟩
  simp only [replayHistory, planHistoryReplay_ascending hasc, hit, Bool.false_eq_true, if_false, replayLoop_events,
    List.nil_append, Lib.upTo_of_none h]

end Replay

/-! ## What the scan and the feed bring together -/

section Covered

variable {fromUtf8Lossy : List UInt8 → String} {feed : SseFeed} {turnId : Int} {log : List LogRecord} {n next : Nat}
  {r : LogRecord}

/-- The records of the turn in a scan of the first `n` records, and those the feed delivers after them before the place
`next`. -/
def covered (feed : SseFeed) (turnId : Int) (log : List LogRecord) (n next : Nat) : List LogRecord :=
  ofTurn turnId (log.take n) ++ (ofTurn turnId ((log.take next).drop n)).filter feed.delivers

theorem ofTurn_append (log log' : List LogRecord) :
    ofTurn turnId (log ++ log') = ofTurn turnId log ++ ofTurn turnId log' :=
  List.filter_append _ _

theorem mem_ofTurn : r ∈ ofTurn turnId log ↔ r ∈ log ∧ r.turnId = some turnId := by
  simp [ofTurn]

theorem covered_of_le (h : next ≤ n) : covered feed turnId log n next = ofTurn turnId (log.take n) := by
  have hd : (log.take next).drop n = [] := by
    apply List.drop_eq_nil_of_le
    rw [List.length_take]
    omega
  rw [covered, hd]
  simp [ofTurn]

/-- A commit changes nothing of it. -/
theorem covered_commit (hn : n ≤ log.length) (hnext : next ≤ log.length) (r : LogRecord) :
    covered feed turnId (log ++ [r]) n next = covered feed turnId log n next := by
  simp only [covered, List.take_append_of_le_length hn, List.take_append_of_le_length hnext]

/-- The feed adds the next record of the turn, if it is past the scan. -/
theorem covered_succ (hr : log[next]? = some r) :
    covered feed turnId log n (next + 1) = covered feed turnId log n next ++
      if n ≤ next ∧ r.turnId = some turnId ∧ feed.delivers r = true then [r] else [] := by
  obtain ⟨hlt, -⟩ := List.getElem?_eq_some_iff.mp hr
  have htake : log.take (next + 1) = log.take next ++ [r] := by
    rw [List.take_add_one, hr, Option.toList_some]
  by_cases hn : n ≤ next
  · have hd : (log.take (next + 1)).drop n = (log.take next).drop n ++ [r] := by
      rw [htake, List.drop_append_of_le_length]
      rw [List.length_take]
      omega
    rw [covered, hd, ofTurn_append, List.filter_append, ← List.append_assoc]
    by_cases ht : r.turnId = some turnId <;> by_cases hdel : feed.delivers r = true <;>
      simp [covered, ofTurn, hn, ht, hdel]
  · rw [covered_of_le (by omega), covered_of_le (by omega), if_neg (fun h => hn h.1), List.append_nil]

theorem take_max (log : List LogRecord) (n next : Nat) :
    log.take (max n next) = log.take n ++ (log.take next).drop n := by
  by_cases h : next ≤ n
  · rw [max_eq_left h, List.drop_eq_nil_of_le (by rw [List.length_take]; omega), List.append_nil]
  · rw [max_eq_right (by omega)]
    conv_lhs => rw [← List.take_append_drop n (log.take next), List.take_take, min_eq_left (by omega)]

theorem mem_covered (h : r ∈ covered feed turnId log n next) : r ∈ ofTurn turnId (log.take (max n next)) := by
  rw [take_max, ofTurn_append]
  rcases List.mem_append.mp h with h | h
  · exact List.mem_append_left _ h
  · exact List.mem_append_right _ (List.mem_of_mem_filter h)

/-- The type of the record is one subscribed to. -/
def LogRecord.isSubscribed (r : LogRecord) : Bool := subscribeEventTypes.contains r.eventType

theorem LogRecord.delivered (h : r.isSubscribed = true) : feed.delivers r = true :=
  feed.subscribed r (List.contains_iff_mem.mp h)

theorem isSubscribed_of_terminal (r : LogRecord) (h : isTerminalEvent r.eventType = true) : r.isSubscribed = true := by
  have hmem : r.eventType ∈ terminalEvents := List.contains_iff_mem.mp h
  have hsub : ∀ t ∈ terminalEvents, subscribeEventTypes.contains t = true := by decide
  exact hsub _ hmem

/-- Of the types subscribed to, nothing is missing. -/
theorem filter_covered : (covered feed turnId log n next).filter LogRecord.isSubscribed =
    (ofTurn turnId (log.take (max n next))).filter LogRecord.isSubscribed := by
  rw [take_max, ofTurn_append, covered, List.filter_append, List.filter_append, List.filter_filter]
  congr 1
  apply List.filter_congr
  intro x _
  cases h : x.isSubscribed with
  | false => rfl
  | true => rw [LogRecord.delivered h, Bool.and_self]

/-- Up to the end of the turn, the same. -/
theorem upTo_covered : (Lib.upTo (fun r => isTerminalEvent r.eventType) (covered feed turnId log n next)).filter
      LogRecord.isSubscribed =
    (turnEvents turnId (log.take (max n next))).filter LogRecord.isSubscribed := by
  rw [← Lib.upTo_filter isSubscribed_of_terminal, filter_covered, Lib.upTo_filter isSubscribed_of_terminal]
  rfl

theorem turnEvents_take (k : Nat) : turnEvents turnId (log.take k) <+: turnEvents turnId log := by
  have h : turnEvents turnId (log.take k) <+: Lib.upTo _ (ofTurn turnId (log.take k) ++ ofTurn turnId (log.drop k)) :=
    Lib.upTo_prefix_append
  rwa [← ofTurn_append, List.take_append_drop] at h

/-- Nothing else is brought before the end of the turn. -/
theorem upTo_covered_sublist : (Lib.upTo (fun r => isTerminalEvent r.eventType)
    (covered feed turnId log n next)).Sublist (turnEvents turnId log) := by
  refine List.Sublist.trans ?_ (turnEvents_take (max n next)).sublist
  have hdel : ∀ r : LogRecord, isTerminalEvent r.eventType = true → feed.delivers r = true :=
    fun r h => LogRecord.delivered (isSubscribed_of_terminal r h)
  show List.Sublist _ (Lib.upTo _ (ofTurn turnId (log.take (max n next))))
  rw [take_max, ofTurn_append, covered, Lib.upTo_append, Lib.upTo_append]
  split
  · exact List.Sublist.refl _
  · rw [Lib.upTo_filter hdel]
    exact List.filter_sublist.append_left _

/-- With an end in it, it is all of the turn. -/
theorem turnEvents_of_terminal (h : ∃ r ∈ covered feed turnId log n next, isTerminalEvent r.eventType = true) :
    turnEvents turnId (log.take (max n next)) = turnEvents turnId log := by
  obtain ⟨r, hr, hterm⟩ := h
  have happ : Lib.upTo _ (ofTurn turnId (log.take (max n next)) ++ ofTurn turnId (log.drop (max n next))) =
      turnEvents turnId (log.take (max n next)) := Lib.upTo_append_of_mem ⟨r, mem_covered hr, hterm⟩
  rw [← ofTurn_append, List.take_append_drop] at happ
  exact happ.symm

/-- What the handler does with a record the feed delivers: it is sent exactly if it is of the turn and the scan had not
come to it. -/
theorem onLive_eq (fromUtf8Lossy : List UInt8 → String) {last : Int} (hasc : log.Pairwise fun r r' => r.seq < r'.seq)
    (hseq : ∀ r ∈ log, 1 ≤ r.seq ∧ r.seq < 2 ^ 63) (hlast : Watermark last (ofTurn turnId (log.take n)))
    (hr : log[next]? = some r) :
    onLive fromUtf8Lossy turnId last (some r) =
      if n ≤ next ∧ r.turnId = some turnId then
        if isTerminalEvent r.eventType then ([r.sse fromUtf8Lossy, .done], false) else ([r.sse fromUtf8Lossy], true)
      else ([], true) := by
  have hwrap : ∀ x ∈ log, wrapI64 x.seq = x.seq := fun x hx =>
    wrapI64_of_inI64 ⟨by omega, by have := (hseq x hx).2; omega⟩
  have hmem : r ∈ log := List.mem_of_getElem? hr
  obtain ⟨hlt, hget⟩ := List.getElem?_eq_some_iff.mp hr
  by_cases ht : r.turnId = some turnId
  · have hemit : shouldEmitLive (wrapI64 r.seq) last = decide (n ≤ next) := by
      rw [shouldEmitLive, decide_eq_decide, hlast, hwrap r hmem]
      constructor
      · -- a record of the scan is not larger than itself
        rintro ⟨-, hall⟩
        by_contra hn
        have hin : r ∈ log.take n := by
          rw [List.mem_take_iff_getElem]
          exact ⟨next, by omega, hget⟩
        have hself := hall r (mem_ofTurn.mpr ⟨hin, ht⟩)
        rw [hwrap r hmem] at hself
        omega
      · -- the records of the scan come before it in the log
        intro hn
        refine ⟨by have := (hseq r hmem).1; omega, fun x hx => ?_⟩
        obtain ⟨i, hi, hxi⟩ := List.mem_take_iff_getElem.mp (mem_ofTurn.mp hx).1
        have hxr := List.pairwise_iff_getElem.mp hasc i next (by omega) hlt (by omega)
        rw [hxi, hget] at hxr
        rw [hwrap x (List.mem_of_mem_take (mem_ofTurn.mp hx).1)]
        omega
    simp only [onLive, hemit, ht, ne_eq, not_true_eq_false, if_false, and_true]
    by_cases hn : n ≤ next <;> simp [hn]
  · simp only [onLive, ht, ne_eq, not_false_eq_true, if_true, and_false, if_false, ite_self]

end Covered

/-! ## The invariant -/

section Invariant

variable {fromUtf8Lossy : List UInt8 → String} {feed : SseFeed} {turnId : Int} {σ σ' : StreamSystem}

/-- What has been sent of the log, phase by phase. -/
def PhaseSent (fromUtf8Lossy : List UInt8 → String) (feed : SseFeed) (turnId : Int) (log : List LogRecord)
    (sent : List Sse) : StreamPhase → Prop
  | .connecting => sent = []
  | .attached mark => mark ≤ log.length ∧ sent = []
  | .tailing next last => ∃ n ≤ log.length, next ≤ log.length ∧ Watermark last (ofTurn turnId (log.take n)) ∧
      (∀ r ∈ covered feed turnId log n next, isTerminalEvent r.eventType = false) ∧
      sent = (covered feed turnId log n next).map (LogRecord.sse fromUtf8Lossy)
  | .closed => ∃ n ≤ log.length, ∃ next ≤ log.length,
      (∃ r ∈ covered feed turnId log n next, isTerminalEvent r.eventType = true) ∧
      sent = (Lib.upTo (fun r => isTerminalEvent r.eventType) (covered feed turnId log n next)).map
        (LogRecord.sse fromUtf8Lossy)

/-- The log is ascending, its numbers fit, and what has been sent of it is what the phase says. -/
structure InStep (fromUtf8Lossy : List UInt8 → String) (feed : SseFeed) (turnId : Int) (σ : StreamSystem) : Prop where
  ascending : σ.committed.Pairwise fun r r' => r.seq < r'.seq
  seq : ∀ r ∈ σ.committed, 1 ≤ r.seq ∧ r.seq < 2 ^ 63
  sent : PhaseSent fromUtf8Lossy feed turnId σ.committed (σ.sent.filter Sse.isEvent) σ.phase

theorem filter_isEvent_map (rs : List LogRecord) :
    (rs.map (LogRecord.sse fromUtf8Lossy)).filter Sse.isEvent = rs.map (LogRecord.sse fromUtf8Lossy) := by
  apply List.filter_eq_self.mpr
  intro e he
  obtain ⟨r, -, rfl⟩ := List.mem_map.mp he
  rfl

theorem PhaseSent.commit {log : List LogRecord} {sent : List Sse} {phase : StreamPhase}
    (h : PhaseSent fromUtf8Lossy feed turnId log sent phase) (r : LogRecord) :
    PhaseSent fromUtf8Lossy feed turnId (log ++ [r]) sent phase := by
  have hlen : (log ++ [r]).length = log.length + 1 := by rw [List.length_append, List.length_singleton]
  cases phase with
  | connecting => exact h
  | attached mark => exact ⟨by rw [hlen]; exact Nat.le_succ_of_le h.1, h.2⟩
  | tailing next last =>
    obtain ⟨n, hn, hnext, hlast, hopen, hsent⟩ := h
    refine ⟨n, by omega, by omega, ?_, ?_, ?_⟩
    · rw [List.take_append_of_le_length hn]
      exact hlast
    · rw [covered_commit hn hnext]
      exact hopen
    · rw [covered_commit hn hnext]
      exact hsent
  | closed =>
    obtain ⟨n, hn, next, hnext, hterm, hsent⟩ := h
    refine ⟨n, by omega, next, by omega, ?_⟩
    rw [covered_commit hn hnext]
    exact ⟨hterm, hsent⟩

theorem InStep.commit (h : InStep fromUtf8Lossy feed turnId σ) {r : LogRecord} (pos : 1 ≤ r.seq) (lt : r.seq < 2 ^ 63)
    (asc : ∀ x ∈ σ.committed, x.seq < r.seq) :
    InStep fromUtf8Lossy feed turnId { σ with committed := σ.committed ++ [r] } where
  ascending := List.pairwise_append.mpr ⟨h.ascending, List.pairwise_singleton _ _, fun x hx y hy => by
    rw [List.mem_singleton.mp hy]
    exact asc x hx⟩
  seq x hx := by
    rcases List.mem_append.mp hx with hx | hx
    · exact h.seq x hx
    · rw [List.mem_singleton.mp hx]
      exact ⟨pos, lt⟩
  sent := h.sent.commit r

/-- The scan has sent the turn's records in it, up to its end. -/
theorem InStep.scan (h : InStep fromUtf8Lossy feed turnId σ) {mark n : Nat} (hphase : σ.phase = .attached mark)
    (hmark : mark ≤ n) (hn : n ≤ σ.committed.length) :
    InStep fromUtf8Lossy feed turnId
      { σ with
        phase := match (replayHistory fromUtf8Lossy turnId (some (σ.committed.take n))).2 with
          | some last => .tailing mark last
          | none => .closed
        sent := σ.sent ++ (replayHistory fromUtf8Lossy turnId (some (σ.committed.take n))).1 } := by
  have hasc : (σ.committed.take n).Pairwise fun r r' => r.seq < r'.seq := h.ascending.sublist (List.take_sublist _ _)
  have hsent := h.sent
  rw [hphase] at hsent
  refine ⟨h.ascending, h.seq, ?_⟩
  simp only [List.filter_append, hsent.2, List.nil_append]
  by_cases hterm : ∃ r ∈ ofTurn turnId (σ.committed.take n), isTerminalEvent r.eventType = true
  · rw [replayHistory_of_terminal hasc hterm]
    refine ⟨n, hn, mark, by omega, ?_⟩
    rw [covered_of_le hmark, List.filter_append, filter_isEvent_map]
    exact ⟨hterm, List.append_nil _⟩
  · have hopen : ∀ r ∈ ofTurn turnId (σ.committed.take n), isTerminalEvent r.eventType = false := by
      intro r hr
      rw [Bool.eq_false_iff]
      exact fun ht => hterm ⟨r, hr, ht⟩
    obtain ⟨last, hlast, heq⟩ := replayHistory_of_open fromUtf8Lossy hasc hopen
    rw [heq]
    refine ⟨n, hn, by omega, hlast, ?_⟩
    rw [covered_of_le hmark, filter_isEvent_map]
    exact ⟨hopen, rfl⟩

/-- What the feed does not deliver is nothing the turn's client asked for. -/
theorem InStep.pass (h : InStep fromUtf8Lossy feed turnId σ) {next : Nat} {last : Int} {r : LogRecord}
    (hphase : σ.phase = .tailing next last) (hr : σ.committed[next]? = some r) (no : feed.delivers r = false) :
    InStep fromUtf8Lossy feed turnId { σ with phase := .tailing (next + 1) last } := by
  have hsent := h.sent
  rw [hphase] at hsent
  obtain ⟨n, hn, hnext, hlast, hrest⟩ := hsent
  obtain ⟨hlt, -⟩ := List.getElem?_eq_some_iff.mp hr
  have hsame : covered feed turnId σ.committed n (next + 1) = covered feed turnId σ.committed n next := by
    rw [covered_succ hr, no]
    simp
  refine ⟨h.ascending, h.seq, n, hn, hlt, hlast, ?_⟩
  rw [hsame]
  exact hrest

/-- A record of the feed is sent if it is of the turn and new, and the end of the turn ends the stream. -/
theorem InStep.recv (h : InStep fromUtf8Lossy feed turnId σ) {next : Nat} {last : Int} {r : LogRecord}
    (hphase : σ.phase = .tailing next last) (hr : σ.committed[next]? = some r) (yes : feed.delivers r = true) :
    InStep fromUtf8Lossy feed turnId
      { σ with
        phase := if (onLive fromUtf8Lossy turnId last (some r)).2 then .tailing (next + 1) last else .closed
        sent := σ.sent ++ (onLive fromUtf8Lossy turnId last (some r)).1 } := by
  have hsent := h.sent
  rw [hphase] at hsent
  obtain ⟨n, hn, hnext, hlast, hopen, hsent⟩ := hsent
  obtain ⟨hlt, -⟩ := List.getElem?_eq_some_iff.mp hr
  have hlive := onLive_eq fromUtf8Lossy h.ascending h.seq hlast hr
  refine ⟨h.ascending, h.seq, ?_⟩
  simp only [List.filter_append, hsent]
  generalize onLive fromUtf8Lossy turnId last (some r) = out at hlive ⊢
  by_cases hnew : n ≤ next ∧ r.turnId = some turnId
  · have hmore : covered feed turnId σ.committed n (next + 1) = covered feed turnId σ.committed n next ++ [r] := by
      rw [covered_succ hr, if_pos ⟨hnew.1, hnew.2, yes⟩]
    rw [if_pos hnew] at hlive
    by_cases hterm : isTerminalEvent r.eventType = true
    · rw [hlive, if_pos hterm]
      refine ⟨n, hn, next + 1, hlt, ?_⟩
      rw [hmore, Lib.upTo_append_of_none hopen]
      refine ⟨⟨r, List.mem_append_right _ List.mem_cons_self, hterm⟩, ?_⟩
      rw [Lib.upTo, if_pos hterm, List.map_append]
      rfl
    · rw [hlive, if_neg hterm]
      refine ⟨n, hn, hlt, hlast, ?_⟩
      rw [hmore]
      refine ⟨fun x hx => ?_, by simp [LogRecord.sse, Sse.isEvent]⟩
      rcases List.mem_append.mp hx with hx | hx
      · exact hopen x hx
      · rw [List.mem_singleton.mp hx]
        simpa using hterm
  · have hsame : covered feed turnId σ.committed n (next + 1) = covered feed turnId σ.committed n next := by
      rw [covered_succ hr, if_neg fun hall => hnew ⟨hall.1, hall.2.1⟩, List.append_nil]
    rw [hlive, if_neg hnew]
    refine ⟨n, hn, hlt, hlast, ?_⟩
    rw [hsame]
    exact ⟨hopen, by simp⟩

theorem InStep.step (h : InStep fromUtf8Lossy feed turnId σ)
    (hstep : StreamStep fromUtf8Lossy feed turnId (2 ^ 63) σ σ') : InStep fromUtf8Lossy feed turnId σ' := by
  cases hstep with
  | commit r pos lt asc => exact h.commit pos lt asc
  | attach hphase =>
    have hsent := h.sent
    rw [hphase] at hsent
    exact ⟨h.ascending, h.seq, le_refl _, hsent⟩
  | scan mark n hphase after le => exact h.scan hphase after le
  | pass next last r hphase hr no => exact h.pass hphase hr no
  | recv next last r hphase hr yes => exact h.recv hphase hr yes
  | token data hphase =>
    refine ⟨h.ascending, h.seq, ?_⟩
    simpa [Sse.isEvent] using h.sent

theorem InStep.of_run (h : Relation.ReflTransGen (StreamStep fromUtf8Lossy feed turnId (2 ^ 63)) {} σ) :
    InStep fromUtf8Lossy feed turnId σ := by
  induction h with
  | refl => exact ⟨List.Pairwise.nil, by simp, rfl⟩
  | tail _ hstep ih => exact ih.step hstep

/-- Of a scan and the feed up to a place, what was sent is what should have been. -/
theorem filter_sent {sent : List Sse} {log : List LogRecord} {n next : Nat}
    (hsent : sent.filter Sse.isEvent =
      (Lib.upTo (fun r => isTerminalEvent r.eventType) (covered feed turnId log n next)).map
        (LogRecord.sse fromUtf8Lossy)) :
    sent.filter Sse.isSubscribed =
      ((turnEvents turnId (log.take (max n next))).map (LogRecord.sse fromUtf8Lossy)).filter Sse.isSubscribed := by
  have hmap : ∀ rs : List LogRecord, (rs.map (LogRecord.sse fromUtf8Lossy)).filter Sse.isSubscribed =
      (rs.filter LogRecord.isSubscribed).map (LogRecord.sse fromUtf8Lossy) := fun rs => by
    rw [List.filter_map]
    rfl
  have hevent : sent.filter Sse.isSubscribed = (sent.filter Sse.isEvent).filter Sse.isSubscribed := by
    rw [List.filter_filter]
    apply List.filter_congr
    intro e _
    cases e <;> simp [Sse.isSubscribed, Sse.isEvent]
  rw [hevent, hsent, hmap, hmap, upTo_covered]

/-- Whatever the phase, the scan and the feed have brought the turn up to some place. -/
theorem InStep.sent_eq (h : InStep fromUtf8Lossy feed turnId σ) :
    ∃ n next, σ.sent.filter Sse.isEvent =
        (Lib.upTo (fun r => isTerminalEvent r.eventType) (covered feed turnId σ.committed n next)).map
          (LogRecord.sse fromUtf8Lossy) ∧
      (σ.CaughtUp → turnEvents turnId (σ.committed.take (max n next)) = turnEvents turnId σ.committed) := by
  have hsent := h.sent
  unfold StreamSystem.CaughtUp
  cases hphase : σ.phase with
  | connecting =>
    rw [hphase] at hsent
    exact ⟨0, 0, by rw [hsent]; simp [covered, ofTurn], by simp⟩
  | attached mark =>
    rw [hphase] at hsent
    exact ⟨0, 0, by rw [hsent.2]; simp [covered, ofTurn], by simp⟩
  | tailing next last =>
    rw [hphase] at hsent
    obtain ⟨n, hn, hnext, -, hopen, heq⟩ := hsent
    refine ⟨n, next, by rw [heq, Lib.upTo_of_none hopen], ?_⟩
    rintro (hc | ⟨last', hc⟩)
    · cases hc
    · injection hc with hlen
      rw [List.take_of_length_le (by omega)]
  | closed =>
    rw [hphase] at hsent
    obtain ⟨n, hn, next, hnext, hterm, heq⟩ := hsent
    exact ⟨n, next, heq, fun _ => turnEvents_of_terminal hterm⟩

end Invariant

/-- In every state of every run, with numbers below `2 ^ 63`: the events of the turn are sent each once and in order, up
to the first end of the turn and none after it, and when the handler has caught up none is missing. -/
theorem stream_exact {fromUtf8Lossy : List UInt8 → String} {feed : SseFeed} {turnId : Int} {σ : StreamSystem}
    (h : Relation.ReflTransGen (StreamStep fromUtf8Lossy feed turnId (2 ^ 63)) {} σ) :
    StreamExact fromUtf8Lossy turnId σ := by
  have hinv := InStep.of_run h
  obtain ⟨n, next, hsent, hcomplete⟩ := hinv.sent_eq
  have hfilter := filter_sent hsent
  refine ⟨hinv.ascending, ?_, ?_, fun hc => ?_⟩
  · rw [hfilter]
    exact ((turnEvents_take _).map _).filter _
  · rw [hsent]
    exact upTo_covered_sublist.map _
  · rw [hfilter, hcomplete hc]

/-! ## Runs on given logs -/

/-- A record of turn 1 without content. -/
def turnRecord (seq : Nat) (eventType : String) : LogRecord :=
  { seq, eventType, content := [], metadata := (∅ : Metadata).insert "turn_id" "1" }

/-- A feed of exactly the types subscribed to. -/
def exactFeed : SseFeed where
  delivers r := subscribeEventTypes.contains r.eventType
  subscribed _ h := List.contains_iff_mem.mpr h

theorem replayHistory_started :
    replayHistory (fun _ => "") 1 (some [turnRecord 1 "turn_started"]) = ([.event "turn_started" ""], some 1) := by
  have hasc : [turnRecord 1 "turn_started"].Pairwise fun r r' => r.seq < r'.seq := List.pairwise_singleton _ _
  simp only [replayHistory, planHistoryReplay_ascending hasc]
  decide +kernel

/-- A turn that starts between the subscription and the scan and is completed after the scan: its start comes from both
and is sent once. -/
theorem overlap_run : Relation.ReflTransGen (StreamStep (fun _ => "") exactFeed 1 (2 ^ 63)) {}
    { committed := [turnRecord 1 "turn_started", turnRecord 2 "turn_completed"]
      phase := .closed
      sent := [.event "turn_started" "", .event "turn_completed" "", .done] } := by
  have again : onLive (fun _ => "") 1 1 (some (turnRecord 1 "turn_started")) = ([], true) := by decide +kernel
  have last : onLive (fun _ => "") 1 1 (some (turnRecord 2 "turn_completed")) =
      ([.event "turn_completed" "", .done], false) := by decide +kernel
  have attach : StreamStep (fun _ => "") exactFeed 1 (2 ^ 63) {} { phase := .attached 0 } := .attach rfl
  have start : StreamStep (fun _ => "") exactFeed 1 (2 ^ 63) { phase := .attached 0 }
      { committed := [turnRecord 1 "turn_started"], phase := .attached 0 } :=
    .commit (turnRecord 1 "turn_started") (by decide) (by decide) (by simp)
  have scan : StreamStep (fun _ => "") exactFeed 1 (2 ^ 63)
      { committed := [turnRecord 1 "turn_started"], phase := .attached 0 } _ :=
    .scan 0 1 rfl (by decide) (le_refl _)
  simp only [List.take_succ_cons, List.take_zero, replayHistory_started, List.nil_append] at scan
  have finish : StreamStep (fun _ => "") exactFeed 1 (2 ^ 63)
      { committed := [turnRecord 1 "turn_started"], phase := .tailing 0 1, sent := [.event "turn_started" ""] } _ :=
    .commit (turnRecord 2 "turn_completed") (by decide) (by decide) (by decide)
  have skip : StreamStep (fun _ => "") exactFeed 1 (2 ^ 63)
      { committed := [turnRecord 1 "turn_started", turnRecord 2 "turn_completed"], phase := .tailing 0 1,
        sent := [.event "turn_started" ""] } _ :=
    .recv 0 1 (turnRecord 1 "turn_started") rfl rfl rfl
  have close : StreamStep (fun _ => "") exactFeed 1 (2 ^ 63)
      { committed := [turnRecord 1 "turn_started", turnRecord 2 "turn_completed"], phase := .tailing 1 1,
        sent := [.event "turn_started" ""] } _ :=
    .recv 1 1 (turnRecord 2 "turn_completed") rfl rfl rfl
  simp only [again, if_true, List.append_nil] at skip
  simp only [last, Bool.false_eq_true, if_false] at close
  exact (((((Relation.ReflTransGen.single attach).tail start).tail scan).tail finish).tail skip).tail close

theorem stream_exact_overlap : StreamExact (fun _ => "") 1
    { committed := [turnRecord 1 "turn_started", turnRecord 2 "turn_completed"]
      phase := .closed
      sent := [.event "turn_started" "", .event "turn_completed" "", .done] } :=
  stream_exact overlap_run

/-- With numbers of 64 bits a record of the turn can be passed over: the signed watermark takes it for an old one. -/
theorem late_record_dropped : ¬ ∀ σ, Relation.ReflTransGen (StreamStep (fun _ => "") exactFeed 1 (2 ^ 64)) {} σ →
    StreamExact (fun _ => "") 1 σ := by
  intro h
  have old : onLive (fun _ => "") 1 0 (some (turnRecord (2 ^ 63) "turn_started")) = ([], true) := by decide +kernel
  have none_yet : replayHistory (fun _ => "") 1 (some []) = ([], some 0) := by
    simp [replayHistory, planHistoryReplay, replayLoop]
  have attach : StreamStep (fun _ => "") exactFeed 1 (2 ^ 64) {} { phase := .attached 0 } := .attach rfl
  have scan : StreamStep (fun _ => "") exactFeed 1 (2 ^ 64) { phase := .attached 0 } _ :=
    .scan 0 0 rfl (le_refl _) (le_refl _)
  simp only [List.take_nil, none_yet, List.append_nil] at scan
  have start : StreamStep (fun _ => "") exactFeed 1 (2 ^ 64) { phase := .tailing 0 0 } _ :=
    .commit (turnRecord (2 ^ 63) "turn_started") (by decide) (by decide) (by simp)
  have pass : StreamStep (fun _ => "") exactFeed 1 (2 ^ 64)
      { committed := [turnRecord (2 ^ 63) "turn_started"], phase := .tailing 0 0 } _ :=
    .recv 0 0 (turnRecord (2 ^ 63) "turn_started") rfl rfl rfl
  simp only [old, if_true, List.append_nil] at pass
  have hall := (h _ ((((Relation.ReflTransGen.single attach).tail scan).tail start).tail pass)).complete
    (Or.inr ⟨0, rfl⟩)
  revert hall
  decide +kernel

end Fixus
