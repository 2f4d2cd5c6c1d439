import Fixus.Store.Context
import Fixus.Store.Logdbd

/-!
# Histories of events

What an event store is for, whatever it is built on: it keeps the events that it has accepted, in order.

- `Recorded`, `RecordedRun`: the events that a call adds, and those that the calls of a run add;
- `numbered`: events, each under its place;
- `Decodes`, `Logged`: logs that read as events;
- `LoggedAll.snoc`: one more record;
- `Logged.numbered`: the events of a log whose records are numbered from 1 on.
-/

namespace Fixus

open Lib TaskProjection

/-! ## What is added -/

/-- The event that the creation of a task adds. -/
def createdEvent (uuid taskType : String) (provenance : Provenance) (body : Option Json) (priority : Int)
    (effectivePolicy : Option EffectivePolicy) : AgentEvent :=
  AgentEvent.new ("task_" ++ uuid) none none .taskCreated
    (BrokerStore.createdPayload taskType provenance body priority effectivePolicy)

section Recorded

variable {σ : Type} (accepts : σ → Call → Prop) (after : σ → Call → σ) (maxTurn : σ → String → Int)

/-- The events that a call adds: none if it fails, else the event of the operation, with the number after the greatest
turn of the task if it starts a turn, the creation of the task, or the whole batch. -/
inductive Recorded (s : σ) : Call → List AgentEvent → Prop
  | refused {c : Call} (h : ¬ accepts s c) : Recorded s c []
  | op {o : Op} (h : accepts s (.op o)) : Recorded s (.op o) [o.event (maxTurn s o.taskId)]
  | created {uuid taskType : String} {provenance : Provenance} {body : Option Json} {priority : Int}
      {effectivePolicy : Option EffectivePolicy}
      (h : accepts s (.createTask uuid taskType provenance body priority effectivePolicy)) :
    Recorded s (.createTask uuid taskType provenance body priority effectivePolicy)
      [createdEvent uuid taskType provenance body priority effectivePolicy]
  | batch {events : List AgentEvent} (h : accepts s (.writeEventsBatch events)) :
    Recorded s (.writeEventsBatch events) events

/-- The events that the calls of a run add, one after the other. -/
inductive RecordedRun : σ → List Call → List AgentEvent → Prop
  | nil {s : σ} : RecordedRun s [] []
  | cons {s : σ} {c : Call} {calls : List Call} {added events : List AgentEvent}
      (h : Recorded accepts maxTurn s c added)
      (hrest : RecordedRun (after s c) calls events) : RecordedRun s (c :: calls) (added ++ events)

/-- The event of an operation that is accepted, when the greatest turn is known. -/
theorem Recorded.of_maxTurn {accepts : σ → Call → Prop} {maxTurn : σ → String → Int} {s : σ} {o : Op} {n : Int}
    (h : accepts s (.op o)) (hn : o.numbersTurn = true → maxTurn s o.taskId = n) :
    Recorded accepts maxTurn s (.op o) [o.event n] := Op.event_congr hn ▸ .op h

/-- There is one history. -/
theorem Recorded.unique {accepts : σ → Call → Prop} {maxTurn : σ → String → Int} {s : σ} {c : Call}
    {added added' : List AgentEvent} (h : Recorded accepts maxTurn s c added)
    (h' : Recorded accepts maxTurn s c added') :
    added = added' := by
  cases h with
  | refused h =>
    cases h' with
    | refused => rfl
    | op hok => exact absurd hok h
    | created hok => exact absurd hok h
    | batch hok => exact absurd hok h
  | op hok =>
    cases h' with
    | refused h => exact absurd hok h
    | op => rfl
  | created hok =>
    cases h' with
    | refused h => exact absurd hok h
    | created => rfl
  | batch hok =>
    cases h' with
    | refused h => exact absurd hok h
    | batch => rfl

theorem RecordedRun.unique {accepts : σ → Call → Prop} {after : σ → Call → σ} {maxTurn : σ → String → Int} {s : σ}
    {calls : List Call} {events events' : List AgentEvent} (h : RecordedRun accepts after maxTurn s calls events)
    (h' : RecordedRun accepts after maxTurn s calls events') : events = events' := by
  induction h generalizing events' with
  | nil =>
    cases h'
    rfl
  | cons hc _ ih =>
    cases h' with
    | cons hc' hrest' => rw [hc.unique hc', ih hrest']

/-- The events that a call brings. -/
def Call.size : Call → Nat
  | .writeEventsBatch events => events.length
  | _ => 1

variable {accepts after maxTurn}

/-- No call adds more than it brings. -/
theorem Recorded.length_le {s : σ} {c : Call} {added : List AgentEvent} (h : Recorded accepts maxTurn s c added) :
    added.length ≤ c.size := by
  cases h with
  | refused => exact Nat.zero_le _
  | op => exact Nat.le_refl 1
  | created => exact Nat.le_refl 1
  | batch => exact Nat.le_refl _

theorem RecordedRun.length_le {s : σ} {calls : List Call} {events : List AgentEvent}
    (h : RecordedRun accepts after maxTurn s calls events) : events.length ≤ (calls.map Call.size).sum := by
  induction h with
  | nil => exact Nat.le_refl 0
  | cons hc _ ih =>
    rw [List.length_append, List.map_cons, List.sum_cons]
    exact Nat.add_le_add hc.length_le ih

end Recorded

/-- The turns that a call names are `i64`s. -/
def Call.TurnsFit : Call → Prop
  | .op o => ∀ k, o.turnId = some k → InI64 k
  | .createTask _ _ _ _ _ _ => True
  | .writeEventsBatch events => ∀ e ∈ events, ∀ k, e.turnId = some k → InI64 k

/-- The events, each under its place. -/
def numbered (events : List AgentEvent) : List AgentEvent := events.mapIdx fun i e => { e with seq := wrapI64 (i + 1) }

/-! ## Logs that read as events -/

/-- A record reads as an event. -/
structure Decodes (taskId : String) (r : Record) (e : AgentEvent) : Prop where
  eventType : EventType.fromStr r.eventType = some e.eventType
  event : eventOf taskId e.eventType r = e
  turn : r.metadata.lookup "turn_id" = e.turnId.map toString

/-- The records read as the events, each under its own number. -/
def Logged (taskId : String) (log : List Record) (events : List AgentEvent) : Prop :=
  List.Forall₂ (fun r e => Decodes taskId r { e with seq := wrapI64 r.seq }) log events

variable {taskId : String} {log : List Record} {events added : List AgentEvent} {e : AgentEvent} {r : Record}

/-- The record of an event reads as the event, whatever other tags it has. -/
theorem decodes_ofEvent (htype : r.eventType = e.eventType.asStr) (hcontent : r.content = e.payload)
    (hturn : r.metadata.lookup "turn_id" = e.turnId.map toString) (hstep : r.metadata.lookup "step_id" = e.stepId)
    (hfits : ∀ k, e.turnId = some k → InI64 k) : Decodes e.taskId r { e with seq := wrapI64 r.seq } where
  eventType := by rw [htype]; exact EventType.fromStr_asStr _
  event := by
    have hturnId : r.turnId = e.turnId := by
      unfold Record.turnId
      rw [hturn]
      cases hk : e.turnId with
      | none => rfl
      | some k => exact parseI64_toString (hfits k hk)
    have hstepId : r.stepId = e.stepId := hstep
    unfold eventOf
    rw [hturnId, hstepId, hcontent]
  turn := hturn

/-- The record of a creation reads as the creation. -/
theorem decodes_created {uuid taskType : String} {provenance : Provenance} {body : Option Json} {priority : Int}
    {effectivePolicy : Option EffectivePolicy} (htype : r.eventType = "task_created")
    (hcontent : r.content = BrokerStore.createdPayload taskType provenance body priority effectivePolicy)
    (hturn : r.metadata.lookup "turn_id" = none) (hstep : r.metadata.lookup "step_id" = none) :
    Decodes ("task_" ++ uuid) r
      { createdEvent uuid taskType provenance body priority effectivePolicy with seq := wrapI64 r.seq } :=
  decodes_ofEvent (e := createdEvent uuid taskType provenance body priority effectivePolicy) htype hcontent hturn hstep
    (fun _ hk => by cases hk)

/-- What holds of a record if it does of its event is found alike. -/
theorem filter_decodes {p : Record → Bool} {q : AgentEvent → Bool} (h : List.Forall₂ (Decodes taskId) log events)
    (hpq : ∀ r e, r ∈ log → Decodes taskId r e → p r = q e) :
    List.Forall₂ (Decodes taskId) (log.filter p) (events.filter q) := by
  induction h with
  | nil => exact .nil
  | cons hr hrest ih =>
    have hrest' := ih fun r e hr => hpq r e (List.mem_cons_of_mem _ hr)
    have hone := hpq _ _ List.mem_cons_self hr
    rw [List.filter_cons, List.filter_cons, hone]
    split
    · exact .cons hr hrest'
    · exact hrest'

/-- Every stream reads as the events of its task. -/
def LoggedAll (streams : String → List Record) (events : List AgentEvent) : Prop :=
  ∀ taskId, Logged taskId (streams taskId) (events.filter fun e => e.taskId = taskId)

theorem loggedAll_nil {streams : String → List Record} (h : ∀ taskId, streams taskId = []) : LoggedAll streams [] :=
  fun taskId => by
    rw [h]
    exact .nil

/-- No stream is longer than the history. -/
theorem LoggedAll.length_le {streams : String → List Record} (h : LoggedAll streams events) (taskId : String) :
    (streams taskId).length ≤ events.length :=
  (h taskId).length_eq.trans_le (List.length_filter_le _ _)

/-- One more record. -/
theorem LoggedAll.snoc {streams : String → List Record} (h : LoggedAll streams events)
    (hr : Decodes e.taskId r { e with seq := wrapI64 r.seq }) :
    LoggedAll (Function.update streams e.taskId (streams e.taskId ++ [r])) (events ++ [e]) := by
  intro taskId
  by_cases ht : taskId = e.taskId
  · subst ht
    have hmore : ((events ++ [e]).filter fun e' => e'.taskId = e.taskId) =
        (events.filter fun e' => e'.taskId = e.taskId) ++ [e] := by simp
    rw [Function.update_self, hmore]
    exact List.rel_append (h e.taskId) (.cons hr .nil)
  · have hsame : ((events ++ [e]).filter fun e' => e'.taskId = taskId) = events.filter fun e' =>
      e'.taskId = taskId := by
      simp [Ne.symm ht]
    rw [Function.update_of_ne ht, hsame]
    exact h taskId

/-- Records that are numbered from 1 on give their events these numbers. -/
theorem Logged.numbered (h : Logged taskId log events) (hnumbers : log.map Record.seq = List.range' 1 log.length) :
    List.Forall₂ (Decodes taskId) log (numbered events) := by
  refine List.forall₂_iff_get.mpr ⟨?_, fun i h₁ h₂ => ?_⟩
  · rw [Fixus.numbered, List.length_mapIdx]
    exact h.length_eq
  · have hi : i < events.length := h.length_eq ▸ h₁
    have hseq : (log.get ⟨i, h₁⟩).seq = i + 1 := by
      have hget := congrArg (·[i]?) hnumbers
      simpa [h₁, Nat.add_comm] using hget
    have hone := (List.forall₂_iff_get.mp h).2 i h₁ hi
    rw [hseq] at hone
    have hnum : (Fixus.numbered events).get ⟨i, h₂⟩ = { events.get ⟨i, hi⟩ with seq := wrapI64 (i + 1) } := by
      simp [Fixus.numbered]
    rw [hnum]
    exact hone

/-- The numbers of few records are those of their events, from 1 on. -/
theorem Decodes.seq_eq (h : Decodes taskId r e) (hnumbers : log.map Record.seq = List.range' 1 log.length)
    (hlength : log.length < 2 ^ 63) (hr : r ∈ log) : e.seq = r.seq ∧ 1 ≤ r.seq ∧ r.seq < 2 ^ 63 := by
  have hmem : r.seq ∈ List.range' 1 log.length := hnumbers ▸ List.mem_map_of_mem hr
  have hbounds := List.mem_range'_1.mp hmem
  have hseq : e.seq = wrapI64 r.seq := h.event ▸ rfl
  refine ⟨?_, hbounds.1, by omega⟩
  rw [hseq]
  exact wrapI64_of_inI64 ⟨by omega, by omega⟩

/-! ## A run -/

/-- A task with a tenant, a user, a body, a priority and a policy. -/
def createTask1 : Call :=
  .createTask "1" "chat" { sourceChannel := "web", sourceUserId := some "u1", sourceTenantId := some "acme" }
    (some (.obj [("goal", .str "read the notes")])) 3
    (some ⟨⟨[⟨"/data", .workDir⟩], [⟨"/data/out", .workDir⟩]⟩, ⟨[⟨"example.org", [443], some .httpsApi⟩]⟩, .operator⟩)

/-- Its first turn calls a tool and is completed; the second request to make the task ready is refused. -/
def toolTurn : List Call :=
  [createTask1, .op (.markTaskReady "task_1"), .op (.markTaskReady "task_1"),
    .op (.startTurn "9" "task_1" "hi" none),
    .op (.recordToolInvoked "task_1" (some 1) "step_1" "fs_read" "call_1" "key_1" (.obj [("path", .str "/data/notes")])
      none 1 none none),
    .op (.recordToolCompleted "task_1" (some 1) "step_1" "call_1" (.str "text") false 2),
    .op (.completeTurn "task_1" 1 "done")]

theorem toolTurn_turnsFit : ∀ c ∈ toolTurn, c.TurnsFit := by
  simp [toolTurn, createTask1, Call.TurnsFit, Op.turnId, InI64]

end Fixus
