import Fixus.Orchestrator.Halting
import Fixus.Orchestrator.Steps

/-!
# The consumer of the `task-end` stream

The agents report on turns and steps over the stream `task-end`, which delivers a record at least once. The consumer
reads a record with defaults for what is missing, skips what cannot be used, and calls a handler.

- `TaskEndRecord.instr`: the table of the handlers; `instr_eq_none_iff`: which records are skipped;
- `idempotent_iff`: a record can be delivered twice without harm exactly if it is skipped.
-/

namespace Fixus

open Lib Lib.Eff BrokerStore

/-! ## Reading a record -/

namespace Json

/-- `as_bool`. -/
def asBool : Json → Option Bool
  | .bool b => some b
  | _ => none

/-- A text field, with a default. -/
def text (v : Json) (key default : String) : String := ((v.get key).bind asStr).getD default

/-- An integer field, zero by default. -/
def num (v : Json) (key : String) : Int := ((v.get key).bind asI64).getD 0

end Json

/-- A record of the stream. A content that is no JSON counts as null. -/
structure TaskEndRecord where
  eventType : String
  content : Json

namespace TaskEndRecord

variable (r : TaskEndRecord)

def taskId : String := r.content.text "task_id" ""

def turnId : Int := r.content.num "turn_id"

/-- The turn of a step, which may be missing. -/
def turnId? : Option Int := (r.content.get "turn_id").bind Json.asI64

def stepId : String := r.content.text "step_id" ""

def localSeq : Int := r.content.num "local_seq"

/-- The messages of an LLM call; none if they are missing or malformed. -/
def messages : List Message := ((r.content.get "messages").bind messagesOfJson).getD []

/-- The event of `handle_llm_completed`. -/
def llmCompletedPayload : Json :=
  .obj [("model", .str (r.content.text "model" "")),
    ("usage", .obj [("prompt_tokens", .int (r.content.num "input_tokens")),
      ("completion_tokens", .int (r.content.num "output_tokens")),
      ("total_tokens", .int (r.content.num "total_tokens"))]),
    ("local_seq", .int r.localSeq)]

/-- What a report on a step records, whatever the step is. -/
def stepOp : Option Op :=
  let p := r.content
  match r.eventType with
  | "tool_invoked" => some (.recordToolInvoked r.taskId r.turnId? r.stepId (p.text "tool_name" "")
      (p.text "tool_call_id" "") (p.text "idempotency_key" "") ((p.get "input").getD .null) none r.localSeq none none)
  | "tool_completed" => some (.recordToolCompleted r.taskId r.turnId? r.stepId (p.text "tool_call_id" "")
      ((p.get "output").getD .null) (((p.get "is_error").bind Json.asBool).getD false) r.localSeq)
  | "tool_failed" => some (.recordToolFailed r.taskId r.turnId? r.stepId (p.text "tool_call_id" "")
      (p.text "error_type" "unknown") (p.text "error_message" "") none 0 r.localSeq)
  | "llm_invoked" => some (.recordLlmInvoked r.taskId r.turnId? r.stepId (p.text "model" "") r.messages none none
      r.localSeq)
  | "llm_failed" => some (.recordLlmFailed r.taskId r.turnId? r.stepId (p.text "error_type" "unknown")
      (p.text "error_message" "") none 0 r.localSeq)
  | _ => none

/-- The handler that a record is given to; none if the record is skipped. -/
def instr : Option Instr :=
  if r.taskId.isEmpty then none
  else match r.eventType with
    | "turn_execution_done" =>
      if r.turnId = 0 then none
      else some (.turnExecutionDone r.taskId r.turnId (r.content.text "final_output" ""))
    | "turn_execution_error" =>
      if r.turnId = 0 then none
      else some (.turnExecutionError r.taskId r.turnId (r.content.text "error_type" "unknown")
        (r.content.text "error_message" ""))
    | "llm_completed" =>
      if r.turnId = 0 || r.stepId.isEmpty then none
      else some (.call (.op
        (.recordEvent r.taskId (some r.turnId) (some r.stepId) .llmCompleted r.llmCompletedPayload)))
    | _ => if r.stepId.isEmpty then none else r.stepOp.map fun o => .call (.op o)

/-- The records that the consumer skips: without a task, of an unknown type, on a turn without its number, or on a step
without its identifier. -/
def skipped : Bool :=
  r.taskId.isEmpty ||
    match r.eventType with
    | "turn_execution_done" | "turn_execution_error" => r.turnId = 0
    | "llm_completed" => r.turnId = 0 || r.stepId.isEmpty
    | "tool_invoked" | "tool_completed" | "tool_failed" | "llm_invoked" | "llm_failed" => r.stepId.isEmpty
    | _ => true

/-- **The records without a handler.** -/
theorem instr_eq_none_iff : r.instr = none ↔ r.skipped = true := by
  unfold instr skipped
  by_cases ht : r.taskId.isEmpty = true
  · simp [ht]
  · simp only [ht, Bool.false_eq_true, if_false, Bool.false_or]
    split
    · rename_i h
      simp [h]
    · rename_i h
      simp [h]
    · rename_i h
      simp [h, or_iff_not_imp_left]
    · rename_i h₁ h₂ h₃
      by_cases hs : r.stepId.isEmpty = true
      · simp only [hs, if_true, true_iff]
        split <;> first | rfl | exact absurd ‹_› h₁ | exact absurd ‹_› h₂ | exact absurd ‹_› h₃
      · simp only [hs, Bool.false_eq_true, if_false, Option.map_eq_none_iff]
        unfold stepOp
        split
        · rename_i h
          simp [h]
        · rename_i h
          simp [h]
        · rename_i h
          simp [h]
        · rename_i h
          simp [h]
        · rename_i h
          simp [h]
        · split <;> simp_all

end TaskEndRecord

/-! ## Handlers that leave a trace -/

/-- Some stream has become longer. -/
def Longer (st st' : BrokerStore) : Prop := ∃ stream, (st.streams stream).length < (st'.streams stream).length

/-- The cache is consistent, and the broker has nothing odd to come. -/
structure Responsive (st : BrokerStore) : Prop extends Healthy st where
  produces : st.produces = []

theorem Responsive.orderly {st st' : BrokerStore} (h : Responsive st) (ho : Orderly st st') : Responsive st' :=
  ⟨⟨ho.sessions h.sessions, ho.ok h.ok⟩, ho.produces h.produces⟩

theorem Grows.length_le {written : List (String × EventType × Option Int)} {st st' : BrokerStore}
    (h : Grows written st st') (stream : String) : (st.streams stream).length ≤ (st'.streams stream).length := by
  obtain ⟨new, hnew, -⟩ := h stream
  have hlen := congrArg List.length hnew
  rw [List.length_append] at hlen
  unfold BrokerStore.log at hlen
  omega

section Longer

variable {cfg : Config} {s s' : Shared} {stack stack' rest : List Instr} {st st' st'' : BrokerStore}

/-- While a handler works, no stream becomes shorter and the store stays orderly. -/
theorem Proceeds.store (h : Proceeds cfg s stack s' stack') :
    (∀ stream, (s.store.streams stream).length ≤ (s'.store.streams stream).length) ∧ Orderly s.store s'.store := by
  induction h with
  | refl => exact ⟨fun _ => le_rfl, Orderly.refl _⟩
  | @step s s' x rest stack env _ ih =>
    obtain ⟨written, hg, -⟩ := (exec_step cfg env s x).grows
    exact ⟨fun stream => (hg.length_le stream).trans (ih.1 stream), (Orderly.exec cfg env s x).trans ih.2⟩

theorem Longer.mono (h : Longer st st') (hle : ∀ stream, (st'.streams stream).length ≤ (st''.streams stream).length) :
    Longer st st'' := by
  obtain ⟨stream, hlt⟩ := h
  exact ⟨stream, Nat.lt_of_lt_of_le hlt (hle stream)⟩

theorem Longer.after (h : Longer st' st'') (hle : ∀ stream, (st.streams stream).length ≤ (st'.streams stream).length) :
    Longer st st'' := by
  obtain ⟨stream, hlt⟩ := h
  exact ⟨stream, Nat.lt_of_le_of_lt (hle stream) hlt⟩

/-- Over a sound store the handler can come to an end with a longer stream. -/
def Lengthens (cfg : Config) (stack : List Instr) : Prop :=
  ∀ s : Shared, Responsive s.store → ∃ s', Proceeds cfg s stack s' [] ∧ Longer s.store s'.store

namespace Lengthens

theorem append (h : Lengthens cfg stack) (hr : Halts cfg rest) : Lengthens cfg (stack ++ rest) := by
  intro s hs
  obtain ⟨s₁, hp₁, hl⟩ := h s hs
  obtain ⟨s₂, hp₂, -⟩ := hr s₁
  exact ⟨s₂, (hp₁.append rest).trans hp₂, hl.mono hp₂.store.1⟩

theorem after (h : Halts cfg stack) (hr : Lengthens cfg rest) : Lengthens cfg (stack ++ rest) := by
  intro s hs
  obtain ⟨s₁, hp₁, -⟩ := h s
  obtain ⟨s₂, hp₂, hl⟩ := hr s₁ (hs.orderly hp₁.store.2)
  exact ⟨s₂, (hp₁.append rest).trans hp₂, hl.after hp₁.store.1⟩

/-- One instruction, which makes a stream longer itself or goes on to what does. -/
theorem step {x : Instr} (h : ∀ s : Shared, Responsive s.store →
    (Longer s.store (s.exec cfg {} x).shared.store ∧ Halts cfg (s.exec cfg {} x).next) ∨
      Lengthens cfg (s.exec cfg {} x).next) : Lengthens cfg [x] := by
  intro s hs
  have hone : Proceeds cfg s [x] (s.exec cfg {} x).shared (s.exec cfg {} x).next := by
    refine .step {} ?_
    rw [List.append_nil]
    exact .refl _ _
  rcases h s hs with ⟨hl, hh⟩ | hr
  · obtain ⟨s', hp, -⟩ := hh (s.exec cfg {} x).shared
    exact ⟨s', hone.trans hp, hl.mono hp.store.1⟩
  · obtain ⟨s', hp, hl⟩ := hr (s.exec cfg {} x).shared (hs.orderly hone.store.2)
    exact ⟨s', hone.trans hp, hl.after hone.store.1⟩

end Lengthens

/-! ### Writes that nothing refuses -/

/-- No check of a write refuses the event. -/
structure Admitted (e : AgentEvent) : Prop where
  scope : e.validateScope = .ok ()
  fields : validatePayloadRequiredFields e.eventType e.payload = .ok ()
  free : e.eventType.targetState = none

/-- A sound store takes such an event. -/
theorem writeEvent_longer {e : AgentEvent} (he : Admitted e) (hs : Responsive st) :
    wp (writeEvent e) (fun _ st' => Longer st st') (fun _ _ => False) st := by
  have hreply : st.nextReply e.taskId = .ok ((st.streams e.taskId).length + 1) := by
    unfold nextReply
    rw [hs.produces]
  refine wp_mono (writeEvent_spec e st) (fun n st' h => ?_) fun err st' h => ?_
  · obtain ⟨-, seq, -, -, hw⟩ := h
    refine ⟨e.taskId, ?_⟩
    rw [hw.streams, Function.update_self, List.length_append]
    simp
  · refine h.2 ⟨⟨he.scope, he.fields, ?_⟩, _, hreply⟩
    unfold validateTaskEventTransition
    rw [he.free]

/-- The operation is the write of the event. -/
def Op.Posts (o : Op) (e : AgentEvent) : Prop := ∀ st (P : BrokerStore → Prop),
  wp (BrokerStore.writeEvent e) (fun _ => P) (fun _ _ => False) st →
    wp (o.run brokerEventStore) (fun _ => P) (fun _ _ => False) st

theorem posts_writeAs {o : Op} {e : AgentEvent}
    (h : o.run brokerEventStore = Op.discard (Service.writeAs brokerEventStore e)) : o.Posts e := by
  intro st P hw
  rw [h, wp_discard]
  unfold Service.writeAs
  rw [wp_bind]
  exact hw

theorem posts_recordEvent (taskId : String) (turnId : Option Int) (stepId : Option String) (et : EventType)
    (payload : Json) : (Op.recordEvent taskId turnId stepId et payload).Posts
      (AgentEvent.new taskId turnId stepId et payload) := fun _ _ hw => wp_discard.mpr hw

/-- The call of such an operation. -/
theorem call_longer {o : Op} {e : AgentEvent} (ho : o.Posts e) (he : Admitted e) (hs : Responsive st) :
    (∃ st', (Call.op o).run brokerEventStore st = (.ok (), st')) ∧ Longer st ((Call.op o).after st) := by
  obtain ⟨u, st', hrun, hl⟩ := wp_total (ho st (Longer st) (writeEvent_longer he hs))
  have hrun' : (Call.op o).run brokerEventStore st = (.ok (), st') := hrun
  refine ⟨⟨st', hrun'⟩, ?_⟩
  unfold Call.after
  rw [hrun']
  exact hl

/-- An instruction that makes such a call. -/
theorem calling_longer {o : Op} {e : AgentEvent} {f : Except AppError Unit → Shared → Out} (ho : o.Posts e)
    (he : Admitted e) (hs : Responsive s.store) (hstore : ∀ t, (f (.ok ()) t).shared.store = t.store)
    (hnext : ∀ t, Halts cfg (f (.ok ()) t).next) :
    Longer s.store (s.calling (.op o) f).shared.store ∧ Halts cfg (s.calling (.op o) f).next := by
  obtain ⟨⟨st', hrun⟩, hl⟩ := call_longer ho he hs
  rw [calling_shared, calling_next, hrun, hstore]
  exact ⟨hl, hnext _⟩

/-! ### The handlers -/

/-- A publication is one more record. -/
theorem dispatchExecuteTurn_longer (d : Dispatch) (context : Except AppError LlmContext) (st : BrokerStore) :
    wp (dispatchExecuteTurn brokerEventStore d context) (fun _ st' => Longer st st') (fun _ _ => True) st := by
  have hpublish : ∀ taskType payload st₁, wp (brokerEventStore.publishTurnBegin d.taskId taskType payload)
      (fun _ st' => Longer st₁ st') (fun _ _ => True) st₁ := by
    intro taskType payload st₁
    show wp (BrokerStore.publishTurnBegin d.taskId taskType payload) _ _ st₁
    unfold BrokerStore.publishTurnBegin
    rw [wp_bind, wp_mapErr]
    refine wp_produce (fun seq st' _ hst _ _ _ => ?_) fun _ _ _ _ _ _ => trivial
    refine ⟨taskBeginStream taskType, ?_⟩
    rw [hst, Function.update_self, List.length_append]
    simp
  unfold dispatchExecuteTurn
  rw [wp_bind]
  cases context with
  | error err => exact trivial
  | ok ctx =>
    rw [wp_ofExcept_ok, wp_bind]
    refine wp_mono (wp_of_state (P := Grows [] st) (readsKeep_grows.readPolicy d.taskId st)) (fun policy st₁ h₁ => ?_)
      fun _ _ _ => trivial
    rw [wp_bind]
    refine wp_mono (wp_of_state (P := Grows [] st₁) (readsKeep_grows.resolveTaskType d.taskId st₁))
      (fun taskType st₂ h₂ => ?_) fun _ _ _ => trivial
    unfold publishAs
    rw [wp_bind, wp_attempt]
    refine wp_mono (hpublish taskType _ st₂) (fun _ st₃ h₃ => ?_) fun _ _ _ => trivial
    exact h₃.after (h₁.trans h₂).length_le

namespace Lengthens

variable {t : String} {k : Int}

theorem writeTurnFailed (et em : String) (reason : FailureReason) :
    Lengthens cfg [.writeTurnFailed t k et em reason] := step fun s hs => Or.inl <| by
  show Longer s.store (s.writeTurnFailed t k et em reason).shared.store ∧
    Halts cfg (s.writeTurnFailed t k et em reason).next
  exact calling_longer (posts_writeAs rfl) ⟨rfl, rfl, rfl⟩ hs (fun _ => rfl) fun _ => Halts.nil

theorem failTaskWithReason (reason : FailureReason) (et em : String) :
    Lengthens cfg (failTaskWithReason t k reason et em) :=
  after (Halts.cons Halts.clearRetry Halts.clearDispatchTime) (append (writeTurnFailed et em reason)
    (Halts.cons (Halts.writeTaskFailed et reason) (Halts.completePendingTurn _)))

/-- A retry is published, or in the end the turn is failed. -/
theorem dispatchAttempt {d : Dispatch} (hd : d.slot = none) (n : Nat) : Lengthens cfg [.dispatchAttempt d n] := by
  generalize hleft : (max cfg.retryPolicy.maxAttempts 1 - (n : Int)).toNat = left
  induction left using Nat.strong_induction_on generalizing n with
  | _ left ih =>
    refine step fun s hs => ?_
    show (Longer s.store (s.dispatchAttempt cfg {} d n).shared.store ∧ Halts cfg (s.dispatchAttempt cfg {} d n).next) ∨
      Lengthens cfg (s.dispatchAttempt cfg {} d n).next
    have hpub := dispatchExecuteTurn_longer d ({} : Env).context s.store
    unfold Shared.dispatchAttempt
    rcases wp_cases hpub with ⟨u, st', hrun, hl⟩ | ⟨e, st', hrun, -⟩
    · rw [on_eq hrun]
      exact Or.inl ⟨hl, Halts.nil⟩
    · rw [on_eq hrun]
      refine Or.inr ?_
      simp only
      split
      · exact ih _ (by omega) (n + 1) rfl
      · unfold Shared.dispatchFailed
        rw [hd]
        exact failTaskWithReason _ _ _

theorem redispatch {d : Dispatch} (hd : d.slot = none) : Lengthens cfg [.redispatch d] :=
  step fun s _ => Or.inr <| by
    show Lengthens cfg [.dispatchAttempt
      { d with cachedLlm := getCachedLlmResponses (brokerEventStore.getTurnEvents d.taskId d.turnId s.store).1 } 0]
    exact dispatchAttempt (by exact hd) 0

theorem decideRetry (et em i rg : String) : Lengthens cfg [.decideRetry t k et em i rg] := step fun s hs => Or.inr <| by
  show Lengthens cfg (s.decideRetry cfg t k et em i rg).next
  unfold Shared.decideRetry
  dsimp only
  split
  · exact redispatch rfl
  · exact append (failTaskWithReason _ _ _) Halts.releaseSlotAndRedispatch

/-- The report of an error: the turn is published once more, or failed. -/
theorem turnExecutionError (et em : String) : Lengthens cfg [.turnExecutionError t k et em] :=
  step fun s hs => Or.inr <| by
    show Lengthens cfg (s.turnExecutionError t k et em).next
    unfold Shared.turnExecutionError
    have hread : wp (brokerEventStore.getTurnEvents t k) (fun _ _ => True) (fun _ _ => False) s.store :=
      wp_mono (withProjection_healthy hs.toHealthy fun p => p.turnEvents k) (fun _ _ _ => trivial) fun _ _ h => h
    obtain ⟨events, st', hrun, -⟩ := wp_total hread
    rw [on_eq hrun]
    simp only
    split
    · exact failTaskWithReason _ _ _
    · exact decideRetry _ _ _ _

theorem turnExecutionDone (out : String) : Lengthens cfg [.turnExecutionDone t k out] := step fun s hs => Or.inl <| by
  show Longer s.store (s.turnExecutionDone t k out).shared.store ∧ Halts cfg (s.turnExecutionDone t k out).next
  exact calling_longer (posts_writeAs rfl) ⟨rfl, rfl, rfl⟩ hs (fun _ => rfl) fun _ => Halts.turnDone out

theorem call {o : Op} {e : AgentEvent} (ho : o.Posts e) (he : Admitted e) : Lengthens cfg [.call (.op o)] :=
  step fun s hs => Or.inl <| by
    show Longer s.store (s.call (.op o)).shared.store ∧ Halts cfg (s.call (.op o)).next
    exact calling_longer ho he hs (fun _ => rfl) fun _ => Halts.nil

end Lengthens

/-- What a report on a step records, the store takes. -/
theorem stepOp_posts {r : TaskEndRecord} {o : Op} (h : r.stepOp = some o) : ∃ e, o.Posts e ∧ Admitted e := by
  unfold TaskEndRecord.stepOp at h
  dsimp only at h
  split at h
  all_goals cases h
  all_goals exact ⟨_, posts_writeAs rfl, rfl, rfl, rfl⟩

/-- **A record that is not skipped leaves a trace**, each time it is worked off. -/
theorem instr_lengthens {r : TaskEndRecord} {x : Instr} (h : r.instr = some x) : Lengthens cfg [x] := by
  unfold TaskEndRecord.instr at h
  split at h
  · cases h
  · split at h
    · split at h
      · cases h
      · cases h
        exact Lengthens.turnExecutionDone _
    · split at h
      · cases h
      · cases h
        exact Lengthens.turnExecutionError _ _
    · split at h
      · cases h
      · cases h
        exact Lengthens.call (posts_recordEvent _ _ _ _ _) ⟨rfl, rfl, rfl⟩
    · split at h
      · cases h
      · obtain ⟨o, ho, rfl⟩ := Option.map_eq_some_iff.mp h
        obtain ⟨e, hposts, he⟩ := stepOp_posts ho
        exact Lengthens.call hposts he

end Longer

/-! ## Redelivery -/

/-- The orchestrator as it meets a broker that answers the coming writes and loads in a certain way. -/
def Shared.facing (s : Shared) (produces : List ProduceReply) (sessions : List Session) : Shared :=
  { s with store := { s.store with produces, sessions } }

/-- The record is worked off, by a handler that is not interrupted. -/
def Processed (cfg : Config) (s : Shared) (r : TaskEndRecord) (s' : Shared) : Prop :=
  match r.instr with
  | none => s' = s
  | some x => Proceeds cfg s [x] s' []

/-- The logs and the publications, the projections, the slots and the retry counters are the same. -/
structure SameEffects (s s' : Shared) : Prop where
  streams : s'.store.streams = s.store.streams
  view : ∀ taskId, s'.store.view taskId = s.store.view taskId
  slots : ∀ taskType, s'.dispatcher.inFlight taskType = s.dispatcher.inFlight taskType
  attempts : ∀ turn, s'.attemptsOf turn = s.attemptsOf turn

/-- Whatever the broker does, a second delivery of the record changes nothing. -/
def Idempotent (cfg : Config) (s : Shared) (r : TaskEndRecord) : Prop :=
  ∀ produces₁ sessions₁ s₁ produces₂ sessions₂ s₂, Processed cfg (s.facing produces₁ sessions₁) r s₁ →
    Processed cfg (s₁.facing produces₂ sessions₂) r s₂ → SameEffects s₁ s₂

/-- A record that is not skipped leaves its trace twice. -/
theorem not_idempotent {cfg : Config} {s : Shared} {r : TaskEndRecord} (hr : r.skipped = false)
    (hok : s.store.cache.Ok) : ¬ Idempotent cfg s r := by
  intro h
  have hne : r.instr ≠ none := by
    rw [Ne, r.instr_eq_none_iff, hr]
    exact Bool.false_ne_true
  obtain ⟨x, hx⟩ := Option.ne_none_iff_exists'.mp hne
  have hlong : Lengthens cfg [x] := instr_lengthens hx
  obtain ⟨s₁, hp₁, -⟩ := hlong (s.facing [] []) ⟨⟨rfl, hok⟩, rfl⟩
  have hok₁ : s₁.store.cache.Ok := hp₁.store.2.ok hok
  obtain ⟨s₂, hp₂, stream, hlt⟩ := hlong (s₁.facing [] []) ⟨⟨rfl, hok₁⟩, rfl⟩
  have hsame : SameEffects s₁ s₂ := by
    refine h [] [] s₁ [] [] s₂ ?_ ?_
    · unfold Processed
      rw [hx]
      exact hp₁
    · unfold Processed
      rw [hx]
      exact hp₂
  rw [hsame.streams] at hlt
  exact lt_irrefl _ hlt

/-- The cache of an orchestrator that has just started is empty, and it stays consistent. -/
theorem cache_ok_of_run (cfg : Config) (streams : String → List Record) (produces : List ProduceReply)
    (sessions : List Session) (n : Nat) (moves : List OMove) :
    (run (orchestrate cfg) (.start { streams, produces, sessions } n) moves).shared.store.cache.Ok :=
  (orderly_run cfg _ moves).ok ⟨List.nodup_nil, nofun, Nat.le_add_left 1 999⟩

/-- **In every reachable state, a record can be delivered twice without harm exactly if it is skipped.** -/
theorem idempotent_iff (cfg : Config) (streams : String → List Record) (produces : List ProduceReply)
    (sessions : List Session) (n : Nat) (moves : List OMove) (r : TaskEndRecord) :
    Idempotent cfg (run (orchestrate cfg) (.start { streams, produces, sessions } n) moves).shared r ↔
      r.skipped = true := by
  constructor
  · intro h
    by_contra hne
    exact not_idempotent (Bool.eq_false_of_not_eq_true hne) (cache_ok_of_run cfg streams produces sessions n moves) h
  · intro hskip produces₁ sessions₁ s₁ produces₂ sessions₂ s₂ hp₁ hp₂
    unfold Processed at hp₁ hp₂
    rw [r.instr_eq_none_iff.mpr hskip] at hp₁ hp₂
    subst hp₁ hp₂
    exact ⟨rfl, fun _ => rfl, fun _ => rfl, fun _ => rfl⟩

/-- The report of the end of a first turn, delivered while the turn is in flight. -/
theorem redelivered_done : ¬ Idempotent {}
    (run (orchestrate {}) (.start { streams := fun _ => [], produces := [], sessions := [] } 2) firstTurn).shared
      { eventType := "turn_execution_done"
        content := .obj [("task_id", .str "task_1"), ("turn_id", .int 1), ("final_output", .str "hello")] } :=
  not_idempotent (by decide +kernel) (cache_ok_of_run {} (fun _ => []) [] [] 2 firstTurn)

end Fixus
