import Fixus.Fixlet.Router
import Fixus.Orchestrator.Reads
import Fixus.Store.Context

/-!
# The input of a turn in its prompt

A new turn's input reaches the agent by two ways: the orchestrator sends it along with the turn, and it builds a context
from the log, in which the turn has started by then.

- `startTurn_wrote`: what the start of a turn writes;
- `dispatchExecuteTurn_published`: what the dispatch publishes;
- `userBlocks_prompt`: how often the prompt says the input;
- `promptOnce_iff`: once, exactly if a summary covers the start of the turn before it is dispatched;
- `prompt_repeats_input`: the first turn of a task.
-/

namespace Fixus

open Lib Lib.Eff BrokerStore TaskProjection Context

/-! ## From the dispatch to the prompt -/

/-- `dispatch_execute_turn`: the context is built from the store. -/
def BrokerStore.dispatchExecuteTurn (render : Json → String) (order : List Int) (d : Dispatch) :
    StoreM BrokerStore Unit := do
  let ctx ← buildLlmContext render (getLatestSummary d.taskId) (getEventsAfterSeq d.taskId order)
  Fixus.dispatchExecuteTurn brokerEventStore d (.ok { summary := ctx.summary, messages := ctx.messages })

/-- A new turn, as it is taken from the queue for the first time. -/
def newTurn (taskId : String) (turnId : Int) (userInput redoGroup : String) (slot : Option String) : Dispatch :=
  { taskId, turnId, userInput, redoGroup, redoCount := 0, cachedLlm := [], slot }

/-- The prompt of a turn, as `promptSession` sends it. -/
def ParsedExecuteTurn.prompt (turn : ParsedExecuteTurn) : List PromptBlock :=
  buildAcpPrompt turn.summary turn.messages (Fixlet.fullInput turn)

/-- The blocks in which the user says the text. -/
def userBlocks (text : String) (prompt : List PromptBlock) : Nat :=
  prompt.countP fun b => b.text = (PromptBlock.user text).text

/-- One turn.begin was put on the stream of a task type. -/
def Published (s s' : BrokerStore) (payload : Json) : Prop :=
  ∃ taskType seq metadata, s'.streams = Function.update s.streams (taskBeginStream taskType)
    (s.streams (taskBeginStream taskType) ++ [⟨seq, "execute_turn", payload, metadata⟩])

/-- The fixlet builds a prompt from what was published, and the user says the text once in it. -/
def PromptOnce (s s' : BrokerStore) (text : String) : Prop :=
  ∃ payload turn, Published s s' payload ∧ parseExecuteTurnPayload payload = .ok turn ∧ userBlocks text turn.prompt = 1

/-- What was published is determined by the streams. -/
theorem Published.unique {s s' : BrokerStore} {payload payload' : Json} (h : Published s s' payload)
    (h' : Published s s' payload') : payload = payload' := by
  obtain ⟨tt, seq, m, hs⟩ := h
  obtain ⟨tt', seq', m', hs'⟩ := h'
  have heq := congrFun (hs.symm.trans hs') (taskBeginStream tt)
  rw [Function.update_self] at heq
  by_cases hne : taskBeginStream tt = taskBeginStream tt'
  · rw [hne, Function.update_self] at heq
    have hr := List.append_cancel_left heq
    simp only [List.cons.injEq, Record.mk.injEq, and_true, true_and] at hr
    exact hr.2.1
  · rw [Function.update_of_ne hne] at heq
    exact absurd (List.append_right_eq_self.mp heq) (List.cons_ne_nil _ _)

/-! ## What the start writes -/

/-- The reads of a start leave the task alone. -/
theorem keeps_nextTurnId (taskId : String) : Keeps (SameTask taskId) (nextTurnId brokerEventStore taskId) := by
  have hR := brokerEventStore_readsOnly taskId
  have htrans : ∀ s t u, SameTask taskId s t → SameTask taskId t u → SameTask taskId s u := fun _ _ _ => SameTask.trans
  refine Keeps.bind htrans (keeps_pollExists hR 30) fun found => ?_
  cases found with
  | false => exact fun s => SameTask.refl s
  | true =>
    refine Keeps.bind htrans hR.isTaskEnded fun ended => ?_
    cases ended with
    | true => exact fun s => SameTask.refl s
    | false => exact Keeps.bind htrans hR.getMaxTurnId fun k => Keeps.pure SameTask.refl _

/-- The number of a new turn is an `i64`. -/
theorem nextTurnId_inI64 {taskId : String} {s s' : BrokerStore} {k : Int}
    (h : nextTurnId brokerEventStore taskId s = (.ok k, s')) : InI64 k := by
  obtain ⟨found, s₁, -, h⟩ := bind_eq_ok.mp h
  cases found with
  | false => cases h
  | true =>
    obtain ⟨ended, s₂, -, h⟩ := bind_eq_ok.mp h
    cases ended with
    | true => cases h
    | false =>
      obtain ⟨m, s₃, -, h⟩ := bind_eq_ok.mp h
      cases h
      exact wrapI64_inI64 _

/-- The start of a turn writes its start event, and reports its number. -/
theorem startTurn_wrote {uuid taskId userInput group : String} {redoGroup : Option String} {s s' : BrokerStore}
    {turnId : Int} {event : AgentEvent}
    (h : Service.startTurn brokerEventStore uuid taskId userInput redoGroup s = (.ok (turnId, group, event), s')) :
    ∃ seq : Nat, event.seq = wrapI64 seq ∧ InI64 turnId ∧
      s'.log taskId = s.log taskId ++ [recordOf seq (turnStarted taskId turnId userInput group)] := by
  rw [startTurn_eq] at h
  obtain ⟨k, s₁, hk, h⟩ := bind_eq_ok.mp h
  obtain ⟨n, s₂, hn, h⟩ := bind_eq_ok.mp h
  cases h
  have hsame := keeps_nextTurnId taskId s
  rw [hk] at hsame
  have hn' : writeEvent (turnStarted taskId turnId userInput (redoGroup.getD ("rg_" ++ uuid))) s₁ = (.ok n, s') := hn
  obtain ⟨-, seq, -, hseq, hw⟩ := wp_ok (writeEvent_spec _ s₁) hn'
  have hlog := wrote_log hw
  have hbefore : s₁.log taskId = s.log taskId := congrFun hsame.streams taskId
  exact ⟨seq, hseq, nextTurnId_inI64 hk, hbefore ▸ hlog⟩

/-! ## What the dispatch publishes -/

theorem keepsStreams_getTask (taskId : String) : KeepsStreams (brokerEventStore.getTask taskId) := by
  refine keepsStreams_bind (keepsStreams_ensureProjection taskId).attempt fun r => ?_
  cases r with
  | error err => exact fun _ => rfl
  | ok u => exact keepsStreams_withProjection taskId _

theorem keepsStreams_resolveTaskTypeIn (taskId : String) (n : Nat) :
    KeepsStreams (resolveTaskTypeIn brokerEventStore taskId n) := by
  induction n with
  | zero => exact fun _ => rfl
  | succ n ih =>
    refine keepsStreams_bind (keepsStreams_getTask taskId) fun task => ?_
    cases task with
    | none => exact fun _ => rfl
    | some task =>
      by_cases ht : task.taskType.isEmpty = true
      · simp only [ht, if_true]
        exact keepsStreams_bind (fun _ => rfl) fun _ => ih
      · simp only [ht, Bool.false_eq_true, if_false]
        exact fun _ => rfl

theorem keepsStreams_readPolicy (taskId : String) : KeepsStreams (readPolicy brokerEventStore taskId) := by
  refine keepsStreams_bind (keepsStreams_getTask taskId).attempt fun r => ?_
  cases r with
  | error err => exact fun _ => rfl
  | ok task => cases task <;> exact fun _ => rfl

/-- A publication that succeeds puts the payload on the stream of the type. -/
theorem publishAs_published {taskId taskType : String} {payload : Json} {s s' : BrokerStore}
    (h : publishAs brokerEventStore taskId taskType payload s = (.ok (), s')) : Published s s' payload := by
  obtain ⟨r, s₁, hr, h⟩ := bind_eq_ok.mp h
  cases r with
  | error err => cases h
  | ok u =>
    cases h
    have hpublish : wp (BrokerStore.publishTurnBegin taskId taskType payload) (fun _ s' => Published s s' payload)
        (fun _ _ => True) s := by
      unfold BrokerStore.publishTurnBegin
      rw [wp_bind, wp_mapErr]
      exact wp_produce (fun seq s₁ _ hs _ _ _ => ⟨taskType, seq, _, hs⟩) fun _ _ _ _ _ _ => trivial
    have hvalue := congrArg Prod.fst hr
    have hstate := congrArg Prod.snd hr
    have hrun : BrokerStore.publishTurnBegin taskId taskType payload s = (.ok u, s') :=
      Prod.ext (Except.ok.inj hvalue) hstate
    have hpublished := wp_ok hpublish hrun
    exact hpublished

variable {render : Json → String} {taskId : String} {s s' : BrokerStore}

/-- A dispatch that succeeds publishes the turn with the messages after the boundary. -/
theorem dispatchExecuteTurn_published {order : List Int} {d : Dispatch} (hs : Healthy s)
    (hv : s.view d.taskId = replay d.taskId (s.log d.taskId))
    (h : BrokerStore.dispatchExecuteTurn render order d s = (.ok (), s')) :
    ∃ ctx policy, ctx.messages = eventsToMessages render
        ((replay d.taskId (s.log d.taskId)).afterSeq order (summaryBoundary (s.log d.taskId))) ∧
      Published s s' (buildTurnBeginPayload d.taskId d.turnId (withCache d.userInput d.cachedLlm) ctx d.redoGroup
        d.redoCount policy) := by
  obtain ⟨c, s₁, hc, h⟩ := bind_eq_ok.mp h
  obtain ⟨ctx, s₂, hctx, h⟩ := bind_eq_ok.mp h
  cases hctx
  obtain ⟨policy, s₃, hpolicy, h⟩ := bind_eq_ok.mp h
  obtain ⟨taskType, s₄, htype, h⟩ := bind_eq_ok.mp h
  have hmessages := wp_ok (buildLlmContext_healthy render order hs hv) hc
  have hbuild : KeepsStreams (buildLlmContext render (getLatestSummary d.taskId) (getEventsAfterSeq d.taskId order)) :=
    keepsStreams_bind (keepsStreams_withProjection _ _) fun _ =>
      keepsStreams_bind (keepsStreams_withProjection _ _) fun _ _ => rfl
  have h₁ := hbuild s
  rw [hc] at h₁
  have h₃ := keepsStreams_readPolicy d.taskId s₁
  rw [hpolicy] at h₃
  have h₄ := keepsStreams_resolveTaskTypeIn d.taskId 10 s₃
  have htype' : resolveTaskTypeIn brokerEventStore d.taskId 10 s₃ = (.ok taskType, s₄) := htype
  rw [htype'] at h₄
  obtain ⟨tt, seq, metadata, hpublished⟩ := publishAs_published h
  have hstreams : s₄.streams = s.streams := h₄.trans (h₃.trans h₁)
  exact ⟨_, policy, hmessages, tt, seq, metadata, by rw [hpublished, hstreams]⟩

/-! ## How often the prompt says the input -/

/-- How often the messages of an event say the text in the user's name. -/
def saidBy (render : Json → String) (text : String) (e : AgentEvent) : Nat :=
  (messagesOf render e).countP fun m => m.role = "user" ∧ m.content = text

/-- A block under another label is none of the user. -/
theorem label_ne (label : String) (c : Char) (h : label.toList.head? = some c) (hc : c ≠ 'u') (rest text : String) :
    label ++ rest ≠ "user: " ++ text := by
  intro heq
  have hlist := congrArg String.toList heq
  have huser : "user: ".toList = 'u' :: ['s', 'e', 'r', ':', ' '] := by decide
  rw [String.toList_append, String.toList_append, huser] at hlist
  cases hl : label.toList with
  | nil => rw [hl] at h; cases h
  | cons c' cs =>
    rw [hl] at h hlist
    cases h
    exact hc (List.cons.inj hlist).1

/-- A message of the past is a block of the user if it was the user who said it. -/
theorem userBlocks_promptOfMessage (text : String) (m : Message) :
    (promptOfMessage m).countP (fun b => b.text = (PromptBlock.user text).text) =
      if m.role = "user" ∧ m.content = text then 1 else 0 := by
  have hsame : ∀ c : String, "user: " ++ c = "user: " ++ text ↔ c = text := by
    intro c
    rw [← String.toList_inj, String.toList_append, String.toList_append, List.append_cancel_left_eq, String.toList_inj]
  have hassistant := label_ne "assistant: " 'a' (by decide) (by decide) m.content text
  have hsystem := label_ne "system: " 's' (by decide) (by decide) ("[tool result] " ++ m.content) text
  unfold promptOfMessage
  split
  · rename_i hrole
    by_cases hc : m.content = text <;> simp [PromptBlock.user, hsame, hrole, hc]
  · rename_i hrole
    simp [PromptBlock.user, PromptBlock.assistant, hrole, hassistant]
  · rename_i hrole
    simp [PromptBlock.user, PromptBlock.system, hrole, hsystem]
  · rename_i hrole _ _
    exact (if_neg fun h => hrole h.1).symm

/-- The prompt says the text once, and once more for each time that a message says it. -/
theorem userBlocks_prompt (text summary : String) (events : List AgentEvent) :
    userBlocks text (buildAcpPrompt summary (eventsToMessages render events) text) =
      (events.map (saidBy render text)).sum + 1 := by
  have hsummary : (if summary.isEmpty then []
      else [PromptBlock.system ("Previous conversation summary:\n" ++ summary)]).countP
      (fun b => b.text = (PromptBlock.user text).text) = 0 := by
    have hne := label_ne "system: " 's' (by decide) (by decide)
      ("Previous conversation summary:\n" ++ summary) text
    split <;> simp [PromptBlock.user, PromptBlock.system, hne]
  have hmessages : ∀ messages : List Message, (messages.flatMap promptOfMessage).countP
      (fun b => b.text = (PromptBlock.user text).text) = messages.countP fun m => m.role = "user" ∧
        m.content = text := by
    intro messages
    induction messages with
    | nil => rfl
    | cons m messages ih =>
      rw [List.flatMap_cons, List.countP_append, userBlocks_promptOfMessage, ih, List.countP_cons]
      simp only [decide_eq_true_eq]
      omega
  have hevents : (eventsToMessages render events).countP (fun m => m.role = "user" ∧ m.content = text) =
      (events.map (saidBy render text)).sum := by
    unfold eventsToMessages
    induction events with
    | nil => rfl
    | cons e events ih => rw [List.flatMap_cons, List.countP_append, ih, List.map_cons, List.sum_cons]; rfl
  unfold userBlocks buildAcpPrompt
  rw [List.countP_append, List.countP_append, hsummary, hmessages, hevents]
  simp

/-- A turn that is accepted has the input and the messages it was published with, and no note on a redo. -/
theorem parse_newTurn {turnId : Int} {userInput group : String} {ctx : LlmContext} {policy : Option EffectivePolicy}
    {turn : ParsedExecuteTurn} (hturn : InI64 turnId)
    (h : parseExecuteTurnPayload (buildTurnBeginPayload taskId turnId userInput ctx group 0 policy) = .ok turn) :
    taskId ≠ "" ∧ turnId ≠ 0 ∧ turn.prompt = buildAcpPrompt ctx.summary ctx.messages userInput := by
  have hzero : InI64 0 := by decide
  unfold parseExecuteTurnPayload at h
  simp only [fields_buildTurnBeginPayload hturn hzero, Option.getD_some] at h
  split at h
  · cases h
  · rename_i hnot
    cases h
    refine ⟨fun he => hnot (by simp [he]), fun he => hnot (by simp [he]), ?_⟩
    have hcount : wrapI32 0 = 0 := by decide
    unfold ParsedExecuteTurn.prompt Fixlet.fullInput
    simp [hcount]

/-- What the events of a log say that do not say the text. -/
theorem sum_saidBy_eq_zero {text : String} {events : List AgentEvent}
    (h : ∀ e ∈ events, ⟨"user", text⟩ ∉ messagesOf render e) : (events.map (saidBy render text)).sum = 0 := by
  refine List.sum_eq_zero fun n hn => ?_
  obtain ⟨e, he, rfl⟩ := List.mem_map.mp hn
  refine List.countP_eq_zero.mpr fun m hm hp => ?_
  obtain ⟨hrole, hcontent⟩ := of_decide_eq_true hp
  exact h e he (by rw [← hrole, ← hcontent]; exact hm)

/-- Of a log in which only the start of a turn says its input, the events after a boundary say it if the start is among
them. -/
theorem sum_saidBy_start {before later : List Record} {seq : Nat} {turnId boundary : Int} {userInput group : String}
    (hfresh : ∀ e ∈ eventsOf taskId (before ++ later), ⟨"user", userInput⟩ ∉ messagesOf render e) :
    (((eventsOf taskId (before ++ [recordOf seq (turnStarted taskId turnId userInput group)] ++ later)).filter fun e =>
      boundary < e.seq).map (saidBy render userInput)).sum = if boundary < wrapI64 seq then 1 else 0 := by
  have hzero : ∀ log : List Record, (∀ e ∈ eventsOf taskId log, e ∈ eventsOf taskId (before ++ later)) →
      (((eventsOf taskId log).filter fun e => boundary < e.seq).map (saidBy render userInput)).sum = 0 :=
    fun log hsub => sum_saidBy_eq_zero fun e he => hfresh e (hsub e (List.mem_of_mem_filter he))
  have hbefore := hzero before fun e he => by
    rw [eventsOf, List.filterMap_append]
    exact List.mem_append_left _ he
  have hlater := hzero later fun e he => by
    rw [eventsOf, List.filterMap_append]
    exact List.mem_append_right _ he
  have happ : eventsOf taskId (before ++ [recordOf seq (turnStarted taskId turnId userInput group)] ++ later) =
      eventsOf taskId before ++
        [eventOf taskId .turnStarted (recordOf seq (turnStarted taskId turnId userInput group))] ++
        eventsOf taskId later := by
    simp only [eventsOf, List.filterMap_append]
    rfl
  have hone : saidBy render userInput
      (eventOf taskId .turnStarted (recordOf seq (turnStarted taskId turnId userInput group))) = 1 := by
    simp [saidBy, messagesOf, eventOf, recordOf, turnStarted, AgentEvent.new, turnStartedPayload, Json.get,
      Json.getField,
      Json.asStr]
  rw [happ, List.filter_append, List.filter_append, List.map_append, List.map_append, List.sum_append, List.sum_append,
    hbefore, hlater]
  have hs : (eventOf taskId .turnStarted (recordOf seq (turnStarted taskId turnId userInput group))).seq =
    wrapI64 seq := rfl
  by_cases hb : boundary < wrapI64 seq
  · rw [List.filter_cons_of_pos (by rw [hs]; exact decide_eq_true hb), if_pos hb, List.filter_nil, List.map_singleton,
      List.sum_singleton, hone]
  · rw [List.filter_cons_of_neg (by rw [hs]; simpa using hb), if_neg hb, List.filter_nil, List.map_nil, List.sum_nil,
      Nat.add_zero, Nat.add_zero]

section Dispatched

variable {order : List Int} {uuid userInput group : String} {redoGroup slot : Option String} {turnId : Int}
  {event : AgentEvent} {s₀ s₁ : BrokerStore} {later : List Record}

/-- The prompt of a new turn says its input once, and once more if its start is after the boundary of the latest
summary. -/
theorem userBlocks_dispatched
    (hstart : Service.startTurn brokerEventStore uuid taskId userInput redoGroup s₀ = (.ok (turnId, group, event), s₁))
    (hlog : s.log taskId = s₁.log taskId ++ later) (hs : Healthy s) (hv : s.view taskId = replay taskId (s.log taskId))
    (ha : Ascending (s.log taskId)) (hseq : ∀ r ∈ s.log taskId, r.seq < 2 ^ 64)
    (hfresh : ∀ e ∈ eventsOf taskId (s₀.log taskId ++ later), ⟨"user", userInput⟩ ∉ messagesOf render e)
    (hdispatch : BrokerStore.dispatchExecuteTurn render order (newTurn taskId turnId userInput group slot) s =
      (.ok (), s')) :
    ∃ payload, Published s s' payload ∧
      (taskId ≠ "" → turnId ≠ 0 → ∃ turn, parseExecuteTurnPayload payload = .ok turn) ∧
      ∀ turn, parseExecuteTurnPayload payload = .ok turn → taskId ≠ "" ∧ turnId ≠ 0 ∧
        userBlocks userInput turn.prompt = (if summaryBoundary (s.log taskId) < event.seq then 1 else 0) + 1 := by
  obtain ⟨seq, hevent, hturn, hlog₁⟩ := startTurn_wrote hstart
  obtain ⟨ctx, policy, hmessages, hpublished⟩ := dispatchExecuteTurn_published hs hv hdispatch
  have hn : ((eventsOf taskId (s.log taskId)).map AgentEvent.seq).Nodup := nodup_seqs ha hseq
  have hperm := (afterSeq_perm hn (summaryBoundary (s.log taskId)) order).map (saidBy render userInput)
  have hsum : (((eventsOf taskId (s.log taskId)).filter fun e => summaryBoundary (s.log taskId) < e.seq).map
      (saidBy render userInput)).sum = if summaryBoundary (s.log taskId) < wrapI64 seq then 1 else 0 := by
    generalize summaryBoundary (s.log taskId) = boundary
    rw [hlog, hlog₁]
    exact sum_saidBy_start hfresh
  have hcount : userBlocks userInput (buildAcpPrompt ctx.summary ctx.messages userInput) =
      (if summaryBoundary (s.log taskId) < event.seq then 1 else 0) + 1 := by
    have hmessages' : ctx.messages = eventsToMessages render
        ((replay taskId (s.log taskId)).afterSeq order (summaryBoundary (s.log taskId))) := hmessages
    rw [hmessages', userBlocks_prompt, hperm.sum_eq, hsum, hevent]
  refine ⟨_, hpublished, fun htask hne => ⟨_, parse_ok htask hne hturn (show InI32 0 by decide)⟩, fun turn hparse => ?_⟩
  obtain ⟨htask, hne, hprompt⟩ := parse_newTurn hturn hparse
  exact ⟨htask, hne, hprompt ▸ hcount⟩

/-- **The prompt of a new turn says its input once exactly if a summary covers the start of the turn before it is
dispatched.** The fixlet takes no turn without a task or a number. -/
theorem promptOnce_iff
    (hstart : Service.startTurn brokerEventStore uuid taskId userInput redoGroup s₀ = (.ok (turnId, group, event), s₁))
    (hlog : s.log taskId = s₁.log taskId ++ later) (hs : Healthy s) (hv : s.view taskId = replay taskId (s.log taskId))
    (ha : Ascending (s.log taskId)) (hseq : ∀ r ∈ s.log taskId, r.seq < 2 ^ 64)
    (hfresh : ∀ e ∈ eventsOf taskId (s₀.log taskId ++ later), ⟨"user", userInput⟩ ∉ messagesOf render e)
    (hdispatch : BrokerStore.dispatchExecuteTurn render order (newTurn taskId turnId userInput group slot) s =
      (.ok (), s')) :
    PromptOnce s s' userInput ↔ (taskId ≠ "" ∧ turnId ≠ 0) ∧ event.seq ≤ summaryBoundary (s.log taskId) := by
  obtain ⟨payload, hpublished, haccepted, hcount⟩ := userBlocks_dispatched hstart hlog hs hv ha hseq hfresh hdispatch
  constructor
  · rintro ⟨payload', turn, hp, hparse, honce⟩
    rw [hp.unique hpublished] at hparse
    obtain ⟨htask, hne, hblocks⟩ := hcount turn hparse
    refine ⟨⟨htask, hne⟩, not_lt.mp fun hb => ?_⟩
    rw [honce, if_pos hb] at hblocks
    omega
  · rintro ⟨⟨htask, hne⟩, hle⟩
    obtain ⟨turn, hparse⟩ := haccepted htask hne
    obtain ⟨-, -, hblocks⟩ := hcount turn hparse
    rw [if_neg (not_lt.mpr hle)] at hblocks
    exact ⟨payload, turn, hpublished, hparse, hblocks⟩

end Dispatched

/-- A store with a log for one task. -/
def storeOf (taskId : String) (log : List Record) : BrokerStore :=
  { streams := fun stream => if stream = taskId then log else [] }

theorem storeOf_healthy (taskId : String) (log : List Record) : Healthy (storeOf taskId log) :=
  ⟨rfl, List.nodup_nil, nofun, (show 1 ≤ 1000 by decide)⟩

@[simp] theorem storeOf_log (taskId : String) (log : List Record) : (storeOf taskId log).log taskId = log := by
  simp [storeOf, BrokerStore.log]

theorem storeOf_view (taskId : String) (log : List Record) :
    (storeOf taskId log).view taskId = replay taskId ((storeOf taskId log).log taskId) := rfl

/-- A task that is ready for its first turn. -/
def freshTask : List Record :=
  [⟨1, "task_created", .obj [("task_type", .str "chat")], ∅⟩, ⟨2, "task_ready", .obj [], ∅⟩]

/-- The store after the first turn has started. -/
def startedStore : BrokerStore :=
  (Service.startTurn brokerEventStore "1" "task_1" "hello" none (storeOf "task_1" freshTask)).2

/-- A summary of everything so far. -/
def summaryRecord : Record :=
  ⟨4, "summary_marker", .obj [("summarized_up_to_seq", .int 3), ("summarized_up_to_turn_id", .int 1),
    ("summary", .str "s")], ∅⟩

/-- The texts of the prompt that the agents of a type are given last. -/
def promptTexts (s : BrokerStore) (taskType : String) : Option (List String) := do
  let r ← (s.streams (taskBeginStream taskType)).getLast?
  match parseExecuteTurnPayload r.content with
  | .ok turn => some (turn.prompt.map PromptBlock.text)
  | .error _ => none

theorem startedStore_healthy : Healthy startedStore :=
  Call.healthy (storeOf_healthy "task_1" freshTask) (.op (.startTurn "1" "task_1" "hello" none))

/-- The first turn starts with the third record. -/
theorem startTurn_freshTask : ∃ event, event.seq = 3 ∧
    Service.startTurn brokerEventStore "1" "task_1" "hello" none (storeOf "task_1" freshTask) =
      (.ok (1, "rg_1", event), startedStore) := by
  have hvalue : (Service.startTurn brokerEventStore "1" "task_1" "hello" none (storeOf "task_1" freshTask)).1.map
      (fun r => (r.1, r.2.1, r.2.2.seq)) = .ok (1, "rg_1", 3) := by decide +kernel
  unfold startedStore
  cases hrun : Service.startTurn brokerEventStore "1" "task_1" "hello" none (storeOf "task_1" freshTask) with
  | mk r s =>
    rw [hrun] at hvalue
    cases r with
    | error err => cases hvalue
    | ok started =>
      obtain ⟨k, group, event⟩ := started
      simp only [Except.map, Except.ok.injEq, Prod.mk.injEq] at hvalue
      obtain ⟨rfl, rfl, hseq⟩ := hvalue
      exact ⟨event, hseq, rfl⟩

/-- No message of the ready task, and none of a summary, says anything. -/
theorem freshTask_silent {text : String} {log : List Record} (hlog : ∀ r ∈ log, r ∈ freshTask ++ [summaryRecord]) :
    ∀ e ∈ eventsOf "task_1" log, ⟨"user", text⟩ ∉ messagesOf (fun _ => "") e := by
  intro e he
  obtain ⟨r, hr, hre⟩ := List.mem_filterMap.mp he
  obtain ⟨et, het, rfl⟩ := Option.map_eq_some_iff.mp hre
  have hr := hlog r hr
  simp only [freshTask, summaryRecord, List.cons_append, List.nil_append, List.mem_cons, List.not_mem_nil,
    or_false] at hr
  rcases hr with rfl | rfl | rfl <;> cases het <;> exact List.not_mem_nil

/-- The theorem where a summary is written before the first turn is dispatched. -/
theorem promptOnce_summarized :
    let s := storeOf "task_1" (startedStore.log "task_1" ++ [summaryRecord])
    PromptOnce s (BrokerStore.dispatchExecuteTurn (fun _ => "") []
      (newTurn "task_1" 1 "hello" "rg_1" (some "chat")) s).2
      "hello" := by
  intro s
  obtain ⟨event, hevent, hstart⟩ := startTurn_freshTask
  have hok : (BrokerStore.dispatchExecuteTurn (fun _ => "") []
      (newTurn "task_1" 1 "hello" "rg_1" (some "chat")) s).1 = .ok () := by decide +kernel
  have hlog : s.log "task_1" = startedStore.log "task_1" ++ [summaryRecord] := storeOf_log _ _
  have hascending : Ascending (s.log "task_1") := by decide +kernel
  have hfits : ∀ r ∈ s.log "task_1", r.seq < 2 ^ 64 := by decide +kernel
  have hcovered : event.seq ≤ summaryBoundary (s.log "task_1") := by
    rw [hevent]
    decide +kernel
  have hview : s.view "task_1" = replay "task_1" (s.log "task_1") := storeOf_view _ _
  have hhealthy : Healthy s := storeOf_healthy _ _
  clear_value s
  refine (promptOnce_iff hstart hlog hhealthy hview hascending hfits ?_ (Prod.ext hok rfl)).mpr ⟨by decide, hcovered⟩
  rw [storeOf_log]
  exact freshTask_silent fun _ h => h

/-- The first turn of a task has its input twice in the prompt. -/
theorem prompt_repeats_input :
    let dispatched := BrokerStore.dispatchExecuteTurn (fun _ => "") [] (newTurn "task_1" 1 "hello" "rg_1" (some "chat"))
      startedStore
    (∃ event, Service.startTurn brokerEventStore "1" "task_1" "hello" none (storeOf "task_1" freshTask) =
        (.ok (1, "rg_1", event), startedStore)) ∧
      (∀ e ∈ eventsOf "task_1" freshTask, ⟨"user", "hello"⟩ ∉ messagesOf (fun _ => "") e) ∧ dispatched.1 = .ok () ∧
      promptTexts dispatched.2 "chat" = some ["user: hello", "user: hello"] ∧
      ¬ PromptOnce startedStore dispatched.2 "hello" := by
  intro dispatched
  obtain ⟨event, hevent, hstart⟩ := startTurn_freshTask
  have hok : dispatched.1 = .ok () := by decide +kernel
  have hsilent : ∀ log : List Record, (∀ r ∈ log, r ∈ freshTask) →
      ∀ e ∈ eventsOf "task_1" log, ⟨"user", "hello"⟩ ∉ messagesOf (fun _ => "") e :=
    fun log hlog => freshTask_silent fun r hr => List.mem_append_left _ (hlog r hr)
  refine ⟨⟨event, hstart⟩, hsilent _ fun _ h => h, hok, by decide +kernel, ?_⟩
  rintro ⟨payload, turn, hp, hparse, honce⟩
  obtain ⟨payload', hp', -, hcount⟩ := userBlocks_dispatched hstart (List.append_nil _).symm startedStore_healthy rfl
    (by decide +kernel) (by decide +kernel) (hsilent _ fun r hr => by rwa [List.append_nil] at hr) (Prod.ext hok rfl)
  rw [hp.unique hp'] at hparse
  obtain ⟨-, -, hblocks⟩ := hcount turn hparse
  rw [honce, hevent] at hblocks
  exact absurd hblocks (by decide +kernel)

end Fixus
