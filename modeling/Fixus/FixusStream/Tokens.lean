import Fixus.Data.SerdeJson
import Fixus.FixusStream.Replay
import Fixus.Lib.Delimited
import Fixus.Lib.PubSub
import Fixus.Orchestrator.Scheduling

/-!
# The fast path of tokens

What a model writes goes around the log, chunk by chunk: the orchestrator and the fixlets publish it on channels, and
the stream of a client listens to the channel of its turn.

- `turnChannel`, `fixletChannel`: where clients listen and the orchestrator publishes, and where the fixlets do;
- `turnChannel_inj`: no two turns share a channel;
- `turnChannel_ne_fixletChannel`: the channels of the fixlets are others;
- `AtMostOnce`, `Gapless`: what Redis is assumed to deliver;
- `Listening.run_filter`: what the fixlets publish makes no difference to any client;
- `live_tokens`: a client is sent chunks that the orchestrator publishes for its turn while it is there, and no others.

A stream ends at the terminal event of its turn, whatever was published by then and has not been read.
-/

namespace Fixus

open Lib

/-! ## Channels and messages -/

/-- `format!("turn:{}:{}", session_id, turn_id)`. -/
def turnChannel (turn : TurnKey) : String := "turn:" ++ turn.1 ++ ":" ++ toString turn.2

/-- `format!("fixus:token:{}", ctx.task_id)`. -/
def fixletChannel (taskId : String) : String := "fixus:token:" ++ taskId

/-- The message of the orchestrator. -/
def llmChunk (text : String) : Json := .obj [("type", .str "llm_chunk"), ("text", .str text)]

/-- The message of a fixlet. -/
def agentChunk (turn : TurnKey) (text : String) : Json :=
  .obj [("task_id", .str turn.1), ("turn_id", .int turn.2), ("text", .str text)]

/-- What happens on the fast path: `token_loop` has subscribed for a client, gets a message, or ends (the client hangs
up, the turn has ended, the connection is lost); the orchestrator or a fixlet has a chunk. A process without a
connection publishes nothing, and a `token_loop` without one never subscribes. -/
inductive TokenMove (ι : Type) where
  | subscribe (client : ι) (turn : TurnKey)
  | message (client : ι) (payload : String)
  | stop (client : ι)
  | handleLlmChunk (turn : TurnKey) (text : String)
  | handleAgentChunk (turn : TurnKey) (text : String)

variable {ι : Type}

namespace TokenMove

def hubMove (serde : SerdeJson) : TokenMove ι → HubMove ι String String
  | subscribe client turn => .listen client (turnChannel turn)
  | message client payload => .read client payload
  | stop client => .leave client
  | handleLlmChunk turn text => .publish (turnChannel turn) (serde.toString (llmChunk text))
  | handleAgentChunk turn text => .publish (fixletChannel turn.1) (serde.toString (agentChunk turn text))

/-- The text that the move publishes for a turn. -/
def textOf (turn : TurnKey) : TokenMove ι → Option String
  | handleLlmChunk t text => if t = turn then some text else none
  | _ => none

/-- A fixlet publishes. -/
def fromFixlet : TokenMove ι → Bool
  | handleAgentChunk _ _ => true
  | _ => false

/-- The client that subscribes. -/
def subscriber : TokenMove ι → Option ι
  | subscribe c _ => some c
  | _ => none

end TokenMove

/-! ## Channels -/

theorem colon_notMem_toString (n : Int) : ':' ∉ (toString n).toList := by
  intro h
  rcases Json.mem_toString_int h with hd | hd
  · exact absurd hd (by decide)
  · exact absurd hd (by decide)

/-- No two turns share a channel, whatever their tasks are called. -/
theorem turnChannel_inj {t t' : TurnKey} (h : turnChannel t = turnChannel t') : t = t' := by
  have hlist : ∀ t : TurnKey,
      (turnChannel t).toList = ("turn:".toList ++ t.1.toList) ++ ':' :: (toString t.2).toList := by
    intro t
    unfold turnChannel
    simp only [String.toList_append, List.append_assoc]
    rfl
  have hchars := congrArg String.toList h
  rw [hlist, hlist] at hchars
  obtain ⟨htask, hturn⟩ := append_sep_inj (colon_notMem_toString t.2) (colon_notMem_toString t'.2) hchars
  have hturn : toString t.2 = toString t'.2 := String.toList_inj.mp hturn
  have hread := parseInt_toString t.2
  rw [hturn, parseInt_toString] at hread
  exact Prod.ext (String.toList_inj.mp (List.append_cancel_left htask)) (Option.some.inj hread).symm

/-- The fixlets publish where no stream listens. -/
theorem turnChannel_ne_fixletChannel (turn : TurnKey) (taskId : String) : fixletChannel taskId ≠ turnChannel turn := by
  intro h
  have hhead := congrArg (fun s => s.toList.head?) h
  unfold fixletChannel turnChannel at hhead
  simp [String.toList_append] at hhead

/-! ## Messages -/

/-- The text of a chunk is read back. -/
theorem llmChunk_text (serde : SerdeJson) (text : String) :
    ((serde.fromStr (serde.toString (llmChunk text))).bind fun v => (v.index "text").asStr) = some text := by
  have hexact : (llmChunk text).Exact 127 := by simp [llmChunk, Json.Exact]
  rw [serde.fromStr_toString hexact]
  rfl

theorem hubMove_on (serde : SerdeJson) (turn : TurnKey) (m : TokenMove ι) :
    (m.hubMove serde).on (turnChannel turn) = (m.textOf turn).map fun text => serde.toString (llmChunk text) := by
  cases m with
  | handleLlmChunk t text =>
    by_cases ht : t = turn
    · simp [TokenMove.hubMove, TokenMove.textOf, HubMove.on, ht]
    · have hne : turnChannel t ≠ turnChannel turn := fun h => ht (turnChannel_inj h)
      simp [TokenMove.hubMove, TokenMove.textOf, HubMove.on, ht, hne]
  | handleAgentChunk t text => simp [TokenMove.hubMove, TokenMove.textOf, HubMove.on, turnChannel_ne_fixletChannel]
  | _ => rfl

theorem hubMove_listener (serde : SerdeJson) (m : TokenMove ι) : (m.hubMove serde).listener = m.subscriber := by
  cases m <;> rfl

/-! ## Runs -/

variable [DecidableEq ι] {serde : SerdeJson} {h : Hub ι String String}

/-- One move on the fast path. -/
def tokenStep (serde : SerdeJson) (h : Hub ι String String) (m : TokenMove ι) : Hub ι String String :=
  h.move (m.hubMove serde)

/-- What a client is sent: what `token_loop` has got, one event for each message. -/
def tokensSent (h : Hub ι String String) (client : ι) : List Sse := (h.received client).map .chunk

/-- Redis is assumed to hand a subscriber messages that were published on its channel since it subscribed, in their
order and each at most once. -/
abbrev AtMostOnce (serde : SerdeJson) (h : Hub ι String String) (m : TokenMove ι) : Prop :=
  Hub.Delivers List.Sublist h (m.hubMove serde)

/-- With a connection that holds it leaves out none before the last one that it has handed over. -/
abbrev Gapless (serde : SerdeJson) (h : Hub ι String String) (m : TokenMove ι) : Prop :=
  Hub.Delivers List.IsPrefix h (m.hubMove serde)

/-- Clients listen to channels of turns only. -/
def Listening (h : Hub ι String String) : Prop := ∀ c k, h.channel c = some k → ∃ turn, k = turnChannel turn

theorem Listening.step (hl : Listening h) (m : TokenMove ι) : Listening (tokenStep serde h m) := by
  intro c k hk
  cases m with
  | subscribe client turn =>
    have hk : Function.update h.channel client (some (turnChannel turn)) c = some k := hk
    by_cases hc : c = client
    · rw [hc, Function.update_self] at hk
      exact ⟨turn, (Option.some.inj hk).symm⟩
    · rw [Function.update_of_ne hc] at hk
      exact hl c k hk
  | stop client =>
    have hk : Function.update h.channel client none c = some k := hk
    by_cases hc : c = client
    · rw [hc, Function.update_self] at hk
      cases hk
    · rw [Function.update_of_ne hc] at hk
      exact hl c k hk
  | message client payload =>
    simp only [tokenStep, TokenMove.hubMove, Hub.move] at hk
    split at hk <;> exact hl c k hk
  | handleLlmChunk t text => exact hl c k hk
  | handleAgentChunk t text => exact hl c k hk

/-- A chunk of a fixlet reaches nobody. -/
theorem Listening.fromFixlet (hl : Listening h) {m : TokenMove ι} (hm : m.fromFixlet = true) :
    tokenStep serde h m = h := by
  cases m with
  | handleAgentChunk t text =>
    have hnobody : ∀ c, h.channel c ≠ some (fixletChannel t.1) := by
      intro c hc
      obtain ⟨turn, hturn⟩ := hl c _ hc
      exact turnChannel_ne_fixletChannel turn t.1 hturn
    simp [tokenStep, TokenMove.hubMove, Hub.move, hnobody]
  | subscribe _ _ | message _ _ | stop _ | handleLlmChunk _ _ => cases hm

/-- Without the fixlets a run ends in the same state. -/
theorem Listening.run_filter (hl : Listening h) (moves : List (TokenMove ι)) :
    run (tokenStep serde) h moves = run (tokenStep serde) h (moves.filter fun m => !m.fromFixlet) := by
  induction moves generalizing h with
  | nil => rfl
  | cons m moves ih =>
    cases hm : m.fromFixlet with
    | true => rw [List.filter_cons_of_neg (by simp [hm]), run_cons, hl.fromFixlet hm, ih hl]
    | false => rw [List.filter_cons_of_pos (by simp [hm]), run_cons, run_cons, ih (hl.step m)]

theorem run_tokenStep (moves : List (TokenMove ι)) :
    run (tokenStep serde) h moves = run Hub.move h (moves.map (TokenMove.hubMove serde)) := by
  unfold run
  rw [List.foldl_map]
  rfl

theorem meets_tokenStep {R : List String → List String → Prop} {moves : List (TokenMove ι)}
    (hm : Meets (tokenStep serde) (fun h m => Hub.Delivers R h (m.hubMove serde)) h moves) :
    Meets Hub.move (Hub.Delivers R) h (moves.map (TokenMove.hubMove serde)) := by
  induction moves generalizing h with
  | nil => trivial
  | cons m moves ih => exact ⟨hm.1, ih hm.2⟩

/-- What a client is offered is what the orchestrator publishes for its turn, from the first chunk on. -/
theorem offered_chunks (before : List (TokenMove ι)) {after : List (TokenMove ι)} {client : ι} (turn : TurnKey)
    (hafter : ∀ m ∈ after, m.subscriber ≠ some client) :
    (run (tokenStep serde) {} (before ++ .subscribe client turn :: after)).offered client <+:
      (after.filterMap (TokenMove.textOf turn)).map fun text => serde.toString (llmChunk text) := by
  have hsplit : run (tokenStep serde) {} (before ++ .subscribe client turn :: after) =
      run (tokenStep serde) (tokenStep serde (run (tokenStep serde) {} before) (.subscribe client turn)) after :=
    List.foldl_append
  rw [hsplit, run_tokenStep after]
  generalize run (tokenStep serde) {} before = h
  have hchannel : (tokenStep serde h (.subscribe client turn)).channel client = some (turnChannel turn) :=
    Function.update_self ..
  have hnil : (tokenStep serde h (.subscribe client turn)).offered client = [] := Function.update_self ..
  have hmoves : ∀ m ∈ after.map (TokenMove.hubMove serde), m.listener ≠ some client := by
    refine List.forall_mem_map.mpr fun m hm => ?_
    rw [hubMove_listener]
    exact hafter m hm
  have hon : HubMove.on (turnChannel turn) ∘ TokenMove.hubMove (ι := ι) serde =
      fun m => (m.textOf turn).map fun text => serde.toString (llmChunk text) := funext (hubMove_on serde turn)
  have hoffered := Hub.offered_run hchannel hmoves
  rw [hnil, List.nil_append, List.filterMap_map, hon] at hoffered
  rwa [List.map_filterMap]

/-- **Live tokens.** From the time it listens a client is sent chunks that the orchestrator publishes for its own turn,
in order and each at most once, and without a gap if the connection holds; the texts read back. No two turns share a
channel, and what the fixlets publish makes no difference to anyone. -/
theorem live_tokens (serde : SerdeJson) {before after : List (TokenMove ι)} {client : ι} {turn : TurnKey}
    (hafter : ∀ m ∈ after, m.subscriber ≠ some client)
    (hredis : Meets (tokenStep serde) (AtMostOnce serde) {} (before ++ .subscribe client turn :: after)) :
    (tokensSent (run (tokenStep serde) {} (before ++ .subscribe client turn :: after)) client).Sublist
        ((after.filterMap (TokenMove.textOf turn)).map fun text => .chunk (serde.toString (llmChunk text))) ∧
      (Meets (tokenStep serde) (Gapless serde) {} (before ++ .subscribe client turn :: after) →
        tokensSent (run (tokenStep serde) {} (before ++ .subscribe client turn :: after)) client <+:
          (after.filterMap (TokenMove.textOf turn)).map fun text => .chunk (serde.toString (llmChunk text))) ∧
      (∀ text, ((serde.fromStr (serde.toString (llmChunk text))).bind fun v => (v.index "text").asStr) = some text) ∧
      (∀ t t' : TurnKey, turnChannel t = turnChannel t' → t = t') ∧
      run (tokenStep serde) {} (before ++ .subscribe client turn :: after) =
        run (tokenStep serde) {} ((before ++ .subscribe client turn :: after).filter fun m => !m.fromFixlet) := by
  have hchunks :
      ((after.filterMap (TokenMove.textOf turn)).map fun text => serde.toString (llmChunk text)).map Sse.chunk =
      (after.filterMap (TokenMove.textOf turn)).map fun text => .chunk (serde.toString (llmChunk text)) := List.map_map
  have hoffered : (run (tokenStep serde) {} (before ++ .subscribe client turn :: after)).offered client <+: _ :=
    offered_chunks before turn hafter
  have hnobody : Listening ({} : Hub ι String String) := fun c k hk => by cases hk
  refine ⟨?_, fun hgapless => ?_, llmChunk_text serde, fun _ _ => turnChannel_inj, hnobody.run_filter _⟩
  · have hread := Hub.delivered_run List.nil_sublist (fun _ _ _ h => h.trans (List.sublist_append_left _ _))
      (meets_tokenStep hredis) client
    rw [← run_tokenStep] at hread
    exact hchunks ▸ (hread.trans hoffered.sublist).map _
  · have hread := Hub.delivered_run (fun l => List.nil_prefix) (fun _ _ _ h => h.trans (List.prefix_append _ _))
      (meets_tokenStep hgapless) client
    rw [← run_tokenStep] at hread
    exact hchunks ▸ (hread.trans hoffered).map _

/-- Two clients follow two turns of a task; the first one misses a chunk and hangs up before the last one. -/
def twoTurnsLive : List (TokenMove Nat) :=
  let message (client : Nat) (text : String) := TokenMove.message client (SerdeJson.limited.toString (llmChunk text))
  [.subscribe 1 ("s", 2), .handleLlmChunk ("s", 1) "He", .handleLlmChunk ("s", 2) "x", .handleAgentChunk ("s", 1) "He",
    message 0 "He", .handleLlmChunk ("s", 1) "llo", .handleLlmChunk ("s", 1) "!", message 1 "x", message 0 "!", .stop 0,
    .handleLlmChunk ("s", 1) "late"]

/-- The theorem at these clients, for the first one. -/
theorem live_tokens_twoTurns :
    let serde := SerdeJson.limited
    let moves := .handleLlmChunk ("s", 1) "early" :: .subscribe 0 ("s", 1) :: twoTurnsLive
    let chunk (text : String) := Sse.chunk (serde.toString (llmChunk text))
    tokensSent (run (tokenStep serde) {} moves) 0 = [chunk "He", chunk "!"] ∧
      (tokensSent (run (tokenStep serde) {} moves) 0).Sublist (["He", "llo", "!", "late"].map chunk) := by
  intro serde moves chunk
  refine ⟨by decide +kernel, ?_⟩
  have hafter : ∀ m ∈ twoTurnsLive, m.subscriber ≠ some 0 := by decide +kernel
  have hredis : Meets (tokenStep serde) (AtMostOnce serde) {}
      ([.handleLlmChunk ("s", 1) "early"] ++ .subscribe 0 ("s", 1) :: twoTurnsLive) := by decide +kernel
  exact (live_tokens serde hafter hredis).1

end Fixus
