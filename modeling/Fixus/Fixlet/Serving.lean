import Fixus.Orchestrator.Grants
import Fixus.ToolsBank.PolicyHeader

/-!
# What a fixlet does on whose behalf

A fixlet speaks only of turns that it was given, and opens sessions only for such turns, with the policies that came
with them.

- `parse_begins`: the turn and the policy in a turn.begin that is accepted;
- `Serves`: everything that a fixlet has said belongs to a turn that was begun;
- `Serves.step`: whatever comes in next, that stays so;
- `taskId_callContext`, `attachedPolicy_callContext`: what a tool call makes of the headers of a session.
-/

namespace Fixus

open Lib

def TurnContext.key (ctx : TurnContext) : TurnKey := (ctx.taskId, ctx.turnId)

def ParsedExecuteTurn.key (turn : ParsedExecuteTurn) : TurnKey := (turn.taskId, turn.turnId)

/-- The report names the turn. -/
structure TaskEnd.OnTurn (r : TaskEnd) (turn : TurnKey) : Prop where
  task : r.payload.get "task_id" = some (.str turn.1)
  number : r.payload.get "turn_id" = some (.int turn.2)

/-- The headers of a session for the turn. -/
def sessionHeaders (render : Json → String) (turn : TurnKey) (policy : Option EffectivePolicy) :
    List (String × String) :=
  [("X-Fixus-Session-Id", turn.1), ("X-Fixus-Turn-Id", toString turn.2), ("X-Fixus-Policy", render (policyJson policy))]

/-- A turn that is accepted has the identifiers and the policy of the message. -/
theorem parse_begins {content : Json} {turn : TurnKey} {policy : Option EffectivePolicy} {parsed : ParsedExecuteTurn}
    (hb : Begins content turn policy) (h : parseExecuteTurnPayload content = .ok parsed) :
    parsed.key = turn ∧ parsed.effectivePolicy = some (policyJson policy) := by
  obtain ⟨userInput, ctx, redoGroup, redoCount, rfl⟩ := hb
  have hsession : (TurnBeginFields.ofJson (buildTurnBeginPayload turn.1 turn.2 userInput ctx redoGroup redoCount
      policy)).sessionId = some turn.1 := rfl
  have hturn : (TurnBeginFields.ofJson (buildTurnBeginPayload turn.1 turn.2 userInput ctx redoGroup redoCount
      policy)).turnId = if InI64 turn.2 then some turn.2 else none := by
    show (Json.int turn.2).asI64 = _
    simp [Json.asI64]
  have hpolicy : (TurnBeginFields.ofJson (buildTurnBeginPayload turn.1 turn.2 userInput ctx redoGroup redoCount
      policy)).effectivePolicy = some (policyJson policy) := rfl
  unfold parseExecuteTurnPayload at h
  simp only [hsession, hturn, hpolicy, Option.getD_some] at h
  by_cases hi : InI64 turn.2
  · simp only [if_pos hi, Option.getD_some] at h
    split at h
    · cases h
    · obtain rfl := Except.ok.inj h
      exact ⟨rfl, rfl⟩
  · -- a number out of range reads as zero, which is refused
    simp [hi] at h

/-! ## The invariant -/

/-- Everything that the fixlet does belongs to a turn that was begun with a policy. -/
structure Serves (begun : TurnKey → Option EffectivePolicy → Prop) (render : Json → String) (s : Fixlet) : Prop where
  active : ∀ ctx, s.activeTurn = some ctx → ∃ policy, begun ctx.key policy
  opening : ∀ w, s.opening = some w → ∃ policy, begun w.ctx.key policy
  emitted : ∀ r ∈ s.emitted, ∃ turn policy, begun turn policy ∧ r.OnTurn turn
  sent : ∀ request ∈ s.sent, forwardedHeaders request = [] ∨ ∃ turn policy, begun turn policy ∧
    forwardedHeaders request = sessionHeaders render turn policy

namespace Serves

variable {begun begun' : TurnKey → Option EffectivePolicy → Prop} {render : Json → String} {s : Fixlet}

theorem start : Serves begun render {} where
  active _ h := by cases h
  opening _ h := by cases h
  emitted _ h := by cases h
  sent _ h := by cases h

theorem mono (h : Serves begun render s) (hb : ∀ turn policy, begun turn policy → begun' turn policy) :
    Serves begun' render s where
  active ctx hc := (h.active ctx hc).imp fun policy => hb _ policy
  opening w hw := (h.opening w hw).imp fun policy => hb _ policy
  emitted r hr := by
    obtain ⟨turn, policy, hturn, hon⟩ := h.emitted r hr
    exact ⟨turn, policy, hb turn policy hturn, hon⟩
  sent request hr := by
    rcases h.sent request hr with hnone | ⟨turn, policy, hturn, hheaders⟩
    · exact Or.inl hnone
    · exact Or.inr ⟨turn, policy, hb turn policy hturn, hheaders⟩

/-- More is said on a turn that was begun, and the turn is gone on with or dropped. -/
theorem adds {s' : Fixlet} {turn : TurnKey} {policy : Option EffectivePolicy} (h : Serves begun render s)
    (reports : List TaskEnd) (requests : List Json) (hturn : begun turn policy)
    (hactive : ∀ ctx, s'.activeTurn = some ctx → ctx.key = turn ∨ s.activeTurn = some ctx)
    (hopening : ∀ w, s'.opening = some w → w.ctx.key = turn ∨ s.opening = some w)
    (hemitted : s'.emitted = s.emitted ++ reports) (hreports : ∀ r ∈ reports, r.OnTurn turn)
    (hsent : s'.sent = s.sent ++ requests)
    (hrequests : ∀ request ∈ requests, forwardedHeaders request = [] ∨
      forwardedHeaders request = sessionHeaders render turn policy) : Serves begun render s' where
  active ctx hc := by
    rcases hactive ctx hc with he | ho
    · exact ⟨policy, he ▸ hturn⟩
    · exact h.active ctx ho
  opening w hw := by
    rcases hopening w hw with he | ho
    · exact ⟨policy, he ▸ hturn⟩
    · exact h.opening w ho
  emitted r hr := by
    rw [hemitted] at hr
    rcases List.mem_append.mp hr with hr | hr
    · exact h.emitted r hr
    · exact ⟨turn, policy, hturn, hreports r hr⟩
  sent request hr := by
    rw [hsent] at hr
    rcases List.mem_append.mp hr with hr | hr
    · exact h.sent request hr
    · exact (hrequests request hr).imp id fun he => ⟨turn, policy, hturn, he⟩

end Serves

/-! ## Reports and requests -/

theorem TurnContext.count_key (ctx : TurnContext) : ctx.count.key = ctx.key := by
  unfold TurnContext.count
  split <;> rfl

/-- Every report of a context is on its turn. -/
theorem onTurn_llmInvoked (ctx : TurnContext) (stepId : String) (messages : List Message) :
    (ctx.llmInvoked stepId messages).OnTurn ctx.key := ⟨rfl, rfl⟩

theorem onTurn_llmCompleted (ctx : TurnContext) (stepId : String) (usage : Option LlmUsage) :
    (ctx.llmCompleted stepId usage).OnTurn ctx.key := ⟨rfl, rfl⟩

theorem onTurn_llmFailed (ctx : TurnContext) (stepId errorType errorMessage : String) :
    (ctx.llmFailed stepId errorType errorMessage).OnTurn ctx.key := ⟨rfl, rfl⟩

theorem onTurn_turnExecutionDone (ctx : TurnContext) (finalOutput : String) :
    (ctx.turnExecutionDone finalOutput).OnTurn ctx.key := ⟨rfl, rfl⟩

theorem onTurn_turnExecutionError (ctx : TurnContext) (errorType errorMessage : String) :
    (ctx.turnExecutionError errorType errorMessage).OnTurn ctx.key := ⟨rfl, rfl⟩

section Step

variable {begun : TurnKey → Option EffectivePolicy → Prop} {s : Fixlet} {serde : SerdeJson}
  {name modelPath toolsBankUrl : String} {agentCwd : Option String}

/-- The request for a session of a turn that was begun. -/
theorem Serves.openSession {turn : ParsedExecuteTurn} {ctx : TurnContext} {policy : Option EffectivePolicy}
    (h : Serves begun serde.toString s) (hturn : begun ctx.key policy) (hkey : turn.key = ctx.key)
    (hpolicy : turn.effectivePolicy = some (policyJson policy)) :
    Serves begun serde.toString (s.openSession (fixletConfig serde name modelPath agentCwd toolsBankUrl) turn ctx) := by
  refine h.adds [] [_] hturn (fun _ hc => Or.inr hc) (fun w hw => Or.inl ?_)
    (List.append_nil _).symm (fun _ hr => by cases hr) rfl fun request hr => Or.inr ?_
  · rw [← Option.some.inj hw]
  · rw [List.mem_singleton.mp hr, hpolicy, forwardedHeaders_request]
    have htask : turn.taskId = ctx.key.1 := congrArg Prod.fst hkey
    have hnumber : turn.turnId = ctx.key.2 := congrArg Prod.snd hkey
    rw [htask, hnumber]
    rfl

/-- A turn.begin of a turn that was begun. -/
theorem Serves.executeTurn {content : Json} {turn : TurnKey} {policy : Option EffectivePolicy}
    (h : Serves begun serde.toString s) (hturn : begun turn policy) (hb : Begins content turn policy) (spawned : Bool) :
    Serves begun serde.toString
      (s.executeTurn (fixletConfig serde name modelPath agentCwd toolsBankUrl) content spawned) := by
  unfold Fixlet.executeTurn
  cases hp : parseExecuteTurnPayload content with
  | error err => exact h
  | ok parsed =>
    obtain ⟨hkey, hpolicy⟩ := parse_begins hb hp
    obtain rfl := hkey
    dsimp only
    have hopen : Serves begun serde.toString { s with
        msgAcc := {}
        activeTurn := some { taskId := parsed.taskId, turnId := parsed.turnId, redoGroup := parsed.redoGroup
                             redoCount := parsed.redoCount } } :=
      h.adds [] [] hturn (fun ctx hc => Or.inl (by rw [← Option.some.inj hc]; rfl))
      (fun w hw => Or.inr hw) (List.append_nil _).symm (fun _ hr => by cases hr) (List.append_nil _).symm
      fun _ hr => by cases hr
    split
    · exact hopen.openSession hturn rfl hpolicy
    · split
      · refine Serves.openSession ?_ hturn rfl hpolicy
        refine hopen.adds [] [initializeRequest 1] hturn (fun _ hc => Or.inr hc)
          (fun _ hw => Or.inr hw) (List.append_nil _).symm (fun _ hr => by cases hr) rfl fun request hr => Or.inl ?_
        rw [List.mem_singleton.mp hr]
        rfl
      · exact hopen.adds _ [] hturn (fun _ hc => Or.inr hc) (fun _ hw => Or.inr hw) rfl
          (fun r hr => by rw [List.mem_singleton.mp hr]; exact onTurn_turnExecutionError _ _ _)
          (List.append_nil _).symm fun _ hr => by cases hr

/-- A line while a session is awaited. -/
theorem Serves.awaitSession {w : Opening} {cfg : FixletConfig} (h : Serves begun serde.toString s)
    (hw : s.opening = some w) (json : Option Json) (uuid : String) :
    Serves begun serde.toString (s.awaitSession cfg w json uuid) := by
  obtain ⟨policy, hturn⟩ := h.opening w hw
  unfold Fixlet.awaitSession
  split
  · exact h
  · split
    · refine h.adds [_] [_] hturn (fun ctx hc => Or.inl ?_) (fun _ hw' => by cases hw')
        rfl (fun r hr => ?_) rfl fun request hr => Or.inl ?_
      · rw [← Option.some.inj hc]
        rfl
      · rw [List.mem_singleton.mp hr]
        exact onTurn_llmInvoked _ _ _
      · rw [List.mem_singleton.mp hr]
        rfl
    · exact h

/-- A line of the agent on the turn that is active. -/
theorem Serves.handleAgentMessage {ctx : TurnContext} (h : Serves begun serde.toString s)
    (hc : s.activeTurn = some ctx) (json : Option Json) :
    Serves begun serde.toString (s.handleAgentMessage ctx json) := by
  obtain ⟨policy, hturn⟩ := h.active ctx hc
  -- a closing message goes on with the counted context and reports on its turn
  have hclose : ∀ (s' : Fixlet) (reports : List TaskEnd), s'.activeTurn = some ctx.count → s'.opening = s.opening →
      s'.sent = s.sent → s'.emitted = s.emitted ++ reports → (∀ r ∈ reports, r.OnTurn ctx.count.key) →
      Serves begun serde.toString s' := by
    intro s' reports hactive hopening hsent hemitted hreports
    rw [ctx.count_key] at hreports
    refine h.adds _ [] hturn (fun ctx' hc' => Or.inl ?_) (fun w hw => Or.inr (hopening ▸ hw)) hemitted
      hreports (by rw [hsent, List.append_nil]) fun _ hr => by cases hr
    rw [hactive] at hc'
    rw [← Option.some.inj hc', ctx.count_key]
  unfold Fixlet.handleAgentMessage
  split
  · exact h
  · exact ⟨h.active, h.opening, h.emitted, h.sent⟩
  · exact h
  · exact h
  · refine hclose _ _ rfl rfl rfl (List.append_assoc _ _ _) fun r hr => ?_
    rcases List.mem_append.mp hr with hr | hr
    · obtain ⟨stepId, -, rfl⟩ := Option.map_eq_some_iff.mp (Option.mem_toList.mp hr)
      exact onTurn_llmCompleted _ _ _
    · rw [List.mem_singleton.mp hr]
      exact onTurn_turnExecutionDone _ _
  · refine hclose _ _ rfl rfl rfl rfl fun r hr => ?_
    obtain ⟨stepId, -, rfl⟩ := Option.map_eq_some_iff.mp (Option.mem_toList.mp hr)
    exact onTurn_llmFailed _ _ _ _
  · exact h

/-- The agent process has ended. -/
theorem Serves.agentExited (h : Serves begun serde.toString s) (hnone : s.opening = none) :
    Serves begun serde.toString s.agentExited := by
  unfold Fixlet.agentExited
  cases hc : s.activeTurn with
  | none =>
    refine ⟨fun ctx hctx => (by cases hctx), fun w hw => ?_, fun r hr => h.emitted r (by simpa using hr), h.sent⟩
    rw [show s.opening = some w from hw] at hnone
    cases hnone
  | some ctx =>
    obtain ⟨policy, hturn⟩ := h.active ctx hc
    refine h.adds _ [] hturn (fun _ hctx => by cases hctx) (fun w hw => Or.inr hw) rfl (fun r hr => ?_)
      (List.append_nil _).symm fun _ hr => by cases hr
    rcases List.mem_append.mp hr with hr | hr
    · obtain ⟨stepId, -, rfl⟩ := Option.map_eq_some_iff.mp (Option.mem_toList.mp hr)
      exact ctx.count_key ▸ onTurn_llmFailed _ _ _ _
    · rw [List.mem_singleton.mp hr]
      exact onTurn_turnExecutionError _ _ _

/-- **Whatever comes in, the fixlet speaks of turns that were begun**, if it is given only such turns. -/
theorem Serves.step (h : Serves begun serde.toString s) {input : Input}
    (hi : ∀ content spawned, input = .turnBegin content spawned →
      ∃ turn policy, begun turn policy ∧ Begins content turn policy) :
    Serves begun serde.toString (s.step (fixletConfig serde name modelPath agentCwd toolsBankUrl) input) := by
  cases input with
  | turnBegin content spawned =>
    obtain ⟨turn, policy, hturn, hb⟩ := hi content spawned rfl
    unfold Fixlet.step
    dsimp only
    split
    · exact h.executeTurn hturn hb spawned
    · exact h
  | line json uuid =>
    unfold Fixlet.step
    dsimp only
    split
    · split
      · exact h.awaitSession ‹_› json uuid
      · exact h.handleAgentMessage ‹_› json
      · exact h
    · exact h
  | stdoutClosed =>
    unfold Fixlet.step
    dsimp only
    split
    · rename_i w hw
      obtain ⟨policy, hturn⟩ := h.opening w hw
      exact h.adds _ [] hturn (fun _ hc => Or.inr hc) (fun _ hw' => by cases hw') rfl
        (fun r hr => by rw [List.mem_singleton.mp hr]; exact onTurn_turnExecutionError _ _ _)
        (List.append_nil _).symm fun _ hr => by cases hr
    · exact h
  | exit =>
    unfold Fixlet.step
    dsimp only
    split
    · split
      · exact h.agentExited ‹_›
      · exact h
    · exact h

end Step

/-! ## Tool calls in a session -/

/-- A call is made for the task of its session, if the identifier is a text that a header can carry. -/
theorem taskId_callContext (serde : SerdeJson) (turn : TurnKey) (policy : Option EffectivePolicy)
    (idempotencyKey stepId : String) :
    let ctx := callContext serde (sessionHeaders serde.toString turn policy) idempotencyKey stepId
    ctx.taskId = "unknown" ∨ ctx.taskId = turn.1 := by
  show (headerToStr turn.1).getD "unknown" = _ ∨ (headerToStr turn.1).getD "unknown" = _
  unfold headerToStr
  split
  · exact Or.inr rfl
  · exact Or.inl rfl

/-- **No other policy than that of the session is attached to a call.** -/
theorem attachedPolicy_callContext (serde : SerdeJson) {turn : TurnKey} {policy : Option EffectivePolicy}
    {idempotencyKey stepId : String} {e : EffectivePolicy}
    (h : let ctx := callContext serde (sessionHeaders serde.toString turn policy) idempotencyKey stepId
      attachedPolicy serde (buildInvokeMeta serde ctx.taskId ctx.stepId ctx.effectivePolicy) = some e) :
    policy = some e := by
  have hctx : (callContext serde (sessionHeaders serde.toString turn policy) idempotencyKey stepId).effectivePolicy =
      (headerToStr (serde.toString (policyJson policy))).bind serde.fromStr := rfl
  dsimp only at h
  unfold attachedPolicy at h
  rw [lookup_buildInvokeMeta, hctx] at h
  unfold headerToStr at h
  split at h
  · rw [Option.bind_some] at h
    cases policy with
    | none =>
      -- the header says null, and so does the metadata
      have hnull : serde.fromStr (serde.toString .null) = some .null := serde.fromStr_toString (v := .null) trivial
      rw [show policyJson none = .null from rfl, hnull, Option.map_some, Option.bind_some, hnull] at h
      cases h
    | some p =>
      rw [show policyJson (some p) = p.toJson from rfl, (p.fromStr_toString serde).1, Option.map_some] at h
      exact (p.fromStr_toString_sorted serde).symm.trans h
  · cases h

end Fixus
