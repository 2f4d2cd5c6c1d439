import Fixus.Orchestrator.Machine

/-!
# The turn.begin message

How the fixlet reads the message that starts a turn. Every field but the two identifiers has a default, so a field
that does not decode is not an error.

- `TurnBeginFields.ofJson`, `parseExecuteTurnPayload`: the fields as they are found, and with their defaults;
- `parse_buildTurnBeginPayload`: what the orchestrator builds is read back whole, by no default.
-/

namespace Fixus

/-- The fields of a turn.begin that are there and decode. -/
structure TurnBeginFields where
  sessionId : Option String
  turnId : Option Int
  userInput : Option String
  redoGroup : Option String
  redoCount : Option Int
  summary : Option String
  messages : Option (List Message)
  effectivePolicy : Option Json

def TurnBeginFields.ofJson (payload : Json) : TurnBeginFields where
  sessionId := (payload.get "session_id").bind Json.asStr
  turnId := (payload.get "turn_id").bind Json.asI64
  userInput := ((payload.get "input").bind fun v => v.get "user_input").bind Json.asStr
  redoGroup := (payload.get "redo_group").bind Json.asStr
  redoCount := (payload.get "redo_count").bind Json.asI64
  summary := ((payload.get "context").bind fun v => v.get "summary").bind Json.asStr
  -- an absent list is read from null, which is no list
  messages := messagesOfJson (((payload.get "context").bind fun v => v.get "messages").getD .null)
  effectivePolicy := payload.get "effective_policy"

/-- A turn as the fixlet understands it; the policy is not looked into. -/
structure ParsedExecuteTurn where
  taskId : String
  turnId : Int
  userInput : String
  redoGroup : String
  redoCount : Int
  summary : String
  messages : List Message
  effectivePolicy : Option Json

/-- Read a turn.begin: the identifiers are required, the other fields have defaults. -/
def parseExecuteTurnPayload (payload : Json) : Except String ParsedExecuteTurn :=
  let f := TurnBeginFields.ofJson payload
  let taskId := f.sessionId.getD ""
  let turnId := f.turnId.getD 0
  if taskId.isEmpty || turnId = 0 then .error "missing session_id or turn_id"
  else .ok
    { taskId, turnId
      userInput := f.userInput.getD ""
      redoGroup := f.redoGroup.getD ""
      redoCount := wrapI32 (f.redoCount.getD 0)
      summary := f.summary.getD ""
      messages := f.messages.getD []
      effectivePolicy := f.effectivePolicy }

/-- The policy of a turn on the wire: null when there is none. -/
def policyJson (policy : Option EffectivePolicy) : Json := (policy.map EffectivePolicy.toJson).getD .null

section RoundTrip

variable {taskId userInput redoGroup : String} {turnId redoCount : Int} {ctx : LlmContext}
  {policy : Option EffectivePolicy}

theorem messagesOfJson_toJson (messages : List Message) :
    messagesOfJson (.arr (messages.map Message.toJson)) = some messages := decodeAll_map Message.ofJson_toJson messages

/-- Every field of a built message is there and decodes to what it was built from. -/
theorem fields_buildTurnBeginPayload (hturn : InI64 turnId) (hcount : InI64 redoCount) :
    TurnBeginFields.ofJson (buildTurnBeginPayload taskId turnId userInput ctx redoGroup redoCount policy) =
      { sessionId := some taskId, turnId := some turnId, userInput := some userInput, redoGroup := some redoGroup
        redoCount := some redoCount, summary := some ctx.summary, messages := some ctx.messages
        effectivePolicy := some (policyJson policy) } := by
  have hm := messagesOfJson_toJson ctx.messages
  simp [TurnBeginFields.ofJson, buildTurnBeginPayload, Json.get, Json.getField, Json.asStr, hturn, hcount,
    hm, policyJson]

/-- A policy on the wire decodes to itself; the absence of one is null. -/
theorem ofJson_policyJson (policy : Option EffectivePolicy) :
    (policy = none → policyJson policy = .null) ∧ ∀ p, policy = some p → policyJson policy = p.toJson ∧
      EffectivePolicy.ofJson (policyJson policy) = some p := by
  refine ⟨fun h => by rw [h]; rfl, fun p h => ?_⟩
  subst h
  exact ⟨rfl, EffectivePolicy.ofJson_toJson p⟩

/-- A built message is read as it was built. -/
theorem parse_ok (htask : taskId ≠ "") (hne : turnId ≠ 0) (hturn : InI64 turnId) (hcount : InI32 redoCount) :
    parseExecuteTurnPayload (buildTurnBeginPayload taskId turnId userInput ctx redoGroup redoCount policy) =
      .ok { taskId, turnId, userInput, redoGroup, redoCount, summary := ctx.summary, messages := ctx.messages
            effectivePolicy := some (policyJson policy) } := by
  unfold parseExecuteTurnPayload
  simp [fields_buildTurnBeginPayload hturn hcount.inI64, htask, hne, wrapI32_of_inI32 hcount]

/-- The fixlet reads a turn as the orchestrator wrote it, and no field falls back to its default. -/
theorem parse_buildTurnBeginPayload (taskId : String) (turnId : Int) (userInput : String) (ctx : LlmContext)
    (redoGroup : String) (redoCount : Int) (policy : Option EffectivePolicy) (htask : taskId ≠ "") (hne : turnId ≠ 0)
    (hturn : InI64 turnId) (hcount : InI32 redoCount) :
    let payload := buildTurnBeginPayload taskId turnId userInput ctx redoGroup redoCount policy
    parseExecuteTurnPayload payload =
        .ok { taskId, turnId, userInput, redoGroup, redoCount, summary := ctx.summary, messages := ctx.messages
              effectivePolicy := some (policyJson policy) } ∧
      TurnBeginFields.ofJson payload =
        { sessionId := some taskId, turnId := some turnId, userInput := some userInput, redoGroup := some redoGroup
          redoCount := some redoCount, summary := some ctx.summary, messages := some ctx.messages
          effectivePolicy := some (policyJson policy) } ∧
      (policy = none → policyJson policy = .null) ∧
      ∀ p, policy = some p → policyJson policy = p.toJson ∧ EffectivePolicy.ofJson (policyJson policy) = some p := by
  intro payload
  have hfields : TurnBeginFields.ofJson payload = _ := fields_buildTurnBeginPayload hturn hcount.inI64
  exact ⟨parse_ok htask hne hturn hcount, hfields, ofJson_policyJson policy⟩

/-- A turn that is done again, with a message of the past and a policy. -/
theorem parse_buildTurnBeginPayload_redo :
    let policy : EffectivePolicy := { fs := {}, net := {}, agentRole := .reader }
    parseExecuteTurnPayload (buildTurnBeginPayload "task_1" 2 "go on"
        { summary := "so far", messages := [{ role := "user", content := "hi" }] } "rg_1" 1 (some policy)) =
      .ok { taskId := "task_1", turnId := 2, userInput := "go on", redoGroup := "rg_1", redoCount := 1
            summary := "so far", messages := [{ role := "user", content := "hi" }]
            effectivePolicy := some policy.toJson } :=
  (parse_buildTurnBeginPayload "task_1" 2 "go on"
    { summary := "so far", messages := [{ role := "user", content := "hi" }] } "rg_1" 1
    (some { fs := {}, net := {}, agentRole := .reader }) (by decide) (by decide) (by decide) (by decide)).1

end RoundTrip

end Fixus
