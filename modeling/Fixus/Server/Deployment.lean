import Fixus.Fixlet.Serving
import Fixus.Orchestrator.RedoQueue
import Fixus.Server.Gateway
import Fixus.ToolsBank.Contexts
import Fixus.ToolsBank.StepReports

/-!
# The deployment

The server with its gateway, the fixlets and the tools banks, connected by the broker. All of them take turns in any
order; a message may be delivered any number of times, late, or never, and each process may crash and be started over.
The agents are no part of it: what they say and which tools they call, and with which headers, comes from outside.

- `Deployment`, `deploy`: the processes, and what happens next;
- `DeliversStored`, `FromSessions`: what is assumed of the broker and of the agents;
- `InBounds`, `InBounds.deploy`: the invariant of all of them together;
- `reports_name_published_turns`: agents and sandboxes work for turns that the server has published, and it takes a turn
  for completed only then;
- `policies_within_ceiling`: no sandbox is given a policy wider than that of the operator.
-/

namespace Fixus

open Lib Lib.Eff BrokerStore

/-! ## Processes -/

/-- The settings of one fixlet. -/
structure AgentSetup where
  taskType : String := "default"
  backendName : String := "claude-code"
  modelPath : String := "models.currentModelId"
  agentCwd : Option String := none
  toolsBankUrl : String := "http://127.0.0.1:3001/mcp"

/-- The settings of all processes. -/
structure Site where
  cfg : Config := {}
  maxConcurrent : Nat := 6
  operator : CapabilityPolicy := {}
  isAlphanumeric : Char → Bool := Char.isAlphanum
  serde : SerdeJson
  agents : Nat → AgentSetup := fun _ => {}
  regions : Nat → String := fun _ => "default"
  specs : List ToolSpec := []

namespace Site

variable (site : Site)

def fixletConfig (i : Nat) : FixletConfig :=
  Fixus.fixletConfig site.serde (site.agents i).backendName (site.agents i).modelPath (site.agents i).agentCwd
    (site.agents i).toolsBankUrl

def adapter (b : Nat) : SandboxAdapter := { serde := site.serde, region := site.regions b, specs := site.specs }

end Site

/-- The processes, and which turns have ever been published. -/
structure Deployment where
  server : Orchestrator
  fixlets : Nat → Fixlet := fun _ => {}
  banks : Nat → Bank := fun _ => {}
  published : List TurnKey := []

/-- The reads of the gateway and a recovery that it is asked for are taken as one step each. -/
inductive DeployMove where
  -- the gateway
  | request (r : ApiRequest)
  | createSession (headers : List (String × String)) (req : CreateSessionRequest) (uuid createdAt : String)
  | setTenantPolicy (tenantId : String) (policy : CapabilityPolicy)
  | read (taskId : String)
  | applyRecovery (taskId : String) (turnOrder : List Int) (stepOrder : Int → List String)
  -- the orchestrator
  | tick
  | serve (k : Nat) (env : Env)
  | restart
  -- the broker: the outcome of a coming `produce` call, a coming session
  | reply (r : ProduceReply)
  | session (s : Session)
  -- the fixlets: a record of their stream, something of the agent, a crash, a report that is delivered
  | claim (i n : Nat) (spawned : Bool)
  | hear (i : Nat) (input : Input)
  | crash (i : Nat)
  | report (i n : Nat)
  -- the tools banks: a call with its headers, the rest of its way, a crash, a report that is delivered
  | toolCall (b c : Nat) (headers : List (String × String))
      (idempotencyKey stepId tool toolCallId : String) (args : Json)
  | bank (b : Nat) (m : BankMove)
  | crashBank (b : Nat)
  | toolReport (r : StepReport)

/-! ## What happens -/

/-- The turns that were published. -/
def publishedTurns (acts : List Act) : List TurnKey :=
  acts.filterMap fun
    | .published turn _ => some turn
    | _ => none

namespace Deployment

variable (site : Site) (d : Deployment)

def start : Deployment := { server := .start .empty site.maxConcurrent }

def store : BrokerStore := d.server.shared.store

/-- The store is accessed outside of the handlers of the orchestrator. -/
def withStore (s : BrokerStore) : Deployment :=
  { d with server := { d.server with shared := { d.server.shared with store := s } } }

/-- A move of the orchestrator. -/
def serve (m : OMove) : Deployment :=
  { d with
    server := orchestrate site.cfg d.server m
    published := d.published ++ publishedTurns (actsOf site.cfg d.server m) }

/-- A record of the stream `task-end` is given to its handler. -/
def consume (r : TaskEndRecord) : Deployment :=
  match r.instr with
  | some x => d.serve site (.enter x)
  | none => d

def setFixlet (i : Nat) (f : Fixlet) : Deployment := { d with fixlets := Function.update d.fixlets i f }

def setBank (b : Nat) (bank : Bank) : Deployment := { d with banks := Function.update d.banks b bank }

end Deployment

/-- The record of a report of a fixlet. -/
def TaskEnd.record (r : TaskEnd) : TaskEndRecord := { eventType := r.eventType, content := r.payload }

/-- One step of the deployment. What is not there to be delivered or handled changes nothing. -/
def deploy (site : Site) (d : Deployment) : DeployMove → Deployment
  | .request r =>
    match r.instr with
    | .ok x => d.serve site (.enter x)
    | .error _ => d
  | .createSession headers req uuid createdAt =>
    let r := createSession site.isAlphanumeric site.operator headers req uuid createdAt d.store
    match r.1 with
    | .ok c => (d.withStore r.2).serve site (.enter (.call c))
    | .error _ => d.withStore r.2
  | .setTenantPolicy tenantId policy =>
    d.withStore (setTenantPolicyOf site.isAlphanumeric site.operator tenantId policy d.store).2
  | .read taskId => d.withStore (ensureProjection taskId d.store).2
  | .applyRecovery taskId turnOrder stepOrder =>
    d.withStore (recoverTask brokerEventStore taskId turnOrder stepOrder d.store).2
  | .tick => d.serve site (.enter .watchdog)
  | .serve k env => d.serve site (.exec k env)
  | .restart => { d with server := .start { streams := d.store.streams } site.maxConcurrent }
  | .reply r => d.withStore { d.store with produces := d.store.produces ++ [r] }
  | .session s => d.withStore { d.store with sessions := d.store.sessions ++ [s] }
  | .claim i n spawned =>
    match (d.store.streams (taskBeginStream (site.agents i).taskType))[n]? with
    | some r =>
      if r.eventType = "execute_turn" then
        d.setFixlet i ((d.fixlets i).step (site.fixletConfig i) (.turnBegin r.content spawned))
      else d
    | none => d
  | .hear i input =>
    match input with
    | .turnBegin _ _ => d
    | input => d.setFixlet i ((d.fixlets i).step (site.fixletConfig i) input)
  -- what was said before is with the broker and with the agent
  | .crash i => d.setFixlet i { emitted := (d.fixlets i).emitted, sent := (d.fixlets i).sent }
  | .report i n =>
    match (d.fixlets i).emitted[n]? with
    | some r => d.consume site r.record
    | none => d
  | .toolCall b c headers idempotencyKey stepId tool toolCallId args =>
    d.setBank b ((d.banks b).move (site.adapter b)
      (.begin c (callContext site.serde headers idempotencyKey stepId) tool toolCallId args))
  | .bank b m =>
    match m with
    | .begin _ _ _ _ _ => d
    | m => d.setBank b ((d.banks b).move (site.adapter b) m)
  -- the calls and their waiters are gone, the messages are with the broker
  | .crashBank b => d.setBank b { produced := (d.banks b).produced }
  | .toolReport r =>
    match r.body with
    | .toolInvoked _ _ _ _ _ | .toolCompleted _ _ _ _ | .toolFailed _ _ _ _ => d.consume site (r.record site.serde)
    | _ => d

/-! ## The invariant -/

/-- The turn was published, with a policy that was granted or none. -/
def BegunWith (granted : EffectivePolicy → Prop) (published : List TurnKey) (turn : TurnKey)
    (policy : Option EffectivePolicy) : Prop := turn ∈ published ∧ ∀ p, policy = some p → granted p

/-- A call is made for the task of a published turn, if its header could be read, and carries a policy that was granted
or none. -/
structure CallFor (serde : SerdeJson) (granted : EffectivePolicy → Prop) (published : List TurnKey) (ctx : CallCtx) :
    Prop where
  task : ctx.taskId = "unknown" ∨ ∃ turn ∈ published, ctx.taskId = turn.1
  policy : ∀ p, attachedPolicy serde (buildInvokeMeta serde ctx.taskId ctx.stepId ctx.effectivePolicy) = some p →
    granted p

/-- A handler of a turn that is reported done works on a published turn. -/
def Instr.Reported (published : List TurnKey) : Instr → Prop
  | .turnExecutionDone t k _ => (t, k) ∈ published
  | _ => True

/-- All that the processes have written, said and sent belongs to published turns and to policies that were granted. -/
structure InBounds (site : Site) (granted : EffectivePolicy → Prop) (d : Deployment) : Prop where
  server : Ruled granted (· ∈ d.published) d.server
  reported : Everywhere (Instr.Reported d.published) d.server.pool
  fixlets : ∀ i, Serves (BegunWith granted d.published) site.serde.toString (d.fixlets i)
  banks : ∀ b, (d.banks b).OfContexts site.serde (CallFor site.serde granted d.published)

/-- Sessions deliver records that lie in some stream. -/
def DeliversStored (d : Deployment) : DeployMove → Prop
  | .session s => ∀ r, s.Delivers r → ∃ stream, r ∈ d.store.streams stream
  | _ => True

/-- A tool is called with the headers of a session that a fixlet told its agent to open. Whoever calls a tools bank
directly may send others. -/
def FromSessions (d : Deployment) : DeployMove → Prop
  | .toolCall _ _ headers _ _ _ _ _ => ∃ i, ∃ request ∈ (d.fixlets i).sent, headers = forwardedHeaders request
  | _ => True

/-- What is assumed of the broker and of the agents. -/
def Outside (d : Deployment) (m : DeployMove) : Prop := DeliversStored d m ∧ FromSessions d m

/-- No batch brings in a policy that was not granted. -/
def DeployMove.BatchGranted (granted : EffectivePolicy → Prop) : DeployMove → Prop
  | .request r => r.BatchGranted granted
  | _ => True

/-- What comes from outside is as assumed, and no batch brings in a policy that was not granted. -/
def BringsGranted (granted : EffectivePolicy → Prop) (d : Deployment) (m : DeployMove) : Prop :=
  Outside d m ∧ m.BatchGranted granted

/-- Every policy is granted. -/
theorem Outside.bringsGranted {d : Deployment} {m : DeployMove} (h : Outside d m) :
    BringsGranted (fun _ => True) d m := by
  refine ⟨h, ?_⟩
  cases m with
  | request r =>
    cases r with
    | recordEventsBatch taskId events => exact fun _ _ _ _ _ => trivial
    | _ => trivial
  | _ => trivial

variable {site : Site} {granted : EffectivePolicy → Prop} {d : Deployment} {published published' : List TurnKey}

theorem BegunWith.mono (hsub : published ⊆ published') {turn : TurnKey} {policy : Option EffectivePolicy}
    (h : BegunWith granted published turn policy) : BegunWith granted published' turn policy := ⟨hsub h.1, h.2⟩

theorem CallFor.mono {serde : SerdeJson} {ctx : CallCtx} (h : CallFor serde granted published ctx)
    (hsub : published ⊆ published') : CallFor serde granted published' ctx where
  task := by
    rcases h.task with hunknown | ⟨turn, hturn, he⟩
    · exact Or.inl hunknown
    · exact Or.inr ⟨turn, hsub hturn, he⟩
  policy := h.policy

theorem Instr.Reported.mono {x : Instr} (h : x.Reported published) (hsub : published ⊆ published') :
    x.Reported published' := by
  cases x with
  | turnExecutionDone t k out => exact hsub h
  | _ => trivial

theorem mem_publishedTurns {acts : List Act} {turn : TurnKey} (h : Publishes acts turn) :
    turn ∈ publishedTurns acts := by
  obtain ⟨retry, hp⟩ := h
  exact List.mem_filterMap.mpr ⟨_, hp, rfl⟩

/-- The handler of a report whose turn was published works on this turn. -/
theorem TaskEndRecord.reported {r : TaskEndRecord} {turn : TurnKey} {x : Instr}
    (htask : r.content.get "task_id" = some (.str turn.1)) (hnumber : r.content.get "turn_id" = some (.int turn.2))
    (hturn : turn ∈ published) (hx : r.instr = some x) : x.Reported published := by
  have hid : r.taskId = turn.1 := by simp [taskId, Json.text, htask, Json.asStr]
  unfold instr at hx
  split at hx
  · cases hx
  · split at hx
    · split at hx
      · cases hx
      · rename_i hne
        obtain rfl := Option.some.inj hx
        -- a number out of range reads as zero, which is skipped
        have hnum : r.turnId = turn.2 := by
          by_cases hi : InI64 turn.2
          · simp [turnId, Json.num, hnumber, Json.asI64, hi]
          · exact absurd (by simp [turnId, Json.num, hnumber, Json.asI64, hi]) hne
        show (r.taskId, r.turnId) ∈ published
        rw [hid, hnum]
        exact hturn
    · split at hx
      · cases hx
      · obtain rfl := Option.some.inj hx
        trivial
    · split at hx
      · cases hx
      · obtain rfl := Option.some.inj hx
        trivial
    · split at hx
      · cases hx
      · obtain ⟨o, -, rfl⟩ := Option.map_eq_some_iff.mp hx
        trivial

/-- No other record is about the end of a turn. -/
theorem TaskEndRecord.reported_of_ne {r : TaskEndRecord} {x : Instr} (hne : r.eventType ≠ "turn_execution_done")
    (hx : r.instr = some x) : x.Reported published := by
  unfold instr at hx
  split at hx
  · cases hx
  · split at hx
    · exact absurd ‹_› hne
    · split at hx
      · cases hx
      · obtain rfl := Option.some.inj hx
        trivial
    · split at hx
      · cases hx
      · obtain rfl := Option.some.inj hx
        trivial
    · split at hx
      · cases hx
      · obtain ⟨o, -, rfl⟩ := Option.map_eq_some_iff.mp hx
        trivial

theorem StepReport.eventType_ne_done (r : StepReport) : r.eventType.asStr ≠ "turn_execution_done" := by
  unfold StepReport.eventType
  split <;> decide

/-- A report creates no task. -/
theorem TaskEndRecord.rightful {r : TaskEndRecord} {x : Instr} (hx : r.instr = some x) : x.Rightful granted := by
  unfold instr at hx
  split at hx
  · cases hx
  · split at hx
    · split at hx
      · cases hx
      · obtain rfl := Option.some.inj hx
        trivial
    · split at hx
      · cases hx
      · obtain rfl := Option.some.inj hx
        trivial
    · split at hx
      · cases hx
      · obtain rfl := Option.some.inj hx
        exact fun he => by cases he
    · split at hx
      · cases hx
      · obtain ⟨o, ho, rfl⟩ := Option.map_eq_some_iff.mp hx
        unfold stepOp at ho
        dsimp only at ho
        split at ho <;> cases ho <;> exact fun he => by cases he

/-- No instruction comes in from a handler that is about a report. -/
theorem Step.next_reported {cfg : Config} {s : Shared} {x : Instr} {out : Out} (h : Step cfg s x out) :
    ∀ y ∈ out.next ++ out.spawned, y.Reported published := by
  cases h with
  | _ => simp [Instr.Reported, failTaskWithReason, failTurnAndRespond]

/-- No request is a report. -/
theorem ApiRequest.reported {r : ApiRequest} {x : Instr} (hx : r.instr = .ok x) : x.Reported published := by
  rcases ApiRequest.instr_cases hx with ⟨taskId, userInput, redoGroup, rfl⟩ | ⟨o, rfl, -⟩ |
    ⟨_, _, events, -, -, rfl⟩ <;> trivial

section Recovery

variable {s : BrokerStore}

/-- The failures of a recovery are rightful, and the rest of it reads. -/
theorem sealed_recoverTask {turnOrder : List Int} {stepOrder : Int → List String} (taskId : String) :
    KeepsSealed (Rightful granted (· ∈ published)) (HasGranted granted)
      (recoverTask brokerEventStore taskId turnOrder stepOrder) := by
  have hquiet := quietKeep_rightful granted (· ∈ published)
  have hskip : ∀ (k : Int) (steps : List IncompleteStep),
      KeepsSealed (Rightful granted (· ∈ published)) (HasGranted granted)
        (skipSteps brokerEventStore taskId k steps) := by
    intro k steps
    induction steps with
    | nil => exact hquiet.pure ()
    | cons step steps ih =>
      exact hquiet.bind (sealed_rightfulOp (o := Shared.skipStep taskId k step) fun he => by cases he) fun _ => ih
  have heach : ∀ turns : List IncompleteTurn, KeepsSealed (Rightful granted (· ∈ published)) (HasGranted granted)
      (recoverEach brokerEventStore taskId stepOrder turns) := by
    intro turns
    induction turns with
    | nil => exact hquiet.pure []
    | cons turn turns ih =>
      refine hquiet.bind (hquiet.recoverTurn taskId turn (stepOrder turn.turnId)) fun r => ?_
      obtain ⟨decision, ctx⟩ := r
      cases decision with
      | safeToRedo _ _ _ _ => exact hquiet.bind ih fun _ => hquiet.pure _
      | requiresHumanIntervention k _ blocking =>
        refine hquiet.bind (hquiet.bind (hskip k blocking) fun _ => ?_) fun _ => ih
        exact sealed_rightfulOp (o := .failTurn taskId k "recovery_blocked" _ none (some .applicationError))
          fun he => by cases he
  exact hquiet.bind (hquiet.withProjection taskId _) heach

end Recovery

namespace InBounds

theorem start : InBounds site granted (.start site) where
  server := ⟨sealed_empty, fun _ h => by cases h⟩
  reported _ h := by cases h
  fixlets _ := Serves.start
  banks _ := Bank.OfContexts.empty

/-- The store is accessed in a way that keeps its records. -/
theorem withStore (h : InBounds site granted d) {s : BrokerStore}
    (hs : Sealed (Rightful granted (· ∈ d.published)) (HasGranted granted) s) : InBounds site granted (d.withStore s) :=
  ⟨⟨hs, h.server.calls⟩, h.reported, h.fixlets, h.banks⟩

/-- A move of the orchestrator: more turns may be published. -/
theorem serve (h : InBounds site granted d) {m : OMove} (hm : EntersRightful granted m)
    (hr : ∀ x, m = .enter x → x.Reported d.published) : InBounds site granted (d.serve site m) := by
  have hsub : d.published ⊆ d.published ++ publishedTurns (actsOf site.cfg d.server m) := List.subset_append_left _ _
  refine ⟨?_, ?_, fun i => (h.fixlets i).mono fun _ _ => BegunWith.mono hsub,
    fun b => (h.banks b).mono fun _ hc => hc.mono hsub⟩
  · have hmove := h.server.move site.cfg hm
    refine ⟨hmove.store.mono fun r hr => hr.mono fun turn hturn => ?_, hmove.calls⟩
    rcases hturn with hturn | hturn
    · exact hsub hturn
    · exact List.mem_append_right _ (mem_publishedTurns hturn)
  · have hold : Everywhere (Instr.Reported (d.serve site m).published) d.server.pool :=
      fun stack hs y hy => (h.reported stack hs y hy).mono hsub
    show Everywhere _ (orchestrate site.cfg d.server m).pool
    cases m with
    | enter x =>
      show Everywhere _ (if x.isEntry then { d.server with pool := d.server.pool ++ [[x]] } else d.server).pool
      split
      · intro stack hs y hy
        rcases List.mem_append.mp hs with hs | hs
        · exact hold stack hs y hy
        · rw [List.mem_singleton.mp hs] at hy
          rw [List.mem_singleton.mp hy]
          exact (hr x rfl).mono hsub
      · exact hold
    | exec k env =>
      cases hf : fetched d.server (.exec k env : OMove) with
      | none =>
        unfold orchestrate
        rw [move_of_not_fetched hf]
        exact hold
      | some x =>
        obtain ⟨rest, he⟩ := executes_of_fetched (execWith site.cfg) Instr.isEntry hf
        exact he.everywhere hold (exec_step site.cfg env d.server.shared x).next_reported

/-- A record is given to its handler. -/
theorem consume (h : InBounds site granted d) {r : TaskEndRecord}
    (hr : ∀ x, r.instr = some x → x.Reported d.published) : InBounds site granted (d.consume site r) := by
  unfold Deployment.consume
  cases hx : r.instr with
  | none => exact h
  | some x =>
    refine h.serve (m := .enter x) (TaskEndRecord.rightful hx) fun y hy => ?_
    cases hy
    exact hr x hx

theorem setFixlet (h : InBounds site granted d) {i : Nat} {f : Fixlet}
    (hf : Serves (BegunWith granted d.published) site.serde.toString f) : InBounds site granted (d.setFixlet i f) := by
  refine ⟨h.server, h.reported, fun j => ?_, h.banks⟩
  by_cases hj : j = i
  · subst hj
    simpa [Deployment.setFixlet] using hf
  · simpa [Deployment.setFixlet, hj] using h.fixlets j

theorem setBank (h : InBounds site granted d) {b : Nat} {bank : Bank}
    (hb : bank.OfContexts site.serde (CallFor site.serde granted d.published)) :
    InBounds site granted (d.setBank b bank) := by
  refine ⟨h.server, h.reported, h.fixlets, fun c => ?_⟩
  by_cases hc : c = b
  · subst hc
    simpa [Deployment.setBank] using hb
  · simpa [Deployment.setBank, hc] using h.banks c

/-- **No step of the deployment goes out of bounds.** -/
theorem deploy (h : InBounds site granted d) {m : DeployMove} (hm : BringsGranted granted d m)
    (hg : ∀ p, WithinCeiling site.operator p → granted p) : InBounds site granted (deploy site d m) := by
  have hquiet := quietKeep_rightful granted (· ∈ d.published)
  cases m with
  | request r =>
    unfold Fixus.deploy
    dsimp only
    split
    · rename_i x hx
      refine h.serve (m := .enter x) (ApiRequest.rightful hm.2 hx) fun y hy => ?_
      cases hy
      exact ApiRequest.reported hx
    · exact h
  | createSession headers req uuid createdAt =>
    have hspec : wp (createSession site.isAlphanumeric site.operator headers req uuid createdAt)
        (fun c s' => c.Rightful granted ∧ Sealed (Rightful granted (· ∈ d.published)) (HasGranted granted) s')
        (fun _ s' => Sealed (Rightful granted (· ∈ d.published)) (HasGranted granted) s') d.store :=
      createSession_rightful h.server.store hg
    unfold Fixus.deploy
    dsimp only
    cases hr : createSession site.isAlphanumeric site.operator headers req uuid createdAt d.store with
    | mk r s =>
      cases r with
      | error err =>
        have hs := wp_error hspec hr
        exact h.withStore hs
      | ok c =>
        obtain ⟨hc, hs⟩ := wp_ok hspec hr
        refine (h.withStore hs).serve (m := .enter (.call c)) hc fun y hy => ?_
        cases hy
        trivial
  | setTenantPolicy tenantId policy => exact h.withStore (sealed_setTenantPolicyOf _ _ _ h.server.store)
  | read taskId => exact h.withStore (hquiet.ensureProjection taskId _ h.server.store)
  | applyRecovery taskId turnOrder stepOrder => exact h.withStore (sealed_recoverTask taskId _ h.server.store)
  | tick =>
    refine h.serve (m := .enter .watchdog) trivial fun y hy => ?_
    cases hy
    trivial
  | serve k env => exact h.serve (m := .exec k env) trivial fun y hy => by cases hy
  | restart =>
    have hempty : Sealed (Rightful granted (· ∈ d.published)) (HasGranted granted) .empty := sealed_empty
    have hstore : Sealed (Rightful granted (· ∈ d.published)) (HasGranted granted) { streams := d.store.streams } :=
      ⟨h.server.store.streams, hempty.cached, hempty.sessions⟩
    exact ⟨⟨hstore, fun _ hs => (by cases hs)⟩, fun _ hs => (by cases hs), h.fixlets, h.banks⟩
  | reply r => exact h.withStore (h.server.store.congr rfl rfl rfl)
  | session session =>
    refine h.withStore ⟨h.server.store.streams, h.server.store.cached, fun session' hs r hr => ?_⟩
    rcases List.mem_append.mp hs with hs | hs
    · exact h.server.store.sessions session' hs r hr
    · rw [List.mem_singleton.mp hs] at hr
      obtain ⟨stream, hstream⟩ := hm.1.1 r hr
      exact h.server.store.streams stream r hstream
  | claim i n spawned =>
    unfold Fixus.deploy
    dsimp only
    split
    · rename_i r hr
      split
      · rename_i ht
        obtain ⟨turn, policy, hturn, hpolicy, hb⟩ :=
          (h.server.store.streams _ r (List.mem_of_getElem? hr)).begins ht
        refine h.setFixlet ((h.fixlets i).step fun content spawned' he => ?_)
        cases he
        exact ⟨turn, policy, ⟨hturn, hpolicy⟩, hb⟩
      · exact h
    · exact h
  | hear i input =>
    cases input with
    | turnBegin content spawned => exact h
    | line json uuid => exact h.setFixlet ((h.fixlets i).step fun _ _ he => by cases he)
    | stdoutClosed => exact h.setFixlet ((h.fixlets i).step fun _ _ he => by cases he)
    | exit => exact h.setFixlet ((h.fixlets i).step fun _ _ he => by cases he)
  | crash i =>
    have hstart : Serves (BegunWith granted d.published) site.serde.toString {} := Serves.start
    exact h.setFixlet ⟨hstart.active, hstart.opening, (h.fixlets i).emitted, (h.fixlets i).sent⟩
  | report i n =>
    unfold Fixus.deploy
    dsimp only
    split
    · rename_i r hr
      obtain ⟨turn, policy, hturn, hon⟩ := (h.fixlets i).emitted r (List.mem_of_getElem? hr)
      exact h.consume fun x hx => TaskEndRecord.reported hon.task hon.number hturn.1 hx
    · exact h
  | toolCall b c headers idempotencyKey stepId tool toolCallId args =>
    obtain ⟨i, request, hr, rfl⟩ := hm.1.2
    refine h.setBank ((h.banks b).move (a := site.adapter b) ?_)
    show CallFor _ _ _ (callContext site.serde (forwardedHeaders request) idempotencyKey stepId)
    rcases (h.fixlets i).sent request hr with hnone | ⟨turn, policy, hturn, hheaders⟩
    · rw [hnone]
      exact ⟨Or.inl rfl, fun p hp => by cases hp⟩
    · rw [hheaders]
      exact ⟨(taskId_callContext site.serde turn policy idempotencyKey stepId).imp id fun he => ⟨turn, hturn.1, he⟩,
        fun p hp => hturn.2 p (attachedPolicy_callContext site.serde hp)⟩
  | bank b m =>
    cases m with
    | begin c ctx tool toolCallId args => exact h
    | advance c env => exact h.setBank ((h.banks b).move (a := site.adapter b) trivial)
    | deliver rec => exact h.setBank ((h.banks b).move (a := site.adapter b) trivial)
    | hangUp c => exact h.setBank ((h.banks b).move (a := site.adapter b) trivial)
  | crashBank b =>
    have hempty : Bank.OfContexts site.serde (CallFor site.serde granted d.published) {} := Bank.OfContexts.empty
    exact h.setBank ⟨hempty.calls, (h.banks b).produced⟩
  | toolReport r =>
    have hreport : InBounds site granted (d.consume site (r.record site.serde)) :=
      h.consume fun x hx => TaskEndRecord.reported_of_ne r.eventType_ne_done hx
    unfold Fixus.deploy
    dsimp only
    split <;> first | exact hreport | exact h

/-- In every run whose batches bring in no policy that was not granted. -/
theorem run {moves : List DeployMove} (hm : Meets (Fixus.deploy site) (BringsGranted granted) (.start site) moves)
    (hg : ∀ p, WithinCeiling site.operator p → granted p) :
    InBounds site granted (Lib.run (Fixus.deploy site) (.start site) moves) :=
  run_invariant (InBounds site granted) (fun _ _ h hm => h.deploy hm hg) start hm

end InBounds

/-! ## What holds in every run -/

/-- **Agents and sandboxes work for published turns.** Whatever the processes do, whichever of them crash, and however
often or late the broker delivers: every report of a fixlet is on a turn that the server has published, every message to
a sandbox belongs to such a turn, unless its task could not be told, and no turn is taken for done otherwise. -/
theorem reports_name_published_turns {site : Site} {moves : List DeployMove}
    (hm : Meets (deploy site) Outside (.start site) moves) :
    let d := run (deploy site) (.start site) moves
    (∀ i, ∀ r ∈ (d.fixlets i).emitted, ∃ turn ∈ d.published, r.OnTurn turn) ∧
      (∀ b, ∀ m ∈ (d.banks b).produced, m.key = "unknown" ∨ ∃ turn ∈ d.published, m.key = turn.1) ∧
      ∀ stack ∈ d.server.pool, ∀ t k out, .turnExecutionDone t k out ∈ stack → (t, k) ∈ d.published := by
  have hall : Meets (deploy site) (BringsGranted fun _ => True) (.start site) moves :=
    meets_of_invariant (fun _ => True) (fun _ _ _ _ => trivial) (fun _ _ _ h => h.bringsGranted) trivial hm
  have h := InBounds.run hall fun _ _ => trivial
  refine ⟨fun i r hr => ?_, fun b m hmem => ?_, fun stack hs t k out hx => h.reported stack hs _ hx⟩
  · obtain ⟨turn, policy, hturn, hon⟩ := (h.fixlets i).emitted r hr
    exact ⟨turn, hturn.1, hon⟩
  · obtain ⟨ctx, hctx, hkey, -⟩ := (h.banks b).produced m hmem
    rw [hkey]
    exact hctx.task

/-- The readable and the writable paths. -/
def workPolicy (reads writes : List String) : CapabilityPolicy where
  fs :=
    { readPaths := reads.map fun path => { path, trust := .workDir }
      writePaths := writes.map fun path => { path, trust := .workDir } }

/-- An operator that lets agents read and write in one directory. -/
def workSite : Site := { serde := .compact, operator := workPolicy ["/work"] ["/work"] }

/-- What a task gets that asks for a directory of its own. -/
def askedPolicy : EffectivePolicy :=
  resolveEffective workSite.operator (workPolicy ["/work/t"] ["/work/t"]) (workPolicy ["/work/t/a"] []) .reader

/-- What a batch brings in. -/
def broughtPolicy : EffectivePolicy :=
  resolveEffective workSite.operator (workPolicy ["/work/t"] ["/work/t"])
    (workPolicy ["/work/t/b"] ["/work/t/b"]) .reader

/-- The headers of the first turn of a task. -/
def firstTurnHeaders (taskId : String) (policy : EffectivePolicy) : List (String × String) :=
  sessionHeaders SerdeJson.compact.toString (taskId, 1) (some policy)

/-- A session is created, its first turn started, published and claimed, and the agent told to open a session; it
calls a tool. The handlers of the server have the numbers from `k` on. -/
def sessionMoves (uuid : String) (k i call : Nat) (batch : List AgentEventReport) (policy : EffectivePolicy) :
    List DeployMove :=
  [.createSession []
      { agentType := "default", policy := some { policy := some (workPolicy ["/work/t/a"] []) } } uuid "now",
    .serve k {}, .request (.recordEventsBatch ("task_" ++ uuid) batch), .serve (k + 1) {},
    .request (.markReady ("task_" ++ uuid)), .serve (k + 2) {}, .request (.startTurn ("task_" ++ uuid) "hello" none)] ++
  List.replicate 9 (.serve (k + 3) {}) ++
  [.claim i i true, .toolCall 0 call (firstTurnHeaders ("task_" ++ uuid) policy) "key" "step_0" "read" "call_0" .null,
    .bank 0 (.advance call {}), .bank 0 (.advance call {})]

/-- A batch that creates the task once more, with another policy. -/
def broughtBatch : List AgentEventReport :=
  [⟨0, "step_9", "task_created", .obj [("task_type", .str "default"), ("effective_policy", broughtPolicy.toJson)]⟩]

/-- The tenant gets a policy, and two sessions are served, one with such a batch; one agent begins to answer, its report
is delivered, and then everything crashes. -/
def twoSessions : List DeployMove :=
  [.setTenantPolicy "default" (workPolicy ["/work/t"] ["/work/t"])] ++ sessionMoves "u" 0 0 0 [] askedPolicy ++
  sessionMoves "v" 4 1 1 broughtBatch broughtPolicy ++
  [.hear 0 (.line (some (.obj [("id", .int 1), ("result", .obj [("sessionId", .str "s1")])])) "step_1"),
    .session (.refused "down"), .report 0 0, .crash 0, .crashBank 0, .restart]

/-- The moves of a session bring in no policy, except by its batch. -/
theorem grants_sessionMoves {uuid : String} {k i call : Nat} {batch : List AgentEventReport}
    {policy : EffectivePolicy} (hb : (ApiRequest.recordEventsBatch ("task_" ++ uuid) batch).BatchGranted granted) :
    ∀ m ∈ sessionMoves uuid k i call batch policy, DeliversStored d m ∧ m.BatchGranted granted := by
  intro m hm
  simp only [sessionMoves, List.mem_append, List.mem_cons, List.mem_replicate, List.not_mem_nil, or_false] at hm
  rcases hm with ((rfl | rfl | rfl | rfl | rfl | rfl | rfl) | ⟨-, rfl⟩) | rfl | rfl | rfl | rfl
  all_goals first | exact ⟨trivial, trivial⟩ | exact ⟨trivial, hb⟩

theorem grantIn_payload (p : EffectivePolicy) :
    grantIn (.obj [("task_type", .str "default"), ("effective_policy", p.toJson)]) = some p :=
  EffectivePolicy.ofJson_toJson p

/-- The batch brings in a policy within the ceiling. -/
theorem grants_twoSessions : ∀ m ∈ twoSessions,
    DeliversStored d m ∧ m.BatchGranted (WithinCeiling workSite.operator) := by
  have hbatch : (ApiRequest.recordEventsBatch ("task_" ++ "v") broughtBatch).BatchGranted
      (WithinCeiling workSite.operator) := by
    intro report hreport _ p hp
    rw [List.mem_singleton.mp hreport] at hp
    obtain rfl := Option.some.inj ((grantIn_payload broughtPolicy).symm.trans hp)
    exact withinCeiling_resolve _ _ _ _
  have hrest : ∀ m ∈ ([.hear 0 (.line (some (.obj [("id", .int 1), ("result", .obj [("sessionId", .str "s1")])]))
      "step_1"), .session (.refused "down"), .report 0 0, .crash 0, .crashBank 0, .restart] : List DeployMove),
      DeliversStored d m ∧ m.BatchGranted (WithinCeiling workSite.operator) := by
    intro m hm
    simp only [List.mem_cons, List.not_mem_nil, or_false] at hm
    rcases hm with rfl | rfl | rfl | rfl | rfl | rfl
    all_goals first | exact ⟨trivial, trivial⟩ | exact ⟨fun _ h => h.elim, trivial⟩
  unfold twoSessions
  refine List.forall_mem_append.mpr ⟨List.forall_mem_append.mpr ⟨List.forall_mem_append.mpr ⟨?_, ?_⟩, ?_⟩, hrest⟩
  · intro m hm
    rw [List.mem_singleton.mp hm]
    exact ⟨trivial, trivial⟩
  · exact grants_sessionMoves fun _ hreport => by cases hreport
  · exact grants_sessionMoves hbatch

/-- A tool is called with headers that one of two fixlets gave out. -/
def FromFixlets (d : Deployment) : DeployMove → Prop
  | .toolCall _ _ headers _ _ _ _ _ => ∃ i ∈ [0, 1], ∃ request ∈ (d.fixlets i).sent, headers = forwardedHeaders request
  | _ => True

instance FromFixlets.decidable (d : Deployment) (m : DeployMove) : Decidable (FromFixlets d m) := by
  cases m <;> unfold FromFixlets <;> infer_instance

/-- The agents of the run send the headers that they were told to. -/
theorem fromFixlets_twoSessions : Meets (deploy workSite) FromFixlets (.start workSite) twoSessions := by
  decide +kernel

theorem bringsGranted_twoSessions :
    Meets (deploy workSite) (BringsGranted (WithinCeiling workSite.operator)) (.start workSite) twoSessions := by
  refine meets_iff.mpr fun pre m post he => ?_
  obtain ⟨hdelivers, hbatch⟩ := grants_twoSessions m (he ▸ List.mem_append_right _ List.mem_cons_self)
  refine ⟨⟨hdelivers, ?_⟩, hbatch⟩
  have hfrom := meets_iff.mp fromFixlets_twoSessions pre m post he
  cases m with
  | toolCall b c headers idempotencyKey stepId tool toolCallId args =>
    obtain ⟨i, -, hi⟩ := hfrom
    exact ⟨i, hi⟩
  | _ => trivial

theorem outside_twoSessions : Meets (deploy workSite) Outside (.start workSite) twoSessions :=
  meets_of_invariant (fun _ => True) (fun _ _ _ _ => trivial) (fun _ _ _ hm => hm.1) trivial bringsGranted_twoSessions

/-- The first theorem at this run. -/
theorem reports_name_published_turns_twoSessions :
    let d := run (deploy workSite) (.start workSite) twoSessions
    (d.fixlets 0).emitted.map TaskEnd.eventType = ["llm_invoked"] ∧
      (d.banks 0).produced.map InvokeMessage.key = ["task_u", "task_v"] ∧ d.published = [("task_u", 1), ("task_v", 1)] ∧
      (∀ i, ∀ r ∈ (d.fixlets i).emitted, ∃ turn ∈ d.published, r.OnTurn turn) ∧
      (∀ b, ∀ m ∈ (d.banks b).produced, m.key = "unknown" ∨ ∃ turn ∈ d.published, m.key = turn.1) ∧
      ∀ stack ∈ d.server.pool, ∀ t k out, .turnExecutionDone t k out ∈ stack → (t, k) ∈ d.published :=
  ⟨by decide +kernel, by decide +kernel, by decide +kernel, reports_name_published_turns outside_twoSessions⟩

end Fixus
