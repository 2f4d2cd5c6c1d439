import Fixus.Orchestrator.Grants
import Fixus.Orchestrator.TaskEnd
import Fixus.Policy.Subset
import Fixus.Store.TenantPolicy
import Fixus.ToolsBank.PolicyHeader

/-!
# The gateway

The handlers of the HTTP requests that change something: what is taken from the path, the headers and the body, with
which defaults, and what is asked of the service. Two of them look at policies before they write.

- `ApiRequest.instr`: the requests that become an instruction of the orchestrator, or are refused;
- `createSession`, `setTenantPolicyOf`: the two handlers that hold a policy against a ceiling;
- `WithinCeiling`, `createSession_rightful`: no session is created with a policy wider than that of the operator;
- `ApiRequest.rightful`: of the other requests only a batch can bring in a policy of its own.

Routing, the encoding of the answers and the requests that only read are left out.
-/

namespace Fixus

open Lib Lib.Eff BrokerStore

/-! ## Requests -/

/-- What the creator of a task asks for. -/
structure TaskPolicyRequest where
  agentRole : AgentRole := .reader
  policy : Option CapabilityPolicy := none

structure CreateSessionRequest where
  agentType : String
  taskType : Option String := none
  body : Option Json := none
  priority : Int := 0
  policy : Option TaskPolicyRequest := none

structure RecordEventRequest where
  turnId : Option Int
  stepId : String
  eventType : String
  payload : Json := .null

structure AgentEventReport where
  turnId : Int
  stepId : String
  eventType : String
  payload : Json := .null

/-- The requests on one task that change something, with their decoded bodies. -/
inductive ApiRequest where
  | endSession (taskId : String) (body : Json)
  | markReady (taskId : String)
  | startTurn (taskId userInput : String) (redoGroup : Option String)
  | completeTurn (taskId : String) (turnId : Int) (finalOutput : String)
  | cancelTurn (taskId : String) (turnId : Int) (body : Json)
  | failTurn (taskId : String) (turnId : Int) (body : Json)
  | recordEvent (taskId : String) (req : RecordEventRequest)
  | recordEventsBatch (taskId : String) (events : List AgentEventReport)
  | writeSummary (taskId : String) (body : Json)

/-- Why a request is refused before anything is asked of the service. -/
inductive ApiError where
  | invalidEventType (name : String)
  | validation (message : String)
  deriving DecidableEq, Repr

/-! ## Handlers -/

/-- A field that has to be there. -/
def required {α : Type} (field : String) : Option α → Except ApiError α
  | some a => .ok a
  | none => .error (.validation (field ++ " is required"))

/-- An event of a batch. -/
def AgentEventReport.event (taskId : String) (report : AgentEventReport) : Except ApiError AgentEvent :=
  match EventType.fromStr report.eventType with
  | none => .error (.invalidEventType report.eventType)
  | some eventType => .ok (AgentEvent.new taskId (some report.turnId) (some report.stepId) eventType report.payload)

/-- What a request asks of the service. -/
def ApiRequest.instr : ApiRequest → Except ApiError Instr
  | .endSession taskId body => .ok (.call (.op (.cancelTask taskId (body.text "reason" "client_requested"))))
  | .markReady taskId => .ok (.call (.op (.markTaskReady taskId)))
  | .startTurn taskId userInput redoGroup => .ok (.executeTurn taskId userInput redoGroup)
  | .completeTurn taskId turnId finalOutput => .ok (.call (.op (.completeTurn taskId turnId finalOutput)))
  | .cancelTurn taskId turnId body =>
    .ok (.call (.op (.cancelTurn taskId turnId (body.text "reason" "user_canceled"))))
  | .failTurn taskId turnId body =>
    let errorType := body.text "error_type" "unknown"
    .ok (.call (.op (.failTurn taskId turnId errorType (body.text "error_message" "No error message")
      ((body.get "stack_trace").bind Json.asStr) (some (classifyFailure errorType)))))
  | .recordEvent taskId req =>
    match EventType.fromStr req.eventType with
    | none => .error (.invalidEventType req.eventType)
    | some eventType => .ok (.call (.op (.recordEvent taskId req.turnId (some req.stepId) eventType req.payload)))
  | .recordEventsBatch taskId events => do
    let events ← events.mapM fun report => report.event taskId
    return .call (.writeEventsBatch events)
  | .writeSummary taskId body => do
    let turnId ← required "summarized_up_to_turn_id" ((body.get "summarized_up_to_turn_id").bind Json.asI64)
    let seq ← required "summarized_up_to_seq" ((body.get "summarized_up_to_seq").bind Json.asI64)
    let summary ← required "summary" ((body.get "summary").bind Json.asStr)
    return .call (.op (.writeSummaryMarker taskId turnId seq summary (body.num "covered_event_count")))

/-- The numbers of violations of each kind, in the text of an error. -/
def SubsetViolation.counts (v : SubsetViolation) : String :=
  toString v.fsReadViolations.length ++ " fs_read_violation(s), " ++ toString v.fsWriteViolations.length ++
    " fs_write_violation(s), " ++ toString v.netViolations.length ++ " net_violation(s)"

section Policies

variable (isAlphanumeric : Char → Bool) (operator : CapabilityPolicy)

/-- Where a session comes from. -/
def apiProvenance (tenantId userId createdAt : String) : Provenance where
  sourceChannel := "api"
  sourceUserId := some userId
  sourceTenantId := some tenantId
  createdAt := createdAt
  createdBy := "api"

/-- The creation of a session up to the call that writes it: the policy is resolved against what the tenant has now. -/
def createSession (headers : List (String × String)) (req : CreateSessionRequest) (uuid createdAt : String) :
    StoreM BrokerStore Call := do
  let tenantId := (headerStr headers "X-Fixus-Tenant-Id").getD "default"
  let userId := (headerStr headers "X-Fixus-User-Id").getD ""
  let tenantPolicy ← (brokerTenantPolicies isAlphanumeric).get tenantId
  let taskReq := req.policy.getD {}
  match resolveAndValidate operator (tenantPolicy.getD {}) (taskReq.policy.getD {}) taskReq.agentRole with
  | .error v => fail (.policyViolation ("task policy exceeds tenant ceiling: " ++ v.counts))
  | .ok effective =>
    pure (.createTask uuid (req.taskType.getD req.agentType) (apiProvenance tenantId userId createdAt) req.body
      req.priority (some effective))

/-- A tenant gets a policy that is within that of the operator. -/
def setTenantPolicyOf (tenantId : String) (policy : CapabilityPolicy) : StoreM BrokerStore Unit :=
  match validateSubset policy operator with
  | .error v => fail (.policyViolation ("tenant policy exceeds operator ceiling: " ++ v.counts))
  | .ok () => (brokerTenantPolicies isAlphanumeric).set tenantId policy

end Policies

/-! ## The ceiling of the operator -/

/-- The policy goes nowhere beyond that of the operator; a reader has no network and writes in work directories only. -/
structure WithinCeiling (operator : CapabilityPolicy) (p : EffectivePolicy) : Prop where
  capabilities : NoWider { fs := p.fs, net := p.net } operator
  network : p.agentRole = .reader → p.net.egress = []
  writes : p.agentRole = .reader → ∀ s ∈ p.fs.writePaths, s.trust = .workDir

/-- **What is resolved is within the ceiling**, whatever the tenant has and the task asks for. -/
theorem withinCeiling_resolve (operator tenant task : CapabilityPolicy) (role : AgentRole) :
    WithinCeiling operator (resolveEffective operator tenant task role) := by
  obtain ⟨hread, hwrite, hnet⟩ := roleNarrow_sub
    { fs := intersectFs (intersectFs operator.fs tenant.fs) task.fs
      net := intersectNet (intersectNet operator.net tenant.net) task.net
      agentRole := role } role
  have hrole : (resolveEffective operator tenant task role).agentRole = role := by cases role <;> rfl
  refine ⟨⟨fun p hp => ?_, fun p hp => ?_, fun r hr => ?_⟩, fun h => ?_, fun h s hs => ?_⟩
  · exact (covered_intersectSet₂ (hp.mono fun s hs => hread ▸ hs)).1
  · exact (covered_intersectSet₂ (hp.mono hwrite)).1
  · exact (mem_intersectNet.mp (mem_intersectNet.mp (hnet r hr)).1).1
  · rw [hrole] at h
    subst h
    rfl
  · rw [hrole] at h
    subst h
    simpa using (List.mem_filter.mp hs).2

section Rightful

variable {isAlphanumeric : Char → Bool} {operator : CapabilityPolicy} {granted : EffectivePolicy → Prop}
  {published : TurnKey → Prop} {s : BrokerStore}

/-- Reading the policy of a tenant keeps the records and the projections. -/
theorem sealed_getTenantPolicy {L : Record → Prop} {V : TaskProjection → Prop} (tenantId : String) :
    KeepsSealed L V ((brokerTenantPolicies isAlphanumeric).get tenantId) := by
  intro s h
  refine wp_state (P := Sealed L V) ?_
  show wp (BrokerStore.getTenantPolicy isAlphanumeric tenantId) _ _ s
  unfold BrokerStore.getTenantPolicy readLatestStreamContent
  have hdecode : ∀ (content : Option Json) (s' : BrokerStore), Sealed L V s' →
      wp (decodeTenantPolicy content) (fun _ => Sealed L V) (fun _ => Sealed L V) s' := by
    intro content s' h'
    unfold decodeTenantPolicy
    split
    · exact h'
    · split <;> exact h'
  rw [wp_bind, wp_bind, wp_mapErr]
  cases hss : s.sessions with
  | nil =>
    have hnext : ∀ stream, nextSession stream s = (.ok (healthySession (s.streams stream)), s) := fun stream => by
      unfold nextSession
      rw [hss]
    unfold wp
    rw [hnext]
    exact hdecode _ s h
  | cons session rest =>
    have hnext : ∀ stream, nextSession stream s = (.ok session, { s with sessions := rest }) := fun stream => by
      unfold nextSession
      rw [hss]
    have h' : Sealed L V { s with sessions := rest } :=
      ⟨h.streams, h.cached, fun session' hs' => h.sessions session' (hss ▸ List.mem_cons_of_mem _ hs')⟩
    unfold wp
    rw [hnext]
    cases session with
    | refused msg => exact h'
    | open_ shards frames leaveErr => exact hdecode _ _ h'

/-- **A session is created with a policy within the ceiling**, or not at all. -/
theorem createSession_rightful {headers : List (String × String)} {req : CreateSessionRequest} {uuid createdAt : String}
    (h : Sealed (Rightful granted published) (HasGranted granted) s) (hg : ∀ p, WithinCeiling operator p → granted p) :
    wp (createSession isAlphanumeric operator headers req uuid createdAt)
      (fun c s' => c.Rightful granted ∧ Sealed (Rightful granted published) (HasGranted granted) s')
      (fun _ s' => Sealed (Rightful granted published) (HasGranted granted) s') s := by
  unfold createSession
  dsimp only
  rw [wp_bind]
  refine wp_mono (wp_of_state (sealed_getTenantPolicy _ s h)) (fun tenantPolicy s₁ h₁ => ?_) fun _ s₁ h₁ => h₁
  split
  · exact h₁
  · rename_i effective heff
    obtain ⟨-, rfl⟩ := resolveAndValidate_ok.mp heff
    refine ⟨fun p hp => ?_, h₁⟩
    rw [← Option.some.inj hp]
    exact hg _ (withinCeiling_resolve _ _ _ _)

/-- Setting the policy of a tenant writes a record that creates no task and begins no turn. -/
theorem sealed_setTenantPolicyOf (tenantId : String) (policy : CapabilityPolicy) :
    KeepsSealed (Rightful granted published) (HasGranted granted)
      (setTenantPolicyOf isAlphanumeric operator tenantId policy) := by
  intro s h
  refine wp_state (P := Sealed (Rightful granted published) (HasGranted granted)) ?_
  unfold setTenantPolicyOf
  split
  · exact h
  · show wp (BrokerStore.setTenantPolicy isAlphanumeric tenantId policy) _ _ s
    unfold BrokerStore.setTenantPolicy
    dsimp only
    rw [wp_bind, wp_mapErr]
    have htype : ("tenant_policy" : String) ≠ "execute_turn" := by decide
    exact sealed_produce h (fun seq => rightful_of_ne (fun ht => by cases ht) htype) (fun _ _ h' => h') fun _ _ h' => h'

/-- The batch of a request brings in no policy of its own, except one that was granted. -/
def ApiRequest.BatchGranted (granted : EffectivePolicy → Prop) : ApiRequest → Prop
  | .recordEventsBatch _ events => ∀ report ∈ events, EventType.fromStr report.eventType = some .taskCreated →
      ∀ p, grantIn report.payload = some p → granted p
  | _ => True

end Rightful

/-! ## What the requests become -/

theorem except_bind_eq_ok {ε α β : Type} {m : Except ε α} {f : α → Except ε β} {b : β} (h : m >>= f = .ok b) :
    ∃ a, m = .ok a ∧ f a = .ok b := by
  cases m with
  | error err => cases h
  | ok a => exact ⟨a, rfl, h⟩

/-- The events of a batch come from its reports. -/
theorem mem_of_mapM_ok {α β ε : Type} {f : α → Except ε β} {as : List α} {bs : List β} (h : as.mapM f = .ok bs) :
    ∀ b ∈ bs, ∃ a ∈ as, f a = .ok b := by
  induction as generalizing bs with
  | nil =>
    obtain rfl := Except.ok.inj h
    intro b hb
    cases hb
  | cons a as ih =>
    rw [List.mapM_cons] at h
    obtain ⟨b, ha, h⟩ := except_bind_eq_ok h
    obtain ⟨bs', hrest, h⟩ := except_bind_eq_ok h
    obtain rfl := Except.ok.inj h
    intro c hc
    rcases List.mem_cons.mp hc with rfl | hc
    · exact ⟨a, List.mem_cons_self, ha⟩
    · obtain ⟨a', ha', hf⟩ := ih hrest c hc
      exact ⟨a', List.mem_cons_of_mem _ ha', hf⟩

/-- **The table of the requests**: a turn is started, an event is written, which creates no task unless it has a step,
or a batch is. -/
theorem ApiRequest.instr_cases {r : ApiRequest} {x : Instr} (hx : r.instr = .ok x) :
    (∃ taskId userInput redoGroup, x = .executeTurn taskId userInput redoGroup) ∨
    (∃ o : Op, x = .call (.op o) ∧ (o.eventType = .taskCreated → o.turnId ≠ none ∨ o.stepId ≠ none)) ∨
    ∃ taskId reports events, r = .recordEventsBatch taskId reports ∧
      reports.mapM (fun report => report.event taskId) = .ok events ∧ x = .call (.writeEventsBatch events) := by
  cases r with
  | startTurn taskId userInput redoGroup => exact Or.inl ⟨taskId, userInput, redoGroup, (Except.ok.inj hx).symm⟩
  | recordEvent taskId req =>
    simp only [ApiRequest.instr] at hx
    split at hx
    · cases hx
    · exact Or.inr (Or.inl ⟨_, (Except.ok.inj hx).symm, fun _ => Or.inr (Option.some_ne_none _)⟩)
  | recordEventsBatch taskId reports =>
    simp only [ApiRequest.instr] at hx
    obtain ⟨events, hm, hx⟩ := except_bind_eq_ok hx
    exact Or.inr (Or.inr ⟨taskId, reports, events, rfl, hm, (Except.ok.inj hx).symm⟩)
  | writeSummary taskId body =>
    simp only [ApiRequest.instr] at hx
    obtain ⟨turnId, -, hx⟩ := except_bind_eq_ok hx
    obtain ⟨seq, -, hx⟩ := except_bind_eq_ok hx
    obtain ⟨summary, -, hx⟩ := except_bind_eq_ok hx
    exact Or.inr (Or.inl ⟨_, (Except.ok.inj hx).symm, fun he => by cases he⟩)
  | _ => exact Or.inr (Or.inl ⟨_, (Except.ok.inj hx).symm, fun he => by cases he⟩)

/-- **The other requests bring in no policy**: a single event has a step, and the creation of a task has none. -/
theorem ApiRequest.rightful {granted : EffectivePolicy → Prop} {r : ApiRequest} {x : Instr}
    (hr : r.BatchGranted granted) (hx : r.instr = .ok x) : x.Rightful granted := by
  rcases ApiRequest.instr_cases hx with ⟨taskId, userInput, redoGroup, rfl⟩ | ⟨o, rfl, ho⟩ |
    ⟨taskId, reports, events, rfl, hm, rfl⟩
  · trivial
  · exact ho
  · intro e he hcreated p hp
    obtain ⟨report, hreport, hevent⟩ := mem_of_mapM_ok hm e he
    unfold AgentEventReport.event at hevent
    split at hevent
    · cases hevent
    · rename_i et het
      obtain rfl := Except.ok.inj hevent
      have hcreated' : et = .taskCreated := hcreated
      exact hr report hreport (hcreated' ▸ het) p hp

end Fixus
