import Fixus.ToolsBank.BuildKey
import Fixus.ToolsBank.StepReports
import Fixus.ToolsBank.ToolRegistry

/-!
# Tool calls and their reports

`tools/call` reports that the tool is invoked, runs it, reports how that ended and answers the client. Calls run side by
side and share a counter and the connection to the broker. The broker may refuse a report, or take it without the bank
learning of it; the client may hang up at any time.

- `handleMcp`: the requests of the MCP interface;
- `McpCall.answer`, `McpCall.terminal`: what is made of the result of a tool;
- `ReportingBank.move`: the steps of all calls, in any order;
- `McpCall.Told`: what has been reported on a call in each of its phases;
- `tool_reports_paired`: on a step there is no report, or one that it began, or this and one on its end with a larger
  number, and no two reports have the same number.
-/

namespace Fixus

open Lib

/-! ## Requests and answers -/

structure McpRequest where
  id : Option Int
  method : String
  params : Option Json := none

structure McpErrorBody where
  code : Int
  message : String

structure McpResponse where
  jsonrpc : String := "2.0"
  id : Option Int
  result : Option Json := none
  error : Option McpErrorBody := none

def mcpOk (id : Option Int) (result : Json) : McpResponse := { id, result := some result }

def mcpErr (id : Option Int) (code : Int) (message : String) : McpResponse := { id, error := some ⟨code, message⟩ }

/-- A tool as the clients read it. -/
def ToolDef.toJson (t : ToolDef) : Json :=
  .obj [("name", .str t.name), ("description", .str t.description), ("inputSchema", t.inputSchema)]

def toolsList (tools : List ToolDef) (id : Option Int) : McpResponse :=
  mcpOk id (.obj [("tools", .arr (tools.map ToolDef.toJson))])

/-- What the broker says to a report. -/
inductive Produced where
  | acknowledged
  | unacknowledged (stored : Bool)

def Produced.acked : Produced → Bool
  | .acknowledged => true
  | .unacknowledged _ => false

def Produced.stored : Produced → Bool
  | .acknowledged => true
  | .unacknowledged stored => stored

/-- How far a call is: each phase ends with one access to what is shared, or with the end of the tool. -/
inductive McpPhase where
  | begun
  | opening (localSeq : Int)
  | invoking (opened : Bool)
  | returned (opened : Bool) (outcome : Except InvokeError ToolResult)
  | closing (localSeq : Int) (outcome : Except InvokeError ToolResult)
  | answered (response : McpResponse)
  | dropped

structure McpCall where
  ctx : CallCtx
  tool : String
  args : Json
  id : Option Int
  phase : McpPhase := .begun

/-- The text for the agent: the output, behind the error if the tool has failed. -/
def resultText (serde : SerdeJson) (r : ToolResult) : String :=
  if r.success then serde.toString r.output
  else match r.error with
    | some e => if r.output.isNull then e else e ++ ": " ++ serde.toString r.output
    | none => serde.toString r.output

namespace McpCall

variable (c : McpCall)

/-- The answer to the client. -/
def answer (serde : SerdeJson) : Except InvokeError ToolResult → McpResponse
  | .ok r => mcpOk c.id (.obj [("content", .arr [.obj [("type", .str "text"), ("text", .str (resultText serde r))]]),
      ("isError", .bool !r.success), ("_meta", .obj [("duration_ms", .int r.durationMs)])])
  | .error .notFound => mcpErr c.id (-32602) ("unknown tool: " ++ c.tool)
  | .error (.adapter msg) => mcpErr c.id (-32603) msg

/-- The report that the tool is invoked. The step stands in for the identifier of the call, which is not known here. -/
def opening (localSeq : Int) : StepReport where
  taskId := c.ctx.taskId
  stepId := c.ctx.stepId
  localSeq := localSeq
  body := .toolInvoked c.ctx.turnId c.tool c.ctx.stepId c.ctx.idempotencyKey c.args

/-- The report on the end. That the tool is unknown or its adapter is in trouble counts as a failure, not what the tool
says itself. -/
def terminal (outcome : Except InvokeError ToolResult) (localSeq : Int) : StepReport where
  taskId := c.ctx.taskId
  stepId := c.ctx.stepId
  localSeq := localSeq
  body := match outcome with
    | .ok r => .toolCompleted c.ctx.turnId c.ctx.stepId r.output (!r.success)
    | .error .notFound => .toolFailed c.ctx.turnId c.ctx.stepId "NotFound" ("unknown tool: " ++ c.tool)
    | .error (.adapter msg) => .toolFailed c.ctx.turnId c.ctx.stepId "Adapter" msg

end McpCall

/-- What is done with a request. -/
inductive McpAction where
  | respond (response : McpResponse)
  | call (c : McpCall)

section Requests

variable (sha256Hex : String → String) (serde : SerdeJson)

/-- A call of a tool for the session that the headers name. -/
def toolsCall (headers : List (String × String)) (req : McpRequest) (stepId : String) : McpCall :=
  let tool := ((req.params.bind fun p => p.get "name").bind Json.asStr).getD "?"
  let args := (req.params.bind fun p => p.get "arguments").getD .null
  let taskId := (headerStr headers "X-Fixus-Session-Id").getD "unknown"
  { ctx := callContext serde headers (buildKey sha256Hex serde taskId tool args) stepId
    tool, args, id := req.id }

/-- The methods of the interface. -/
def handleMcp (tools : List ToolDef) (headers : List (String × String)) (req : McpRequest) (stepId : String) :
    McpAction :=
  match req.method with
  | "initialize" => .respond (mcpOk req.id (.obj [("protocolVersion", .str "2024-11-05"),
      ("serverInfo", .obj [("name", .str "tools-bank"), ("version", .str "0.1.0")]),
      ("capabilities", .obj [("tools", .obj [])])]))
  | "tools/list" => .respond (toolsList tools req.id)
  | "tools/call" => .call (toolsCall sha256Hex serde headers req stepId)
  | method => .respond (mcpErr req.id (-32601) ("unknown method: " ++ method))

end Requests

/-! ## All calls together -/

/-- The counter, the calls in the order in which they came, and what lies in the stream of the reports. -/
structure ReportingBank where
  seq : Nat := 0
  calls : List McpCall := []
  emitted : List StepReport := []

/-- What a call meets: the result of its tool, the word of the broker. -/
structure CallEnv where
  outcome : Except InvokeError ToolResult := .error .notFound
  produced : Produced := .acknowledged

inductive CallMove where
  | request (headers : List (String × String)) (req : McpRequest) (stepId : String)
  | advance (i : Nat) (env : CallEnv)
  | hangUp (i : Nat) (stored : Bool)

/-- The number that is made of the counter: `fetch_add(1) as i64 + 1`. -/
def stepSeq (n : Nat) : Int := wrapI64 (n + 1)

namespace ReportingBank

def setPhase (b : ReportingBank) (i : Nat) (c : McpCall) (phase : McpPhase) : ReportingBank :=
  { b with calls := b.calls.set i { c with phase } }

def emit (b : ReportingBank) (p : Produced) (r : StepReport) : ReportingBank :=
  { b with emitted := b.emitted ++ if p.stored then [r] else [] }

/-- A call goes on. -/
def advance (serde : SerdeJson) (b : ReportingBank) (i : Nat) (env : CallEnv) : ReportingBank :=
  match b.calls[i]? with
  | none => b
  | some c =>
    match c.phase with
    | .begun => { b.setPhase i c (.opening (stepSeq b.seq)) with seq := b.seq + 1 }
    | .opening n => (b.setPhase i c (.invoking env.produced.acked)).emit env.produced (c.opening n)
    | .invoking opened => b.setPhase i c (.returned opened env.outcome)
    | .returned opened outcome =>
      -- no end without a beginning
      if opened then { b.setPhase i c (.closing (stepSeq b.seq) outcome) with seq := b.seq + 1 }
      else b.setPhase i c (.answered (c.answer serde outcome))
    | .closing n outcome =>
      (b.setPhase i c (.answered (c.answer serde outcome))).emit env.produced (c.terminal outcome n)
    | .answered _ | .dropped => b

/-- The client has gone: the call is not carried on, but a report that is under way may still be stored. -/
def hangUp (b : ReportingBank) (i : Nat) (stored : Bool) : ReportingBank :=
  match b.calls[i]? with
  | none => b
  | some c =>
    match c.phase with
    | .answered _ | .dropped => b
    | .opening n => (b.setPhase i c .dropped).emit (.unacknowledged stored) (c.opening n)
    | .closing n outcome => (b.setPhase i c .dropped).emit (.unacknowledged stored) (c.terminal outcome n)
    | .begun | .invoking _ | .returned _ _ => b.setPhase i c .dropped

variable (sha256Hex : String → String) (serde : SerdeJson) (tools : List ToolDef)

def move (b : ReportingBank) : CallMove → ReportingBank
  | .request headers req stepId =>
    match handleMcp sha256Hex serde tools headers req stepId with
    | .respond _ => b
    | .call c => { b with calls := b.calls ++ [c] }
  | .advance i env => b.advance serde i env
  | .hangUp i stored => b.hangUp i stored

/-- The reports on a step. -/
def reportsOn (b : ReportingBank) (stepId : String) : List StepReport := b.emitted.filter fun r => r.stepId = stepId

/-- The identifier of a step is new. -/
def FreshStep (b : ReportingBank) : CallMove → Prop
  | .request _ req stepId => req.method = "tools/call" → ∀ c ∈ b.calls, c.ctx.stepId ≠ stepId
  | _ => True

instance FreshStep.decidable (b : ReportingBank) : (m : CallMove) → Decidable (b.FreshStep m)
  | .request _ req stepId =>
    inferInstanceAs (Decidable (req.method = "tools/call" → ∀ c ∈ b.calls, c.ctx.stepId ≠ stepId))
  | .advance _ _ => isTrue trivial
  | .hangUp _ _ => isTrue trivial

end ReportingBank

/-! ## What has been reported -/

/-- The number that a call holds for its next report. -/
def McpPhase.held : McpPhase → Option Int
  | .opening n | .closing n _ => some n
  | _ => none

namespace McpCall

variable (c : McpCall)

/-- No report, the one on the beginning, or this and the one on the end with a larger number. -/
def Paired (outcome : Except InvokeError ToolResult) (rs : List StepReport) : Prop :=
  rs = [] ∨ ∃ n, rs = [c.opening n] ∨ ∃ m, n < m ∧ rs = [c.opening n, c.terminal outcome m]

/-- The reports on a call in its phase. -/
def Told (serde : SerdeJson) (rs : List StepReport) : Prop :=
  match c.phase with
  | .begun | .opening _ => rs = []
  | .invoking opened | .returned opened _ => (opened = false ∧ rs = []) ∨ ∃ n, rs = [c.opening n]
  | .closing m _ => ∃ n < m, rs = [c.opening n]
  | .answered response => ∃ outcome, response = c.answer serde outcome ∧ c.Paired outcome rs
  | .dropped => ∃ outcome, c.Paired outcome rs

/-- In every phase the reports are paired, and the answer is that of the result that was reported. -/
theorem Told.paired {c : McpCall} {serde : SerdeJson} {rs : List StepReport} (h : c.Told serde rs) :
    ∃ outcome, c.Paired outcome rs ∧ ∀ response, c.phase = .answered response → response = c.answer serde outcome := by
  unfold Told at h
  split at h
  · exact ⟨.error .notFound, Or.inl h, fun _ hp => by simp_all⟩
  · exact ⟨.error .notFound, Or.inl h, fun _ hp => by simp_all⟩
  · refine ⟨.error .notFound, ?_, fun _ hp => by simp_all⟩
    rcases h with ⟨-, h⟩ | ⟨n, h⟩
    · exact Or.inl h
    · exact Or.inr ⟨n, Or.inl h⟩
  · refine ⟨.error .notFound, ?_, fun _ hp => by simp_all⟩
    rcases h with ⟨-, h⟩ | ⟨n, h⟩
    · exact Or.inl h
    · exact Or.inr ⟨n, Or.inl h⟩
  · obtain ⟨n, -, h⟩ := h
    exact ⟨.error .notFound, Or.inr ⟨n, Or.inl h⟩, fun _ hp => by simp_all⟩
  · rename_i response hphase
    obtain ⟨outcome, hanswer, h⟩ := h
    refine ⟨outcome, h, fun response' hp => ?_⟩
    rw [hphase] at hp
    injection hp with hp
    rw [← hp, hanswer]
  · obtain ⟨outcome, h⟩ := h
    exact ⟨outcome, h, fun _ hp => by simp_all⟩

end McpCall

/-- Different numbers, none larger than the bound. -/
structure Numbers (bound : Int) (ns : List Int) : Prop where
  nodup : ns.Nodup
  le : ∀ n ∈ ns, n ≤ bound

namespace Numbers

variable {bound n : Int} {ns ms : List Int}

theorem perm (h : Numbers bound ns) (hp : ns.Perm ms) : Numbers bound ms :=
  ⟨hp.nodup_iff.mp h.nodup, fun n hn => h.le n (hp.mem_iff.mpr hn)⟩

theorem tail (h : Numbers bound (n :: ns)) : Numbers bound ns :=
  ⟨h.nodup.of_cons, fun m hm => h.le m (List.mem_cons_of_mem _ hm)⟩

/-- The next number is new. -/
theorem next (h : Numbers bound ns) : Numbers (bound + 1) ((bound + 1) :: ns) where
  nodup := List.nodup_cons.mpr ⟨fun hn => by have := h.le _ hn; omega, h.nodup⟩
  le m hm := by
    rcases List.mem_cons.mp hm with rfl | hm
    · exact le_rfl
    · have := h.le m hm
      omega

end Numbers

namespace ReportingBank

/-- The numbers that were reported or are held. -/
def numbers (b : ReportingBank) : List Int :=
  b.emitted.map StepReport.localSeq ++ b.calls.filterMap fun c => c.phase.held

/-- Each call has a step of its own and what belongs to its phase has been reported on it. -/
structure Kept (serde : SerdeJson) (b : ReportingBank) : Prop where
  steps : (b.calls.map fun c => c.ctx.stepId).Nodup
  owned : ∀ r ∈ b.emitted, ∃ c ∈ b.calls, c.ctx.stepId = r.stepId
  told : ∀ c ∈ b.calls, c.Told serde (b.reportsOn c.ctx.stepId)
  numbers : Numbers b.seq b.numbers

variable {serde : SerdeJson} {b : ReportingBank} {i : Nat} {c : McpCall}

theorem kept_empty : Kept serde {} where
  steps := List.nodup_nil
  owned _ hr := by cases hr
  told _ hc := by cases hc
  numbers := ⟨List.nodup_nil, fun _ hn => by cases hn⟩

/-- A call enters with a step that is new. -/
theorem Kept.enter (h : Kept serde b) (hphase : c.phase = .begun)
    (hfresh : ∀ d ∈ b.calls, d.ctx.stepId ≠ c.ctx.stepId) :
    Kept serde { b with calls := b.calls ++ [c] } where
  steps := by
    rw [List.map_append]
    refine List.nodup_append.mpr ⟨h.steps, List.nodup_singleton _, fun s hs t ht => ?_⟩
    obtain ⟨d, hd, rfl⟩ := List.mem_map.mp hs
    rw [List.mem_singleton.mp ht]
    exact hfresh d hd
  owned r hr := by
    obtain ⟨d, hd, hstep⟩ := h.owned r hr
    exact ⟨d, List.mem_append_left _ hd, hstep⟩
  told d hd := by
    rcases List.mem_append.mp hd with hd | hd
    · exact h.told d hd
    · rw [List.mem_singleton.mp hd]
      unfold McpCall.Told
      rw [hphase]
      refine List.filter_eq_nil_iff.mpr fun r hr hstep => ?_
      obtain ⟨d', hd', hown⟩ := h.owned r hr
      exact hfresh d' hd' (hown.trans (of_decide_eq_true hstep))
  numbers := by
    have hnone : [c].filterMap (fun c => c.phase.held) = [] := by simp [hphase, McpPhase.held]
    show Numbers _ (_ ++ (b.calls ++ [c]).filterMap _)
    rw [List.filterMap_append, hnone, List.append_nil]
    exact h.numbers

/-- **A call goes on** to another phase, with reports on its own step. -/
theorem Kept.goesOn (h : Kept serde b) (hi : b.calls[i]? = some c) (phase : McpPhase) (rs : List StepReport) (seq : Nat)
    (hrs : ∀ r ∈ rs, r.stepId = c.ctx.stepId)
    (htold : { c with phase }.Told serde (b.reportsOn c.ctx.stepId ++ rs))
    (hnum : ∀ others, Numbers b.seq (c.phase.held.toList ++ others) →
      Numbers seq (rs.map StepReport.localSeq ++ (phase.held.toList ++ others))) :
    Kept serde { seq, calls := b.calls.set i { c with phase }, emitted := b.emitted ++ rs } := by
  obtain ⟨hlt, hget⟩ := List.getElem?_eq_some_iff.mp hi
  obtain ⟨l₁, l₂, hcalls, -, hset⟩ : ∃ l₁ l₂, b.calls = l₁ ++ b.calls[i] :: l₂ ∧ l₁.length = i ∧
      b.calls.set i { c with phase } = l₁ ++ { c with phase } :: l₂ := List.exists_of_set hlt
  rw [hget] at hcalls
  rw [hset]
  have hsteps := h.steps
  rw [hcalls] at hsteps
  have hother : ∀ d ∈ l₁ ++ l₂, d.ctx.stepId ≠ c.ctx.stepId := by
    intro d hd heq
    have hmid : (c.ctx.stepId :: (l₁ ++ l₂).map fun c => c.ctx.stepId).Nodup :=
      (List.perm_middle.map _).nodup_iff.mp hsteps
    exact (List.nodup_cons.mp hmid).1 (heq ▸ List.mem_map_of_mem hd)
  have hmem : ∀ d, d ∈ l₁ ++ { c with phase } :: l₂ ↔ d = { c with phase } ∨ d ∈ l₁ ++ l₂ := by
    intro d
    simp only [List.mem_append, List.mem_cons]
    tauto
  refine ⟨by simpa using hsteps, fun r hr => ?_, fun d hd => ?_, ?_⟩
  · rcases List.mem_append.mp hr with hr | hr
    · obtain ⟨d, hd, hstep⟩ := h.owned r hr
      rw [hcalls, List.mem_append, List.mem_cons] at hd
      rcases hd with hd | rfl | hd
      · exact ⟨d, (hmem d).mpr (Or.inr (List.mem_append_left _ hd)), hstep⟩
      · exact ⟨_, (hmem _).mpr (Or.inl rfl), hstep⟩
      · exact ⟨d, (hmem d).mpr (Or.inr (List.mem_append_right _ hd)), hstep⟩
    · exact ⟨_, (hmem _).mpr (Or.inl rfl), (hrs r hr).symm⟩
  · rcases (hmem d).mp hd with rfl | hd
    · have hall : rs.filter (fun r => r.stepId = c.ctx.stepId) = rs :=
        List.filter_eq_self.mpr fun r hr => decide_eq_true (hrs r hr)
      show McpCall.Told _ _ (List.filter _ (_ ++ rs))
      rw [List.filter_append, hall]
      exact htold
    · have hnone : rs.filter (fun r => r.stepId = d.ctx.stepId) = [] :=
        List.filter_eq_nil_iff.mpr fun r hr hstep =>
          hother d hd ((of_decide_eq_true hstep).symm.trans (hrs r hr))
      show McpCall.Told _ _ (List.filter _ (_ ++ rs))
      rw [List.filter_append, hnone, List.append_nil]
      refine h.told d ?_
      rw [hcalls]
      simp only [List.mem_append, List.mem_cons] at hd ⊢
      tauto
  · -- the numbers of the other calls and of the earlier reports stay
    have hheld : ∀ d : McpCall, (l₁ ++ d :: l₂).filterMap (fun c => c.phase.held) =
        l₁.filterMap (fun c => c.phase.held) ++ (d.phase.held.toList ++ l₂.filterMap fun c => c.phase.held) := by
      intro d
      rw [List.filterMap_append, List.filterMap_cons]
      cases d.phase.held <;> rfl
    have hold := h.numbers
    unfold ReportingBank.numbers at hold ⊢
    rw [hcalls, hheld] at hold
    rw [hheld, List.map_append]
    have hnew := hnum (b.emitted.map StepReport.localSeq ++ (l₁ ++ l₂).filterMap fun c => c.phase.held) (hold.perm ?_)
    · refine hnew.perm ?_
      rw [List.filterMap_append, ← Multiset.coe_eq_coe]
      simp only [← Multiset.coe_add]
      ac_rfl
    · rw [List.filterMap_append, ← Multiset.coe_eq_coe]
      simp only [← Multiset.coe_add]
      ac_rfl

/-- The number that is taken next. -/
theorem stepSeq_eq {n : Nat} (h : n + 1 < 2 ^ 63) : stepSeq n = n + 1 := wrapI64_of_inI64 ⟨by omega, by omega⟩

/-- A phase without a report and without a number of its own. -/
theorem Kept.passes (h : Kept serde b) (hi : b.calls[i]? = some c) (phase : McpPhase) (hheld : phase.held = none)
    (htold : { c with phase }.Told serde (b.reportsOn c.ctx.stepId)) : Kept serde (b.setPhase i c phase) := by
  have hgo := h.goesOn hi phase [] b.seq (fun _ hr => by cases hr) (by rwa [List.append_nil]) fun others hn => ?_
  · rwa [List.append_nil] at hgo
  · rw [hheld]
    cases hc : c.phase.held with
    | none =>
      rw [hc] at hn
      exact hn
    | some n =>
      rw [hc] at hn
      exact hn.tail

/-- A number is taken. -/
theorem Kept.takes (h : Kept serde b) (hi : b.calls[i]? = some c) (phase : McpPhase) (hc : c.phase.held = none)
    (hheld : phase.held = some (stepSeq b.seq)) (hseq : b.seq + 1 < 2 ^ 63)
    (htold : { c with phase }.Told serde (b.reportsOn c.ctx.stepId)) :
    Kept serde { b.setPhase i c phase with seq := b.seq + 1 } := by
  have hgo := h.goesOn hi phase [] (b.seq + 1) (fun _ hr => by cases hr) (by rwa [List.append_nil]) fun others hn => ?_
  · rwa [List.append_nil] at hgo
  · rw [hc] at hn
    rw [hheld, stepSeq_eq hseq]
    exact hn.next

/-- The report for which a number was taken is stored, or lost. -/
theorem Kept.reports (h : Kept serde b) (hi : b.calls[i]? = some c) (phase : McpPhase) (p : Produced) (r : StepReport)
    (hc : c.phase.held = some r.localSeq) (hheld : phase.held = none) (hr : r.stepId = c.ctx.stepId)
    (htold : { c with phase }.Told serde (b.reportsOn c.ctx.stepId ++ if p.stored then [r] else [])) :
    Kept serde ((b.setPhase i c phase).emit p r) := by
  refine h.goesOn hi phase (if p.stored then [r] else []) b.seq (fun r' hr' => ?_) htold fun others hn => ?_
  · split at hr'
    · rw [List.mem_singleton.mp hr', hr]
    · cases hr'
  · rw [hc] at hn
    rw [hheld]
    split
    · exact hn
    · exact hn.tail

theorem McpCall.Paired.opening (c : McpCall) (outcome : Except InvokeError ToolResult) (n : Int) (stored : Bool) :
    c.Paired outcome ([] ++ if stored then [c.opening n] else []) := by
  cases stored
  · exact Or.inl rfl
  · exact Or.inr ⟨n, Or.inl rfl⟩

theorem McpCall.Paired.terminal (c : McpCall) (outcome : Except InvokeError ToolResult) {n m : Int} (h : n < m)
    (stored : Bool) : c.Paired outcome ([c.opening n] ++ if stored then [c.terminal outcome m] else []) := by
  cases stored
  · exact Or.inr ⟨n, Or.inl rfl⟩
  · exact Or.inr ⟨n, Or.inr ⟨m, h, rfl⟩⟩

/-- A call goes on, as long as there are numbers. -/
theorem Kept.advance (h : Kept serde b) (env : CallEnv) (hseq : (b.advance serde i env).seq < 2 ^ 63) :
    Kept serde (b.advance serde i env) := by
  unfold ReportingBank.advance at hseq ⊢
  cases hi : b.calls[i]? with
  | none => exact h
  | some c =>
    have htold := h.told c (List.mem_of_getElem? hi)
    unfold McpCall.Told at htold
    rw [hi] at hseq
    dsimp only at hseq ⊢
    cases hphase : c.phase with
    | begun =>
      rw [hphase] at hseq htold
      exact h.takes hi _ (by rw [hphase]; rfl) rfl hseq htold
    | opening n =>
      rw [hphase] at htold
      refine h.reports hi _ env.produced (c.opening n) (by rw [hphase]; rfl) rfl rfl ?_
      dsimp only at htold
      rw [htold]
      cases env.produced with
      | acknowledged => exact Or.inr ⟨n, rfl⟩
      | unacknowledged stored =>
        cases stored
        · exact Or.inl ⟨rfl, rfl⟩
        · exact Or.inr ⟨n, rfl⟩
    | invoking opened =>
      rw [hphase] at htold
      exact h.passes hi _ rfl htold
    | returned opened outcome =>
      rw [hphase] at hseq htold
      cases opened with
      | true =>
        refine h.takes hi _ (by rw [hphase]; rfl) rfl hseq ?_
        rcases htold with ⟨hno, -⟩ | ⟨n, hn⟩
        · cases hno
        · -- the first number is among those that were taken
          refine ⟨n, ?_, hn⟩
          have hmem : c.opening n ∈ b.emitted := (List.mem_filter.mp (hn ▸ List.mem_singleton_self _)).1
          have hle := h.numbers.le n (List.mem_append_left _ (List.mem_map_of_mem hmem))
          rw [stepSeq_eq hseq]
          omega
      | false =>
        refine h.passes hi _ rfl ⟨outcome, rfl, ?_⟩
        rcases htold with ⟨-, hn⟩ | ⟨n, hn⟩
        · exact Or.inl hn
        · exact Or.inr ⟨n, Or.inl hn⟩
    | closing m outcome =>
      rw [hphase] at htold
      obtain ⟨n, hlt, hn⟩ := htold
      refine h.reports hi _ env.produced (c.terminal outcome m) (by rw [hphase]; rfl) rfl rfl ⟨outcome, rfl, ?_⟩
      rw [hn]
      exact McpCall.Paired.terminal c outcome hlt _
    | answered response => exact h
    | dropped => exact h

theorem Kept.hangUp (h : Kept serde b) (stored : Bool) : Kept serde (b.hangUp i stored) := by
  unfold ReportingBank.hangUp
  cases hi : b.calls[i]? with
  | none => exact h
  | some c =>
    have htold := h.told c (List.mem_of_getElem? hi)
    obtain ⟨outcome, hpaired, -⟩ := htold.paired
    unfold McpCall.Told at htold
    dsimp only
    cases hphase : c.phase with
    | opening n =>
      rw [hphase] at htold
      refine h.reports hi _ (.unacknowledged stored) (c.opening n) (by rw [hphase]; rfl) rfl rfl ⟨outcome, ?_⟩
      dsimp only at htold
      rw [htold]
      exact McpCall.Paired.opening c outcome n stored
    | closing m outcome' =>
      rw [hphase] at htold
      obtain ⟨n, hlt, hn⟩ := htold
      refine h.reports hi _ (.unacknowledged stored) (c.terminal outcome' m) (by rw [hphase]; rfl) rfl rfl
        ⟨outcome', ?_⟩
      rw [hn]
      exact McpCall.Paired.terminal c outcome' hlt stored
    | answered response => exact h
    | dropped => exact h
    | _ => exact h.passes hi _ rfl ⟨outcome, hpaired⟩

end ReportingBank

/-! ## Runs -/

section Runs

variable {sha256Hex : String → String} {serde : SerdeJson} {tools : List ToolDef}

namespace ReportingBank

theorem handleMcp_call {headers : List (String × String)} {req : McpRequest} {stepId : String} {c : McpCall}
    (h : handleMcp sha256Hex serde tools headers req stepId = .call c) :
    req.method = "tools/call" ∧ c = toolsCall sha256Hex serde headers req stepId := by
  unfold handleMcp at h
  split at h
  · cases h
  · cases h
  · rename_i hmethod
    exact ⟨hmethod, (McpAction.call.inj h).symm⟩
  · cases h

/-- **A move keeps it**, as long as there are numbers. -/
theorem Kept.move {b : ReportingBank} (h : Kept serde b) {m : CallMove} (hfresh : b.FreshStep m)
    (hseq : (b.move sha256Hex serde tools m).seq < 2 ^ 63) : Kept serde (b.move sha256Hex serde tools m) := by
  cases m with
  | request headers req stepId =>
    unfold ReportingBank.move
    dsimp only
    cases hact : handleMcp sha256Hex serde tools headers req stepId with
    | respond response => exact h
    | call c =>
      obtain ⟨hmethod, rfl⟩ := handleMcp_call hact
      exact h.enter rfl (hfresh hmethod)
  | advance i env => exact h.advance env hseq
  | hangUp i stored => exact h.hangUp stored

/-- A move takes one number at most. -/
theorem seq_move (b : ReportingBank) (m : CallMove) :
    b.seq ≤ (b.move sha256Hex serde tools m).seq ∧ (b.move sha256Hex serde tools m).seq ≤ b.seq + 1 := by
  cases m with
  | request headers req stepId =>
    unfold ReportingBank.move
    dsimp only
    split <;> simp
  | advance i env =>
    show b.seq ≤ (b.advance serde i env).seq ∧ (b.advance serde i env).seq ≤ b.seq + 1
    unfold ReportingBank.advance
    split
    · simp
    · split
      · simp
      · simp [ReportingBank.emit, ReportingBank.setPhase]
      · simp [ReportingBank.setPhase]
      · split <;> simp [ReportingBank.setPhase]
      · simp [ReportingBank.emit, ReportingBank.setPhase]
      · simp
      · simp
  | hangUp i stored =>
    show b.seq ≤ (b.hangUp i stored).seq ∧ (b.hangUp i stored).seq ≤ b.seq + 1
    unfold ReportingBank.hangUp
    split
    · simp
    · split <;> simp [ReportingBank.emit, ReportingBank.setPhase]

theorem seq_run (b : ReportingBank) (moves : List CallMove) :
    (run (ReportingBank.move sha256Hex serde tools) b moves).seq ≤ b.seq + moves.length := by
  induction moves generalizing b with
  | nil => exact le_rfl
  | cons m moves ih =>
    have hmove : (b.move sha256Hex serde tools m).seq ≤ b.seq + 1 := (seq_move b m).2
    have hrest := ih (b.move sha256Hex serde tools m)
    rw [run_cons, List.length_cons]
    omega

end ReportingBank

/-- **Reports come in pairs.** If the identifiers of steps are new and the counter does not wrap around, then no two
reports ever have the same number; every report is on the step of a call; and on the step of a call there is nothing, a
report that it began, or this and then one on its end with a larger number, which tells what the client is told. -/
theorem tool_reports_paired {moves : List CallMove}
    (hfresh : Meets (ReportingBank.move sha256Hex serde tools) ReportingBank.FreshStep {} moves)
    (hfew : moves.length < 2 ^ 63) :
    let b := run (ReportingBank.move sha256Hex serde tools) {} moves
    (b.emitted.map StepReport.localSeq).Nodup ∧
      (∀ r ∈ b.emitted, ∃ c ∈ b.calls, c.ctx.stepId = r.stepId) ∧
      ∀ c ∈ b.calls, ∃ outcome, c.Paired outcome (b.reportsOn c.ctx.stepId) ∧
        ∀ response, c.phase = .answered response → response = c.answer serde outcome := by
  intro b
  have hkept : b.seq < 2 ^ 63 → b.Kept serde := by
    refine run_invariant (fun b => b.seq < 2 ^ 63 → b.Kept serde) (fun b m h hm hseq => ?_)
      (fun _ => ReportingBank.kept_empty) hfresh
    exact (h (Nat.lt_of_le_of_lt (ReportingBank.seq_move b m).1 hseq)).move hm hseq
  have hlen : b.seq ≤ 0 + moves.length := ReportingBank.seq_run {} moves
  have h := hkept (by omega)
  exact ⟨h.numbers.nodup.of_append_left, h.owned, fun c hc => (h.told c hc).paired⟩

end Runs

/-- Two calls side by side. The broker takes the second report without a word, and the client of the second call hangs
up. -/
def sideBySide : List CallMove :=
  let req : McpRequest := { id := some 1, method := "tools/call", params := some (.obj [("name", .str "fixus_read")]) }
  [.request [] req "step_1", .request [] req "step_2", .advance 1 {}, .advance 0 {}, .advance 0 {},
    .advance 1 { produced := .unacknowledged true }, .advance 0 { outcome := .error (.adapter "down") }, .advance 0 {},
    .advance 1 {}, .hangUp 1 false, .advance 0 {}]

theorem tool_reports_paired_sideBySide :
    let b := run (ReportingBank.move id .compact []) {} sideBySide
    b.emitted.map StepReport.localSeq = [2, 1, 3] ∧ (b.emitted.map StepReport.localSeq).Nodup :=
  ⟨by decide +kernel, (tool_reports_paired (by decide +kernel) (by decide +kernel)).1⟩

end Fixus
