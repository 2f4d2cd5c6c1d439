import Fixus.Lib.Run
import Fixus.Orchestrator.TaskEnd
import Fixus.ToolsBank.PolicyHeader

/-!
# Pending calls of the sandbox

A call enters the sending end of a channel under its step, sends a message to the sandbox and waits on the channel. The
consumer of the results takes the sending end for the step of a result out and sends the result on it. Calls and
consumer take turns in any order.

- `Bank.advance`, `Bank.deliver`: the atomic steps of a call and of the consumer;
- `CallOk`: what holds of one call at any time;
- `calls_sound`: with new steps for new calls, a call returns a result of its own step or none, once, no result is
  returned to two, and a call that has returned has left no entry.

A call whose client has gone is dropped where it stands; its entry stays.
-/

namespace Fixus

/-! ## The call -/

/-- A tool, as far as its timeout goes. -/
structure ToolSpec where
  name : String
  defaultTimeoutSecs : Nat

def defaultTimeout (toolName : String) (allTools : List ToolSpec) : Nat :=
  ((allTools.find? fun s => s.name = toolName).map ToolSpec.defaultTimeoutSecs).getD 30

def sandboxPayload (taskId toolName toolCallId : String) (args : Json) (idempotencyKey : String) (timeoutSecs : Nat) :
    Json :=
  .obj [("step_type", .str "tool_call"), ("tool_name", .str toolName), ("tool_call_id", .str toolCallId),
    ("idempotency_key", .str idempotencyKey), ("input", args), ("local_seq", .int 0), ("session_id", .str taskId),
    ("timeout_ms", .int ((max (timeoutSecs - 5) 5 * 1000 % 2 ^ 64 : Nat) : Int))]

/-- A message to the sandbox. -/
structure InvokeMessage where
  stream : String
  eventType : String
  content : Json
  key : String
  metadata : List (String × String)

/-- What the sandbox makes of a call. -/
structure PendingToolResult where
  success : Bool
  output : Json
  error : Option String
  durationMs : Nat

structure ToolResult where
  success : Bool
  output : Json
  error : Option String
  durationMs : Nat

def PendingToolResult.toToolResult (r : PendingToolResult) : ToolResult :=
  { success := r.success, output := r.output, error := r.error, durationMs := r.durationMs }

/-- A channel for one value. The value carries the place of the record it was made from. -/
inductive OneShot where
  | empty
  | sent (source : Nat) (r : PendingToolResult)
  | closed

/-- How far a call is: each phase ends with one access to what is shared. -/
inductive CallPhase where
  | begun
  | registered
  | waiting
  | leaving (message : String)
  | returned (result : Except String ToolResult) (source : Option Nat)
  | dropped

structure BankCall where
  ctx : CallCtx
  tool : String
  toolCallId : String
  args : Json
  phase : CallPhase := .begun
  chan : OneShot := .empty

/-- A record of the result stream, its content already decoded (undecodable content is null). -/
structure ResultRecord where
  eventType : String
  content : Json

/-- `as_u64`. -/
def Json.asU64 : Json → Option Nat
  | .int n => if 0 ≤ n ∧ n < 2 ^ 64 then some n.toNat else none
  | _ => none

/-- The step and the result in a record, if it is one of a result. -/
def ResultRecord.result (r : ResultRecord) : Option (String × PendingToolResult) :=
  if r.eventType ≠ "tool_result" then none
  else
    let stepId := ((r.content.index "step_id").asStr).getD ""
    if stepId = "" then none
    else some (stepId,
      { success := ((r.content.index "success").asBool).getD false
        output := r.content.index "output"
        error := (r.content.index "error").asStr
        durationMs := ((r.content.index "duration_ms").asU64).getD 0 })

/-! ## The bank -/

/-- The calls by number, whose sending end stands under which step, and what was sent and delivered. -/
structure Bank where
  calls : Finmap fun _ : Nat => BankCall := ∅
  pending : Finmap fun _ : String => Nat := ∅
  produced : List InvokeMessage := []
  delivered : List ResultRecord := []

/-- What the adapter is configured with. -/
structure SandboxAdapter where
  serde : SerdeJson
  region : String
  specs : List ToolSpec

/-- What a call may meet: an error of the broker, and the end of its time. -/
structure InvokeEnv where
  produceError : Option String := none
  elapsed : Bool := false

namespace Bank

def setCall (b : Bank) (i : Nat) (call : BankCall) : Bank := { b with calls := b.calls.insert i call }

/-- The sending end under the step is dropped. -/
def dropSender (b : Bank) (stepId : String) : Bank :=
  match b.pending.lookup stepId with
  | none => b
  | some j =>
    match b.calls.lookup j with
    | some other =>
      match other.chan with
      | .empty => b.setCall j { other with chan := .closed }
      | _ => b
    | none => b

/-- The message of a call to the sandbox. -/
def invokeMessage (a : SandboxAdapter) (call : BankCall) : InvokeMessage where
  stream := "tool-invoke-" ++ a.region
  eventType := "tool_invoked"
  content := sandboxPayload call.ctx.taskId call.tool call.toolCallId call.args call.ctx.idempotencyKey
    (defaultTimeout call.tool a.specs)
  key := call.ctx.taskId
  metadata := buildInvokeMeta a.serde call.ctx.taskId call.ctx.stepId call.ctx.effectivePolicy

/-- One atomic step of a call. -/
def advance (a : SandboxAdapter) (b : Bank) (i : Nat) (env : InvokeEnv) : Bank :=
  match b.calls.lookup i with
  | none => b
  | some call =>
    match call.phase with
    | .begun =>
      -- the receiving end is there before the message goes out
      let b' := (b.dropSender call.ctx.stepId).setCall i { call with phase := .registered }
      { b' with pending := b'.pending.insert call.ctx.stepId i }
    | .registered =>
      match env.produceError with
      | none =>
        { b.setCall i { call with phase := .waiting } with produced := b.produced ++ [invokeMessage a call] }
      | some e => b.setCall i { call with phase := .leaving ("broker produce failed: " ++ e) }
    | .waiting =>
      match call.chan with
      | .sent source r => b.setCall i { call with phase := .returned (.ok r.toToolResult) (some source) }
      | .closed => b.setCall i { call with phase := .leaving "pending channel closed" }
      | .empty =>
        if env.elapsed then
          b.setCall i { call with
            phase := .leaving ("sandbox timeout after " ++ toString (defaultTimeout call.tool a.specs) ++ "s") }
        else b
    | .leaving message =>
      let b' := (b.dropSender call.ctx.stepId).setCall i { call with phase := .returned (.error message) none }
      { b' with pending := b'.pending.erase call.ctx.stepId }
    | .returned _ _ => b
    | .dropped => b

/-- The consumer is given a record. -/
def deliver (b : Bank) (rec : ResultRecord) : Bank :=
  let b' := { b with delivered := b.delivered ++ [rec] }
  match rec.result with
  | none => b'
  | some (stepId, r) =>
    match b.pending.lookup stepId with
    | none => b'
    | some i =>
      match b.calls.lookup i with
      | some call =>
        { b'.setCall i { call with chan := .sent b.delivered.length r } with pending := b.pending.erase stepId }
      | none => { b' with pending := b.pending.erase stepId }

/-- The client of a call goes away; nobody waits for it any more. -/
def hangUp (b : Bank) (i : Nat) : Bank :=
  match b.calls.lookup i with
  | none => b
  | some call =>
    match call.phase with
    | .returned _ _ => b
    | _ => b.setCall i { call with phase := .dropped }

end Bank

inductive BankMove where
  | begin (i : Nat) (ctx : CallCtx) (tool toolCallId : String) (args : Json)
  | advance (i : Nat) (env : InvokeEnv)
  | deliver (rec : ResultRecord)
  | hangUp (i : Nat)

def Bank.move (a : SandboxAdapter) (b : Bank) : BankMove → Bank
  | .begin i ctx tool toolCallId args => b.setCall i { ctx, tool, toolCallId, args }
  | .advance i env => b.advance a i env
  | .deliver rec => b.deliver rec
  | .hangUp i => b.hangUp i

/-- A new call has a number and a step of its own. -/
def FreshStep (b : Bank) : BankMove → Prop
  | .begin i ctx _ _ _ =>
    b.calls.lookup i = none ∧ ∀ j call, b.calls.lookup j = some call → call.ctx.stepId ≠ ctx.stepId
  | _ => True

/-- The calls that have returned: each with a result of its own step or an error, no result with two of them, and no
entry left. -/
structure CallsSound (b : Bank) : Prop where
  own : ∀ i call r source, b.calls.lookup i = some call → call.phase = .returned (.ok r) source →
    ∃ n rec pr, source = some n ∧ b.delivered[n]? = some rec ∧ rec.result = some (call.ctx.stepId, pr) ∧
      r = pr.toToolResult
  apart : ∀ i j call call' r r' n n' rec, b.calls.lookup i = some call → b.calls.lookup j = some call' →
    call.phase = .returned (.ok r) (some n) → call'.phase = .returned (.ok r') (some n') →
    b.delivered[n]? = some rec → b.delivered[n']? = some rec → i = j
  clean : ∀ i call result source, b.calls.lookup i = some call → call.phase = .returned result source →
    b.pending.lookup call.ctx.stepId = none

/-- What a call has returned stays. -/
def StaysReturned (b b' : Bank) : Prop :=
  ∀ i call result source, b.calls.lookup i = some call → call.phase = .returned result source →
    b'.calls.lookup i = some call

/-! ## The invariant -/

/-- Nothing was sent to the call and its sending end is entered, or a result of its step was sent and the entry is
gone. -/
def Awaits (b : Bank) (i : Nat) (call : BankCall) : Prop :=
  (call.chan = .empty ∧ b.pending.lookup call.ctx.stepId = some i) ∨
    ∃ n rec r, call.chan = .sent n r ∧ b.delivered[n]? = some rec ∧ rec.result = some (call.ctx.stepId, r) ∧
      b.pending.lookup call.ctx.stepId = none

/-- What holds of a call in each phase. -/
def CallOk (b : Bank) (i : Nat) (call : BankCall) : Prop :=
  match call.phase with
  | .begun => b.pending.lookup call.ctx.stepId = none ∧ call.chan = .empty
  | .registered => Awaits b i call
  | .waiting => Awaits b i call
  | .leaving _ => True
  | .returned result source => b.pending.lookup call.ctx.stepId = none ∧ ∀ r, result = .ok r →
      ∃ n rec pr, source = some n ∧ b.delivered[n]? = some rec ∧ rec.result = some (call.ctx.stepId, pr) ∧
        r = pr.toToolResult
  | .dropped => True

/-- Calls have steps of their own, entries belong to calls, and every call is in order. -/
structure BankOk (b : Bank) : Prop where
  distinct : ∀ i j call call', b.calls.lookup i = some call → b.calls.lookup j = some call' →
    call.ctx.stepId = call'.ctx.stepId → i = j
  owner : ∀ s i, b.pending.lookup s = some i → ∃ call, b.calls.lookup i = some call ∧ call.ctx.stepId = s
  ok : ∀ i call, b.calls.lookup i = some call → CallOk b i call

variable {a : SandboxAdapter} {b b' : Bank} {i : Nat} {call call' : BankCall}

@[simp] theorem Bank.calls_setCall (b : Bank) (i : Nat) (call : BankCall) :
    (b.setCall i call).calls = b.calls.insert i call := rfl

@[simp] theorem Bank.pending_setCall (b : Bank) (i : Nat) (call : BankCall) :
    (b.setCall i call).pending = b.pending := rfl

@[simp] theorem Bank.delivered_setCall (b : Bank) (i : Nat) (call : BankCall) :
    (b.setCall i call).delivered = b.delivered := rfl

/-- A call is in order as long as its entry stays as it is and no delivery is forgotten. -/
theorem CallOk.mono (h : CallOk b i call)
    (hp : b'.pending.lookup call.ctx.stepId = b.pending.lookup call.ctx.stepId)
    (hd : ∀ (n : Nat) rec, b.delivered[n]? = some rec → b'.delivered[n]? = some rec) : CallOk b' i call := by
  have hawait : Awaits b i call → Awaits b' i call := by
    rintro (⟨hc, he⟩ | ⟨n, rec, r, hc, hn, hr, he⟩)
    · exact Or.inl ⟨hc, hp.trans he⟩
    · exact Or.inr ⟨n, rec, r, hc, hd n rec hn, hr, hp.trans he⟩
  unfold CallOk at h ⊢
  split at h
  · exact ⟨hp.trans h.1, h.2⟩
  · exact hawait h
  · exact hawait h
  · trivial
  · refine ⟨hp.trans h.1, fun r hr => ?_⟩
    obtain ⟨n, rec, pr, hs, hn, hrest⟩ := h.2 r hr
    exact ⟨n, rec, pr, hs, hd n rec hn, hrest⟩
  · trivial

/-- **One call changes**, and of the entries only its own. -/
theorem BankOk.update (h : BankOk b) (hi : b.calls.lookup i = some call) (hcalls : b'.calls = b.calls.insert i call')
    (hstep : call'.ctx.stepId = call.ctx.stepId)
    (hother : ∀ s, s ≠ call.ctx.stepId → b'.pending.lookup s = b.pending.lookup s)
    (hown : ∀ j, b'.pending.lookup call.ctx.stepId = some j → j = i)
    (hd : ∀ (n : Nat) rec, b.delivered[n]? = some rec → b'.delivered[n]? = some rec) (hok : CallOk b' i call') :
    BankOk b' := by
  -- what a call was before, in its step
  have hold : ∀ j c, b'.calls.lookup j = some c → ∃ c₀, b.calls.lookup j = some c₀ ∧ c₀.ctx.stepId = c.ctx.stepId ∧
      (j ≠ i → c₀ = c) := by
    intro j c hc
    rw [hcalls] at hc
    by_cases hj : j = i
    · subst hj
      rw [Finmap.lookup_insert, Option.some.injEq] at hc
      subst hc
      exact ⟨call, hi, hstep.symm, fun hne => absurd rfl hne⟩
    · rw [Finmap.lookup_insert_of_ne _ hj] at hc
      exact ⟨c, hc, rfl, fun _ => rfl⟩
  refine ⟨fun j k c c' hj hk heq => ?_, fun s j hs => ?_, fun j c hj => ?_⟩
  · obtain ⟨c₀, hc₀, hs₀, -⟩ := hold j c hj
    obtain ⟨c₁, hc₁, hs₁, -⟩ := hold k c' hk
    exact h.distinct j k c₀ c₁ hc₀ hc₁ (by rw [hs₀, hs₁, heq])
  · by_cases hsi : s = call.ctx.stepId
    · subst hsi
      rw [hown j hs, hcalls]
      exact ⟨call', Finmap.lookup_insert _, hstep⟩
    · rw [hother s hsi] at hs
      obtain ⟨c, hc, hcs⟩ := h.owner s j hs
      have hj : j ≠ i := by
        rintro rfl
        rw [hi, Option.some.injEq] at hc
        exact hsi (hc ▸ hcs.symm)
      exact ⟨c, by rw [hcalls, Finmap.lookup_insert_of_ne _ hj, hc], hcs⟩
  · by_cases hji : j = i
    · subst hji
      rw [hcalls, Finmap.lookup_insert, Option.some.injEq] at hj
      exact hj ▸ hok
    · obtain ⟨c₀, hc₀, hs₀, hsame⟩ := hold j c hj
      obtain rfl := hsame hji
      have hne : c₀.ctx.stepId ≠ call.ctx.stepId := fun heq => hji (h.distinct j i c₀ call hc₀ hi heq)
      exact (h.ok j c₀ hc₀).mono (hother _ hne) hd

/-- A change of phase alone. -/
theorem BankOk.setCall (h : BankOk b) (hi : b.calls.lookup i = some call) (hstep : call'.ctx.stepId = call.ctx.stepId)
    (hok : CallOk b i call') : BankOk (b.setCall i call') := by
  refine h.update hi rfl hstep (fun _ _ => rfl) (fun j hj => ?_) (fun _ _ hn => hn)
    (hok.mono rfl fun _ _ hn => hn)
  obtain ⟨c, hc, hcs⟩ := h.owner _ j hj
  exact h.distinct j i c call hc hi hcs

/-- Without an entry there is no sending end to drop. -/
theorem Bank.dropSender_of_none {s : String} (h : b.pending.lookup s = none) : b.dropSender s = b := by
  unfold Bank.dropSender
  rw [h]

/-- The only sending end under the step of a call is its own. -/
theorem BankOk.dropSender_setCall (h : BankOk b) (hi : b.calls.lookup i = some call) :
    (b.dropSender call.ctx.stepId).setCall i call' = b.setCall i call' := by
  unfold Bank.dropSender
  cases hp : b.pending.lookup call.ctx.stepId with
  | none => rfl
  | some j =>
    obtain ⟨c, hc, hcs⟩ := h.owner _ j hp
    obtain rfl := h.distinct j i c call hc hi hcs
    simp only [hc]
    split
    · simp [Bank.setCall, Finmap.insert_insert]
    · rfl

theorem BankOk.advance (h : BankOk b) (a : SandboxAdapter) (i : Nat) (env : InvokeEnv) :
    BankOk (b.advance a i env) := by
  unfold Bank.advance
  cases hi : b.calls.lookup i with
  | none => exact h
  | some call =>
    have hcall := h.ok i call hi
    unfold CallOk at hcall
    cases hphase : call.phase with
    | begun =>
      simp only [hphase] at hcall ⊢
      rw [Bank.dropSender_of_none hcall.1]
      refine h.update hi rfl rfl (fun s hs => Finmap.lookup_insert_of_ne _ hs) (fun j hj => ?_)
        (fun _ _ hn => hn) ?_
      · rw [Finmap.lookup_insert] at hj
        exact (Option.some.inj hj).symm
      · exact Or.inl ⟨hcall.2, Finmap.lookup_insert _⟩
    | registered =>
      simp only [hphase] at hcall ⊢
      cases env.produceError with
      | none =>
        have hok : BankOk (b.setCall i { call with phase := .waiting }) := h.setCall hi rfl hcall
        exact ⟨hok.distinct, hok.owner, fun j c hj => (hok.ok j c hj).mono rfl fun _ _ hn => hn⟩
      | some e => exact h.setCall hi rfl trivial
    | waiting =>
      simp only [hphase] at hcall ⊢
      cases hchan : call.chan with
      | empty =>
        dsimp only
        split
        · exact h.setCall hi rfl trivial
        · exact h
      | closed => exact h.setCall hi rfl trivial
      | sent source r =>
        rcases hcall with ⟨hc, -⟩ | ⟨n, rec, r', hc, hn, hr, hp⟩
        · rw [hchan] at hc
          cases hc
        · rw [hchan] at hc
          injection hc with hsource hres
          subst hsource hres
          refine h.setCall hi rfl ⟨hp, fun r'' hr'' => ?_⟩
          injection hr'' with hr''
          exact ⟨source, rec, r, rfl, hn, hr, hr''.symm⟩
    | leaving message =>
      simp only [hphase]
      rw [h.dropSender_setCall hi]
      refine h.update hi rfl rfl (fun s hs => Finmap.lookup_erase_ne hs) (fun j hj => ?_) (fun _ _ hn => hn) ?_
      · rw [Finmap.lookup_erase] at hj
        cases hj
      · exact ⟨Finmap.lookup_erase _ _, fun r hr => by cases hr⟩
    | returned result source =>
      simp only [hphase]
      exact h
    | dropped =>
      simp only [hphase]
      exact h

theorem BankOk.deliver (h : BankOk b) (rec : ResultRecord) : BankOk (b.deliver rec) := by
  have hd : ∀ (n : Nat) rec', b.delivered[n]? = some rec' → (b.delivered ++ [rec])[n]? = some rec' := by
    intro n rec' hn
    rw [List.getElem?_append_left (List.getElem?_eq_some_iff.mp hn).1, hn]
  have hskip : BankOk { b with delivered := b.delivered ++ [rec] } :=
    ⟨h.distinct, h.owner, fun j c hj => (h.ok j c hj).mono rfl hd⟩
  unfold Bank.deliver
  cases hr : rec.result with
  | none => exact hskip
  | some sr =>
    obtain ⟨stepId, r⟩ := sr
    dsimp only
    cases hp : b.pending.lookup stepId with
    | none => exact hskip
    | some i =>
      obtain ⟨call, hi, rfl⟩ := h.owner stepId i hp
      simp only [hi]
      refine h.update hi rfl rfl (fun s hs => Finmap.lookup_erase_ne hs) (fun j hj => ?_) hd ?_
      · rw [Finmap.lookup_erase] at hj
        cases hj
      · have hcall := h.ok i call hi
        have hsent : Awaits { b with
            calls := b.calls.insert i { call with chan := .sent b.delivered.length r }
            pending := b.pending.erase call.ctx.stepId
            delivered := b.delivered ++ [rec] } i { call with chan := .sent b.delivered.length r } :=
          Or.inr ⟨b.delivered.length, rec, r, rfl, by simp, hr, Finmap.lookup_erase _ _⟩
        unfold CallOk at hcall ⊢
        cases hphase : call.phase with
        | begun =>
          simp only [hphase] at hcall
          rw [hcall.1] at hp
          cases hp
        | registered => exact hsent
        | waiting => exact hsent
        | leaving message => trivial
        | returned result source =>
          simp only [hphase] at hcall
          rw [hcall.1] at hp
          cases hp
        | dropped => trivial

theorem BankOk.begin (h : BankOk b) {ctx : CallCtx} (hi : b.calls.lookup i = none)
    (hfresh : ∀ j call, b.calls.lookup j = some call → call.ctx.stepId ≠ ctx.stepId) (tool toolCallId : String)
    (args : Json) : BankOk (b.setCall i { ctx, tool, toolCallId, args }) := by
  have hnone : b.pending.lookup ctx.stepId = none := by
    cases hp : b.pending.lookup ctx.stepId with
    | none => rfl
    | some j =>
      obtain ⟨c, hc, hcs⟩ := h.owner _ j hp
      exact absurd hcs (hfresh j c hc)
  refine ⟨fun j k c c' hj hk heq => ?_, fun s j hs => ?_, fun j c hj => ?_⟩
  · rw [Bank.calls_setCall] at hj hk
    by_cases hji : j = i <;> by_cases hki : k = i
    · rw [hji, hki]
    · subst hji
      rw [Finmap.lookup_insert, Option.some.injEq] at hj
      rw [Finmap.lookup_insert_of_ne _ hki] at hk
      exact absurd heq.symm (hj ▸ hfresh k c' hk)
    · subst hki
      rw [Finmap.lookup_insert, Option.some.injEq] at hk
      rw [Finmap.lookup_insert_of_ne _ hji] at hj
      exact absurd heq (hk ▸ hfresh j c hj)
    · rw [Finmap.lookup_insert_of_ne _ hji] at hj
      rw [Finmap.lookup_insert_of_ne _ hki] at hk
      exact h.distinct j k c c' hj hk heq
  · obtain ⟨c, hc, hcs⟩ := h.owner s j hs
    have hji : j ≠ i := by
      rintro rfl
      rw [hi] at hc
      cases hc
    exact ⟨c, by rw [Bank.calls_setCall, Finmap.lookup_insert_of_ne _ hji, hc], hcs⟩
  · rw [Bank.calls_setCall] at hj
    by_cases hji : j = i
    · subst hji
      rw [Finmap.lookup_insert, Option.some.injEq] at hj
      subst hj
      exact ⟨hnone, rfl⟩
    · rw [Finmap.lookup_insert_of_ne _ hji] at hj
      exact (h.ok j c hj).mono rfl fun _ _ hn => hn

theorem BankOk.hangUp (h : BankOk b) (i : Nat) : BankOk (b.hangUp i) := by
  unfold Bank.hangUp
  cases hi : b.calls.lookup i with
  | none => exact h
  | some call =>
    dsimp only
    split
    · exact h
    · exact h.setCall hi rfl trivial

theorem BankOk.move (h : BankOk b) (a : SandboxAdapter) {m : BankMove} (hm : FreshStep b m) : BankOk (b.move a m) := by
  cases m with
  | begin i ctx tool toolCallId args => exact h.begin hm.1 hm.2 tool toolCallId args
  | advance i env => exact h.advance a i env
  | deliver rec => exact h.deliver rec
  | hangUp i => exact h.hangUp i

/-- At most one call changes, and that one had not returned. -/
def ChangesOpen (b b' : Bank) : Prop :=
  b'.calls = b.calls ∨ ∃ i call', b'.calls = b.calls.insert i call' ∧
    ∀ call, b.calls.lookup i = some call → ∀ result source, call.phase ≠ .returned result source

theorem ChangesOpen.staysReturned (h : ChangesOpen b b') : StaysReturned b b' := by
  intro i call result source hi hret
  rcases h with heq | ⟨j, call', heq, hopen⟩
  · rw [heq, hi]
  · have hij : i ≠ j := by
      rintro rfl
      exact hopen call hi result source hret
    rw [heq, Finmap.lookup_insert_of_ne _ hij, hi]

theorem changesOpen_insert (hi : b.calls.lookup i = some call) (hcalls : b'.calls = b.calls.insert i call')
    (hopen : ∀ result source, call.phase ≠ .returned result source) : ChangesOpen b b' := by
  refine Or.inr ⟨i, call', hcalls, fun c hc => ?_⟩
  rw [hi, Option.some.injEq] at hc
  exact hc ▸ hopen

theorem changesOpen_advance (h : BankOk b) (a : SandboxAdapter) (i : Nat) (env : InvokeEnv) :
    ChangesOpen b (b.advance a i env) := by
  unfold Bank.advance
  cases hi : b.calls.lookup i with
  | none => exact Or.inl rfl
  | some call =>
    cases hphase : call.phase with
    | begun =>
      simp only [hphase]
      rw [h.dropSender_setCall hi]
      exact changesOpen_insert hi rfl (by simp [hphase])
    | registered =>
      simp only [hphase]
      cases env.produceError <;> exact changesOpen_insert hi rfl (by simp [hphase])
    | waiting =>
      simp only [hphase]
      cases call.chan with
      | empty =>
        dsimp only
        split
        · exact changesOpen_insert hi rfl (by simp [hphase])
        · exact Or.inl rfl
      | closed => exact changesOpen_insert hi rfl (by simp [hphase])
      | sent source r => exact changesOpen_insert hi rfl (by simp [hphase])
    | leaving message =>
      simp only [hphase]
      rw [h.dropSender_setCall hi]
      exact changesOpen_insert hi rfl (by simp [hphase])
    | returned result source =>
      simp only [hphase]
      exact Or.inl rfl
    | dropped =>
      simp only [hphase]
      exact Or.inl rfl

/-- A result goes to a call whose sending end is entered, which has not returned. -/
theorem changesOpen_deliver (h : BankOk b) (rec : ResultRecord) : ChangesOpen b (b.deliver rec) := by
  unfold Bank.deliver
  cases rec.result with
  | none => exact Or.inl rfl
  | some sr =>
    dsimp only
    cases hp : b.pending.lookup sr.1 with
    | none => exact Or.inl rfl
    | some i =>
      obtain ⟨call, hi, hs⟩ := h.owner sr.1 i hp
      simp only [hi]
      refine changesOpen_insert hi rfl fun result source hret => ?_
      have hcall := h.ok i call hi
      simp only [CallOk, hret] at hcall
      rw [← hs, hcall.1] at hp
      cases hp

theorem changesOpen_move (h : BankOk b) (a : SandboxAdapter) {m : BankMove} (hm : FreshStep b m) :
    ChangesOpen b (b.move a m) := by
  cases m with
  | begin i ctx tool toolCallId args =>
    refine Or.inr ⟨i, _, rfl, fun call hi => ?_⟩
    rw [hm.1] at hi
    cases hi
  | advance i env => exact changesOpen_advance h a i env
  | deliver rec => exact changesOpen_deliver h rec
  | hangUp i =>
    show ChangesOpen b (b.hangUp i)
    unfold Bank.hangUp
    cases hi : b.calls.lookup i with
    | none => exact Or.inl rfl
    | some call =>
      dsimp only
      split
      · exact Or.inl rfl
      · rename_i hopen
        exact changesOpen_insert hi rfl hopen

theorem BankOk.returned (h : BankOk b) {result : Except String ToolResult} {source : Option Nat}
    (hi : b.calls.lookup i = some call) (hphase : call.phase = .returned result source) :
    b.pending.lookup call.ctx.stepId = none ∧ ∀ r, result = .ok r →
      ∃ n rec pr, source = some n ∧ b.delivered[n]? = some rec ∧ rec.result = some (call.ctx.stepId, pr) ∧
        r = pr.toToolResult := by
  have hcall := h.ok i call hi
  simpa only [CallOk, hphase] using hcall

theorem BankOk.sound (h : BankOk b) : CallsSound b where
  own i call r source hi hphase := (h.returned hi hphase).2 r rfl
  apart i j call call' r r' n n' rec hi hj hphase hphase' hn hn' := by
    obtain ⟨m, rec₁, pr, hm, hrec, hres, -⟩ := (h.returned hi hphase).2 r rfl
    obtain ⟨m', rec₂, pr', hm', hrec', hres', -⟩ := (h.returned hj hphase').2 r' rfl
    injection hm with hm
    injection hm' with hm'
    subst hm hm'
    rw [hn, Option.some.injEq] at hrec
    rw [hn', Option.some.injEq] at hrec'
    subst hrec hrec'
    rw [hres, Option.some.injEq, Prod.mk.injEq] at hres'
    exact h.distinct i j call call' hi hj hres'.1
  clean i call result source hi hphase := (h.returned hi hphase).1

theorem bankOk_empty : BankOk {} where
  distinct i j call call' hi := by simp at hi
  owner s i hs := by simp at hs
  ok i call hi := by simp at hi

/-- In every run in which new calls have new steps: a call that has returned has returned one result of its own step, or
an error, for good; no result is returned to two calls; and no entry of its step is left. -/
theorem calls_sound (a : SandboxAdapter) (moves : List BankMove) (h : Lib.Meets (Bank.move a) FreshStep {} moves) :
    CallsSound (Lib.run (Bank.move a) {} moves) ∧
      Lib.Along (Bank.move a) (fun b _ b' => CallsSound b' ∧ StaysReturned b b') {} moves :=
  ⟨(Lib.run_invariant BankOk (fun _ _ hb hm => hb.move a hm) bankOk_empty h).sound,
    Lib.along_of_invariant BankOk (fun _ _ hb hm => hb.move a hm)
      (fun _ _ hb hm => ⟨(hb.move a hm).sound, (changesOpen_move hb a hm).staysReturned⟩) bankOk_empty h⟩

/-- Two calls of which one is answered twice and the other too late. -/
def twoCalls : List BankMove :=
  let ctx (stepId : String) : CallCtx :=
    { taskId := "t", idempotencyKey := "k", effectivePolicy := none, stepId, turnId := none }
  let answer (stepId : String) : ResultRecord :=
    { eventType := "tool_result", content := .obj [("step_id", .str stepId), ("success", .bool true)] }
  [.begin 0 (ctx "a") "fixus_bash" "c0" .null, .begin 1 (ctx "b") "fixus_bash" "c1" .null, .advance 0 {}, .advance 1 {},
    .advance 1 {}, .deliver (answer "b"), .deliver (answer "b"), .advance 0 {}, .advance 1 {},
    .advance 0 { elapsed := true }, .deliver (answer "a"), .advance 0 {}]

theorem calls_sound_twoCalls :
    CallsSound (Lib.run (Bank.move ⟨.compact, "eu", []⟩) {} twoCalls) ∧
      Lib.Along (Bank.move ⟨.compact, "eu", []⟩) (fun b _ b' => CallsSound b' ∧ StaysReturned b b') {} twoCalls := by
  apply calls_sound
  refine ⟨⟨rfl, fun j call hj => by simp at hj⟩, ⟨rfl, fun j call hj => ?_⟩, trivial, trivial, trivial,
    trivial, trivial,
    trivial, trivial, trivial, trivial, trivial, trivial⟩
  by_cases h : j = 0
  · subst h
    simp only [Bank.move, Bank.calls_setCall, Finmap.lookup_insert, Option.some.injEq] at hj
    subst hj
    decide
  · simp [Bank.move, Finmap.lookup_insert_of_ne _ h] at hj

end Fixus
