import Fixus.ToolsBank.PendingCalls

/-!
# Whose calls reach the sandbox

What is known of a call is fixed when it begins. So if the contexts of all calls have a property at their beginning,
then every message to the sandbox is one of a call whose context has the property.

- `Bank.OfContexts`: the contexts of the calls, and those behind the messages;
- `OfContexts.move`: no move makes up another context.
-/

namespace Fixus

/-- Every call has a context with the property, and every message has the task and the metadata of such a context. -/
structure Bank.OfContexts (serde : SerdeJson) (C : CallCtx → Prop) (b : Bank) : Prop where
  calls : ∀ i call, b.calls.lookup i = some call → C call.ctx
  produced : ∀ m ∈ b.produced, ∃ ctx, C ctx ∧ m.key = ctx.taskId ∧
    m.metadata = buildInvokeMeta serde ctx.taskId ctx.stepId ctx.effectivePolicy

/-- A move that begins a call gives it a context with the property. -/
def BankMove.BeginsIn (C : CallCtx → Prop) : BankMove → Prop
  | .begin _ ctx _ _ _ => C ctx
  | _ => True

namespace Bank.OfContexts

variable {serde : SerdeJson} {C C' : CallCtx → Prop} {b b' : Bank}

theorem empty : OfContexts serde C {} where
  calls i call hi := by simp at hi
  produced m hm := by cases hm

theorem mono (h : OfContexts serde C b) (hC : ∀ ctx, C ctx → C' ctx) : OfContexts serde C' b where
  calls i call hi := hC _ (h.calls i call hi)
  produced m hm := by
    obtain ⟨ctx, hctx, hm⟩ := h.produced m hm
    exact ⟨ctx, hC ctx hctx, hm⟩

/-- Only the calls and the messages count. -/
theorem congr (h : OfContexts serde C b) (hc : b'.calls = b.calls) (hp : b'.produced = b.produced) :
    OfContexts serde C b' :=
  ⟨by rw [hc]; exact h.calls, by rw [hp]; exact h.produced⟩

/-- A call is entered, or goes on. -/
theorem setCall (h : OfContexts serde C b) (i : Nat) (call : BankCall) (hcall : C call.ctx) :
    OfContexts serde C (b.setCall i call) where
  calls j c hj := by
    rw [Bank.calls_setCall] at hj
    by_cases hji : j = i
    · subst hji
      rw [Finmap.lookup_insert] at hj
      exact Option.some.inj hj ▸ hcall
    · rw [Finmap.lookup_insert_of_ne _ hji] at hj
      exact h.calls j c hj
  produced := h.produced

theorem dropSender (h : OfContexts serde C b) (stepId : String) : OfContexts serde C (b.dropSender stepId) := by
  unfold Bank.dropSender
  split
  · exact h
  · split
    · rename_i other hother
      have hctx := h.calls _ other hother
      split
      · exact h.setCall _ _ hctx
      · exact h
    · exact h

theorem advance {a : SandboxAdapter} (h : OfContexts a.serde C b) (i : Nat) (env : InvokeEnv) :
    OfContexts a.serde C (b.advance a i env) := by
  unfold Bank.advance
  cases hi : b.calls.lookup i with
  | none => exact h
  | some call =>
    have hctx := h.calls i call hi
    dsimp only
    split
    · exact ((h.dropSender _).setCall i { call with phase := .registered } hctx).congr rfl rfl
    · split
      · -- the message has the context of its call
        refine ⟨(h.setCall i { call with phase := .waiting } hctx).calls, fun m hm => ?_⟩
        rcases List.mem_append.mp hm with hm | hm
        · exact h.produced m hm
        · rw [List.mem_singleton.mp hm]
          exact ⟨call.ctx, hctx, rfl, rfl⟩
      · exact h.setCall _ _ hctx
    · split
      · exact h.setCall _ _ hctx
      · exact h.setCall _ _ hctx
      · split
        · exact h.setCall _ _ hctx
        · exact h
    · rename_i message _
      exact ((h.dropSender _).setCall i { call with phase := .returned (.error message) none }
        hctx).congr rfl rfl
    · exact h
    · exact h

theorem deliver (h : OfContexts serde C b) (rec : ResultRecord) : OfContexts serde C (b.deliver rec) := by
  have hskip : OfContexts serde C { b with delivered := b.delivered ++ [rec] } := h.congr rfl rfl
  unfold Bank.deliver
  dsimp only
  split
  · exact hskip
  · split
    · exact hskip
    · split
      · rename_i i _ _ call hcall
        have hctx := h.calls i call hcall
        exact (hskip.setCall i { call with chan := .sent b.delivered.length _ } hctx).congr rfl rfl
      · exact h.congr rfl rfl

theorem hangUp (h : OfContexts serde C b) (i : Nat) : OfContexts serde C (b.hangUp i) := by
  unfold Bank.hangUp
  cases hi : b.calls.lookup i with
  | none => exact h
  | some call =>
    dsimp only
    split
    · exact h
    · exact h.setCall _ _ (h.calls i call hi)

/-- **No move makes up another context.** -/
theorem move {a : SandboxAdapter} (h : OfContexts a.serde C b) {m : BankMove} (hm : m.BeginsIn C) :
    OfContexts a.serde C (b.move a m) := by
  cases m with
  | begin i ctx tool toolCallId args => exact h.setCall _ _ hm
  | advance i env => exact h.advance i env
  | deliver rec => exact h.deliver rec
  | hangUp i => exact h.hangUp i

end Bank.OfContexts

end Fixus
