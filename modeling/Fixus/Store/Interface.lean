import Fixus.Lib.Eff
import Fixus.Store.Projection

/-!
# The event store interface

`EventStore σ` lists the operations of the store that the modelled services use, over a store state `σ`. Generated
identifiers and the iteration orders of hash sets are arguments of the operation that uses them.

- `ReadsOnly`: the reads of a store keep a relation between states;
- `WritesAtMostOnce`: an operation that reads, and then fails or writes a single event. Every service operation but
  the creation of a task and the batch has this form.
-/

namespace Fixus

open Lib Lib.Eff

/-- Store operations on a state `σ`. -/
abbrev StoreM (σ α : Type) := Eff AppError σ α

/-- A task as the store reports it. -/
structure Task where
  taskId : String
  tenantId : String
  userId : String
  taskType : String
  state : TaskState
  provenance : Provenance
  body : Option Json
  priority : Int
  effectivePolicy : Option EffectivePolicy

/-- The operations of an event store. -/
structure EventStore (σ : Type) where
  createTask : (uuid taskType tenantId userId : String) → Provenance → Option Json → (priority : Int) →
    Option EffectivePolicy → StoreM σ (String × AgentEvent)
  writeEvent : AgentEvent → StoreM σ Int
  writeEventsBatch : List AgentEvent → StoreM σ (List Int)
  getTask : (taskId : String) → StoreM σ (Option Task)
  getTaskState : (taskId : String) → StoreM σ (Option TaskState)
  taskExists : (taskId : String) → StoreM σ Bool
  isTaskEnded : (taskId : String) → StoreM σ Bool
  getMaxSeq : (taskId : String) → StoreM σ Int
  getMaxTurnId : (taskId : String) → StoreM σ Int
  getTurnEvents : (taskId : String) → (turnId : Int) → StoreM σ (List AgentEvent)
  getIncompleteTurns : (taskId : String) → (order : List Int) → StoreM σ (List IncompleteTurn)
  getIncompleteSteps : (taskId : String) → (order : List String) → StoreM σ (List IncompleteStep)
  publishTurnBegin : (taskId taskType : String) → Json → StoreM σ Unit
  invalidateProjection : (taskId : String) → StoreM σ Unit

section Writes

variable {σ α β : Type} {store : EventStore σ} {R : σ → σ → Prop} {taskId : String} {P : AgentEvent → Prop}

/-- Whatever the outcome, the operation only moves the state along the relation. -/
def Keeps (R : σ → σ → Prop) (m : StoreM σ α) : Prop := ∀ s, R s (m s).2

/-- The reads about one task that the services use keep a relation between states. -/
structure ReadsOnly (store : EventStore σ) (R : σ → σ → Prop) (taskId : String) : Prop where
  refl : ∀ s, R s s
  trans : ∀ {s t u}, R s t → R t u → R s u
  getTaskState : Keeps R (store.getTaskState taskId)
  taskExists : Keeps R (store.taskExists taskId)
  isTaskEnded : Keeps R (store.isTaskEnded taskId)
  getMaxTurnId : Keeps R (store.getMaxTurnId taskId)

/-- From the state the operation moves along the relation and then fails, or writes one event of a kind and ends as
that write does. -/
def WritesFrom (store : EventStore σ) (R : σ → σ → Prop) (P : AgentEvent → Prop) (m : StoreM σ α) (s : σ) : Prop :=
  ∃ s₁, R s s₁ ∧
    ((∃ err, m s = (.error err, s₁)) ∨
      ∃ e : AgentEvent, P e ∧ (m s).2 = (store.writeEvent e s₁).2 ∧
        ((∃ a, (m s).1 = .ok a) ↔ ∃ seq, (store.writeEvent e s₁).1 = .ok seq))

/-- It does so from every state. -/
def WritesAtMostOnce (store : EventStore σ) (R : σ → σ → Prop) (P : AgentEvent → Prop) (m : StoreM σ α) : Prop :=
  ∀ s, WritesFrom store R P m s

/-- The event is of every kind that follows. -/
theorem WritesFrom.mono {Q : AgentEvent → Prop} {m : StoreM σ α} {s : σ} (h : WritesFrom store R P m s)
    (hPQ : ∀ e, P e → Q e) : WritesFrom store R Q m s := by
  obtain ⟨s₁, hR, hcase⟩ := h
  refine ⟨s₁, hR, ?_⟩
  rcases hcase with herr | ⟨e, he, hs, hok⟩
  · exact Or.inl herr
  · exact Or.inr ⟨e, hPQ e he, hs, hok⟩

/-- A write whose result is worked into an answer. -/
theorem writesAtMostOnce_write (hrefl : ∀ s, R s s) {e : AgentEvent} (he : P e) (f : Int → α) :
    WritesAtMostOnce store R P (store.writeEvent e >>= fun seq => pure (f seq)) := by
  intro s
  refine ⟨s, hrefl s, Or.inr ⟨e, he, ?_⟩⟩
  have hb : (store.writeEvent e >>= fun seq => pure (f seq)) s =
      Eff.bind (store.writeEvent e) (fun seq => Eff.ret (f seq)) s := rfl
  rw [hb, Eff.bind]
  cases h : store.writeEvent e s with
  | mk r s' => cases r <;> simp [Eff.ret]

/-- A failure writes nothing. -/
theorem writesAtMostOnce_fail (hR : ReadsOnly store R taskId) (err : AppError) :
    WritesAtMostOnce store R P (Eff.fail err : StoreM σ α) :=
  fun s => ⟨s, hR.refl s, Or.inl ⟨err, rfl⟩⟩

/-- A read before the operation changes nothing, and the operation goes on with what it found. -/
theorem WritesFrom.read (hR : ReadsOnly store R taskId) {m : StoreM σ α} {f : α → StoreM σ β} {s : σ} (hm : Keeps R m)
    (hf : ∀ a s', R s s' → m s = (.ok a, s') → WritesFrom store R P (f a) s') : WritesFrom store R P (m >>= f) s := by
  unfold WritesFrom
  rw [bind_apply, Eff.bind]
  have hk := hm s
  cases h : m s with
  | mk r s' =>
    rw [h] at hk
    cases r with
    | error err => exact ⟨s', hk, Or.inl ⟨err, rfl⟩⟩
    | ok a =>
      obtain ⟨s₁, h₁, hcase⟩ := hf a s' hk h
      exact ⟨s₁, hR.trans hk h₁, hcase⟩

/-- A read before the operation changes nothing. -/
theorem WritesAtMostOnce.read (hR : ReadsOnly store R taskId) {m : StoreM σ α} {f : α → StoreM σ β} (hm : Keeps R m)
    (hf : ∀ a, WritesAtMostOnce store R P (f a)) : WritesAtMostOnce store R P (m >>= f) := fun _ =>
  WritesFrom.read hR hm fun a s' _ _ => hf a s'

/-- Reading twice, or more, is reading. -/
theorem Keeps.bind (htrans : ∀ s t u, R s t → R t u → R s u) {m : StoreM σ α} {f : α → StoreM σ β}
    (hm : Keeps R m) (hf : ∀ a, Keeps R (f a)) : Keeps R (m >>= f) := by
  intro s
  have hb : (m >>= f) s = Eff.bind m f s := rfl
  rw [hb, Eff.bind]
  have hk := hm s
  cases h : m s with
  | mk r s' =>
    rw [h] at hk
    cases r with
    | error err => exact hk
    | ok a => exact htrans s s' _ hk (hf a s')

theorem Keeps.attempt {m : StoreM σ α} (hm : Keeps R m) : Keeps R (Eff.attempt m) := fun s => hm s

theorem Keeps.pure (hrefl : ∀ s : σ, R s s) (a : α) : Keeps R (pure a : StoreM σ α) := fun s => hrefl s

end Writes

end Fixus
