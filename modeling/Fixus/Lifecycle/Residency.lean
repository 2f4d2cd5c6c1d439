import Fixus.Lifecycle.Sequential

/-!
# Writes and the residency of the projection

The guard of a write takes the current state from the cache and reads a miss as "no task yet".

- `writeEvent_ok_iff`, `writeEvent_streams`: the verdict on a write and the streams after it;
- `cold_write`: the same write with two caches that hold the projection of the log or nothing;
- `cold_write_differs`: a legal move that is refused, and a second creation that is admitted.
-/

namespace Fixus

open Lib Lib.Eff BrokerStore

namespace BrokerStore

/-! ## The verdict on a write -/

/-- **A write is accepted exactly when it passes the checks and the broker takes the record.** -/
theorem writeEvent_ok_iff (e : AgentEvent) (s : BrokerStore) :
    (∃ n, (writeEvent e s).1 = .ok n) ↔ Accepted e s ∧ ∃ seq, s.nextReply e.taskId = .ok seq := by
  have hspec := writeEvent_spec e s
  unfold wp at hspec
  cases hr : writeEvent e s with
  | mk r s' =>
    rw [hr] at hspec
    cases r with
    | ok n => exact ⟨fun _ => ⟨hspec.1, hspec.2.choose, hspec.2.choose_spec.1⟩, fun _ => ⟨n, rfl⟩⟩
    | error err => exact ⟨nofun, fun h => absurd h hspec.2⟩

/-- An accepted write appends its record, a refused one changes no stream. -/
theorem writeEvent_streams (e : AgentEvent) (s : BrokerStore) :
    (∃ seq, Accepted e s ∧ s.nextReply e.taskId = .ok seq ∧
      (writeEvent e s).2.streams = Function.update s.streams e.taskId (s.streams e.taskId ++ [recordOf seq e])) ∨
    ((∀ n, (writeEvent e s).1 ≠ .ok n) ∧ (writeEvent e s).2.streams = s.streams) := by
  have hspec := writeEvent_spec e s
  unfold wp at hspec
  cases hr : writeEvent e s with
  | mk r s' =>
    rw [hr] at hspec
    cases r with
    | ok n =>
      obtain ⟨hacc, seq, hseq, -, hw⟩ := hspec
      exact Or.inl ⟨seq, hacc, hseq, hw.streams⟩
    | error err => exact Or.inr ⟨nofun, hspec.1.streams⟩

end BrokerStore

/-! ## Two caches -/

/-- The task has no cached projection: never loaded, evicted or invalidated. -/
def Cold (taskId : String) (s : BrokerStore) : Prop := s.cache.map.lookup taskId = none

/-- The stores differ in their caches only. -/
structure SameBroker (s s' : BrokerStore) : Prop where
  streams : s'.streams = s.streams
  produces : s'.produces = s.produces

/-- A write gets the same verdict and leads to the same logs. -/
structure SameWrite (e : AgentEvent) (s s' : BrokerStore) : Prop where
  verdict : (∃ n, (writeEvent e s).1 = .ok n) ↔ ∃ n, (writeEvent e s').1 = .ok n
  streams : (writeEvent e s).2.streams = (writeEvent e s').2.streams

/-- The event would be written if the guard let it pass. -/
structure Writable (e : AgentEvent) (s : BrokerStore) : Prop where
  scope : e.validateScope = .ok ()
  fields : validatePayloadRequiredFields e.eventType e.payload = .ok ()
  taken : ∃ seq, s.nextReply e.taskId = .ok seq

/-- The event moves the task state, legally in the state of the log. -/
def LegalMove (e : AgentEvent) (s : BrokerStore) : Prop :=
  e.eventType.targetState ≠ none ∧
    validateTaskEventTransition (some (stateOf (s.log e.taskId))) e.eventType = .ok ()

variable {e : AgentEvent} {s s' : BrokerStore}

theorem SameBroker.symm (h : SameBroker s s') : SameBroker s' s := ⟨h.streams.symm, h.produces.symm⟩

theorem SameBroker.nextReply (h : SameBroker s s') (taskId : String) : s'.nextReply taskId = s.nextReply taskId := by
  unfold BrokerStore.nextReply
  rw [h.streams, h.produces]

theorem SameWrite.symm (h : SameWrite e s s') : SameWrite e s' s := ⟨h.verdict.symm, h.streams.symm⟩

/-- Writes with the same verdict lead to the same logs. -/
theorem sameWrite_iff (h : SameBroker s s') :
    SameWrite e s s' ↔ ((∃ n, (writeEvent e s).1 = .ok n) ↔ ∃ n, (writeEvent e s').1 = .ok n) := by
  refine ⟨SameWrite.verdict, fun hv => ⟨hv, ?_⟩⟩
  rcases writeEvent_streams e s with ⟨seq, hacc, hseq, hs⟩ | ⟨hno, hs⟩
  · obtain ⟨hacc', seq', hseq'⟩ :=
      (writeEvent_ok_iff e s').mp (hv.mp ((writeEvent_ok_iff e s).mpr ⟨hacc, seq, hseq⟩))
    rcases writeEvent_streams e s' with ⟨seq'', -, hseq'', hs'⟩ | ⟨hno', -⟩
    · have heq : seq'' = seq := by
        rw [h.nextReply, hseq] at hseq''
        exact (Except.ok.inj hseq'').symm
      rw [hs, hs', heq, h.streams]
    · obtain ⟨n, hn⟩ := (writeEvent_ok_iff e s').mpr ⟨hacc', seq', hseq'⟩
      exact absurd hn (hno' n)
  · rcases writeEvent_streams e s' with ⟨seq', hacc', hseq', -⟩ | ⟨-, hs'⟩
    · obtain ⟨n, hn⟩ := hv.mpr ((writeEvent_ok_iff e s').mpr ⟨hacc', seq', hseq'⟩)
      exact absurd hn (hno n)
    · rw [hs, hs', h.streams]

/-- Caches with the same projection of the task give the same writes. -/
theorem sameWrite_of_lookup (h : SameBroker s s')
    (hl : s'.cache.map.lookup e.taskId = s.cache.map.lookup e.taskId) : SameWrite e s s' := by
  have hacc : Accepted e s ↔ Accepted e s' :=
    ⟨fun ha => ⟨ha.scope, ha.fields, hl ▸ ha.transition⟩, fun ha => ⟨ha.scope, ha.fields, hl ▸ ha.transition⟩⟩
  rw [sameWrite_iff h, writeEvent_ok_iff, writeEvent_ok_iff, hacc, h.nextReply]

/-- A write without the projection: only creations and events that do not move the state pass the guard. -/
theorem accepted_cold (h : Cold e.taskId s) : Accepted e s ↔ e.validateScope = .ok () ∧
    validatePayloadRequiredFields e.eventType e.payload = .ok () ∧
    (e.eventType.targetState = none ∨ e.eventType = .taskCreated) := by
  unfold Cold at h
  rw [← validateTaskEventTransition_none]
  exact ⟨fun ha => ⟨ha.scope, ha.fields, by have := ha.transition; rwa [h] at this⟩,
    fun ⟨h₁, h₂, h₃⟩ => ⟨h₁, h₂, by rw [h]; exact h₃⟩⟩

/-- A write with the projection at hand: the guard looks at the state of the log. -/
theorem accepted_warm (h : Warm e.taskId s) : Accepted e s ↔ e.validateScope = .ok () ∧
    validatePayloadRequiredFields e.eventType e.payload = .ok () ∧
    validateTaskEventTransition (some (stateOf (s.log e.taskId))) e.eventType = .ok () := by
  unfold Warm at h
  rw [← TaskProjection.replay_state e.taskId]
  exact ⟨fun ha => ⟨ha.scope, ha.fields, by have := ha.transition; rwa [h] at this⟩,
    fun ⟨h₁, h₂, h₃⟩ => ⟨h₁, h₂, by rw [h]; exact h₃⟩⟩

theorem Warm.not_cold {taskId : String} (h : Warm taskId s) : ¬ Cold taskId s := by
  unfold Warm at h
  unfold Cold
  rw [h]
  exact Option.some_ne_none _

/-- **One cache without the projection, one with it.** An event other than `task_created` is written alike unless it is
a legal move of the task state. -/
theorem sameWrite_cold_warm (hne : e.eventType ≠ .taskCreated) (h : SameBroker s s') (hc : Cold e.taskId s)
    (hw : Warm e.taskId s') : SameWrite e s s' ↔ ¬ (Writable e s ∧ LegalMove e s) := by
  have hlog : s'.log e.taskId = s.log e.taskId := congrFun h.streams e.taskId
  rw [sameWrite_iff h, writeEvent_ok_iff, writeEvent_ok_iff, h.nextReply, accepted_cold hc, accepted_warm hw, hlog]
  unfold LegalMove
  constructor
  · rintro hv ⟨hwr, hmove, hlegal⟩
    obtain ⟨⟨-, -, hcold⟩, -⟩ := hv.mpr ⟨⟨hwr.scope, hwr.fields, hlegal⟩, hwr.taken⟩
    exact hcold.elim hmove hne
  · intro hno
    refine ⟨fun ⟨⟨h₁, h₂, h₃⟩, htaken⟩ => ⟨⟨h₁, h₂, ?_⟩, htaken⟩, fun ⟨⟨h₁, h₂, h₃⟩, htaken⟩ => ⟨⟨h₁, h₂, ?_⟩, htaken⟩⟩
    · have hnone := h₃.resolve_right hne
      exact validateTaskEventTransition_some.mpr fun t ht => by rw [hnone] at ht; cases ht
    · by_contra hmove
      exact hno ⟨⟨h₁, h₂, htaken⟩, fun hnone => hmove (Or.inl hnone), h₃⟩

/-- **The cache is transparent to writes but for legal moves that miss it.** For every log, every event other than
`task_created` and every two caches that hold the fold of the log or nothing for the task: the writes agree unless only
one of the caches holds the projection and the event is a legal move; and what is accepted without the projection is
accepted with it. -/
theorem cold_write (hne : e.eventType ≠ .taskCreated) (h : SameBroker s s') (hs : Cold e.taskId s ∨ Warm e.taskId s)
    (hs' : Cold e.taskId s' ∨ Warm e.taskId s') :
    (SameWrite e s s' ↔ (Cold e.taskId s ↔ Cold e.taskId s') ∨ ¬ (Writable e s ∧ LegalMove e s)) ∧
    (Cold e.taskId s → (∃ n, (writeEvent e s).1 = .ok n) → SameWrite e s s') := by
  have hlog : s'.log e.taskId = s.log e.taskId := congrFun h.streams e.taskId
  rcases hs with hc | hw <;> rcases hs' with hc' | hw'
  · have hsame : SameWrite e s s' := sameWrite_of_lookup h (hc'.trans hc.symm)
    exact ⟨⟨fun _ => Or.inl ⟨fun _ => hc', fun _ => hc⟩, fun _ => hsame⟩, fun _ _ => hsame⟩
  · have hiff := sameWrite_cold_warm hne h hc hw'
    refine ⟨?_, fun _ hok => hiff.mpr fun ⟨_, hmove, _⟩ => ?_⟩
    · rw [hiff]
      exact ⟨Or.inr, fun hor => hor.resolve_left fun hcold => hw'.not_cold (hcold.mp hc)⟩
    · -- without the projection a move of the state is refused
      obtain ⟨hacc, -⟩ := (writeEvent_ok_iff e s).mp hok
      exact ((accepted_cold hc).mp hacc).2.2.elim hmove hne
  · have hiff := sameWrite_cold_warm hne h.symm hc' hw
    have hcond : (Writable e s' ∧ LegalMove e s') ↔ (Writable e s ∧ LegalMove e s) := by
      have hwr : Writable e s' ↔ Writable e s :=
        ⟨fun x => ⟨x.scope, x.fields, by rw [← h.nextReply]; exact x.taken⟩,
          fun x => ⟨x.scope, x.fields, by rw [h.nextReply]; exact x.taken⟩⟩
      unfold LegalMove
      rw [hwr, hlog]
    refine ⟨?_, fun hc => absurd hc hw.not_cold⟩
    rw [← hcond, ← hiff]
    exact ⟨fun hsame => Or.inr hsame.symm,
      fun hor => (hor.resolve_left fun hcold => hw.not_cold (hcold.mpr hc')).symm⟩
  · have hl : s'.cache.map.lookup e.taskId = s.cache.map.lookup e.taskId := by
      unfold Warm at hw hw'
      rw [hw, hw', hlog]
    have hsame : SameWrite e s s' := sameWrite_of_lookup h hl
    exact ⟨⟨fun _ => Or.inl ⟨fun hc => absurd hc hw.not_cold, fun hc => absurd hc hw'.not_cold⟩, fun _ => hsame⟩,
      fun hc => absurd hc hw.not_cold⟩

/-- A store over the same log that has not loaded the projection. -/
def coldStore (taskId : String) (log : List Record) : BrokerStore :=
  { streams := Function.update (fun _ => []) taskId log }

theorem sameBroker_cold_warm (taskId : String) (log : List Record) :
    SameBroker (coldStore taskId log) (warmStore taskId log) := ⟨rfl, rfl⟩

/-- A task that is ready. -/
def readyLog : List Record := [⟨1, "task_created", .obj [], ∅⟩, ⟨2, "task_ready", .obj [], ∅⟩]

/-- The theorem at an illegal move, which both refuse. -/
theorem cold_write_illegal :
    SameWrite (AgentEvent.new "task_1" none none .taskBlocked (.obj [])) (coldStore "task_1" readyLog)
      (warmStore "task_1" readyLog) := by
  have hw : Warm "task_1" (warmStore "task_1" readyLog) := warm_warmStore "task_1" readyLog
  refine (cold_write (by decide) (sameBroker_cold_warm _ _) (Or.inl rfl) (Or.inr hw)).1.mpr (Or.inr ?_)
  rintro ⟨-, -, hlegal⟩
  revert hlegal
  decide +kernel

/-- Without the projection a claim of a ready task is refused, and a canceled task is created again. -/
theorem cold_write_differs :
    let claim := AgentEvent.new "task_1" none none .taskClaimed (.obj [])
    let create := AgentEvent.new "task_1" none none .taskCreated (.obj [])
    let types (e : AgentEvent) (s : BrokerStore) := ((writeEvent e s).2.log "task_1").map Record.eventType
    ¬ SameWrite claim (coldStore "task_1" readyLog) (warmStore "task_1" readyLog) ∧
    types claim (coldStore "task_1" readyLog) = ["task_created", "task_ready"] ∧
    types claim (warmStore "task_1" readyLog) = ["task_created", "task_ready", "task_claimed"] ∧
    ¬ SameWrite create (coldStore "task_1" canceledLog) (warmStore "task_1" canceledLog) ∧
    types create (coldStore "task_1" canceledLog) = ["task_created", "task_canceled", "task_created"] ∧
    types create (warmStore "task_1" canceledLog) = ["task_created", "task_canceled"] := by
  intro claim create types
  have hclaim : types claim (coldStore "task_1" readyLog) = ["task_created", "task_ready"] := by decide +kernel
  have hclaim' : types claim (warmStore "task_1" readyLog) = ["task_created", "task_ready", "task_claimed"] := by
    decide +kernel
  have hcreate : types create (coldStore "task_1" canceledLog) = ["task_created", "task_canceled", "task_created"] := by
    decide +kernel
  have hcreate' : types create (warmStore "task_1" canceledLog) = ["task_created", "task_canceled"] := by decide +kernel
  have htypes : ∀ {e : AgentEvent} {s s' : BrokerStore}, SameWrite e s s' → types e s = types e s' := by
    intro e s s' h
    simp only [types, BrokerStore.log, h.streams]
  refine ⟨fun h => ?_, hclaim, hclaim', fun h => ?_, hcreate, hcreate'⟩
  · have heq := htypes h
    rw [hclaim, hclaim'] at heq
    cases heq
  · have heq := htypes h
    rw [hcreate, hcreate'] at heq
    cases heq

end Fixus
