import Fixus.Store.Healthy

/-!
# Conversations of several turns

`At taskId st k`: on a healthy store the projection of the task is up to date, its state is `st` and its largest turn
number `k`. Each operation of a conversation has a rule in these terms.

- `transitionTask_at`, `startTurn_at`, `completeTurn_at`, `createTask_at`: the rules;
- `startTurn_refused`: a turn starts from `ready` and `claimed` only;
- `conversation_total`: any number of turns, with the task made ready again between them;
- `second_turn_refused`: without that the second turn is refused.
-/

namespace Fixus

open Lib Lib.Eff BrokerStore

/-! ## Conversations -/

/-- The texts of one turn. -/
structure Round where
  uuid : String
  userInput : String
  redoGroup : Option String
  finalOutput : String

section Programs

variable {σ : Type} (store : EventStore σ)

/-- Start a turn and complete it. -/
def oneRound (taskId : String) (r : Round) : StoreM σ Int := do
  let (turnId, _, _) ← Service.startTurn store r.uuid taskId r.userInput r.redoGroup
  let _ ← Service.completeTurn store taskId turnId r.finalOutput
  pure turnId

/-- Make the task ready for another turn. -/
def rearm (reason taskId : String) : StoreM σ Unit := do
  let _ ← Service.blockTask store taskId reason
  let _ ← Service.markTaskReady store taskId
  pure ()

/-- What happens between two turns; nothing after the last one. -/
def pause (between : String → StoreM σ Unit) (taskId : String) (rest : List Round) : StoreM σ Unit :=
  if rest.isEmpty then pure () else between taskId

/-- Turns one after the other, with a pause between them; the numbers they got. -/
def rounds (between : String → StoreM σ Unit) (taskId : String) : List Round → StoreM σ (List Int)
  | [] => pure []
  | r :: rest => do
    let turnId ← oneRound store taskId r
    pause between taskId rest
    let turnIds ← rounds between taskId rest
    pure (turnId :: turnIds)

/-- Create a task, make it ready, and let it do its turns. -/
def conversation (between : String → StoreM σ Unit) (uuid taskType : String) (provenance : Provenance)
    (body : Option Json) (priority : Int) (effectivePolicy : Option EffectivePolicy) (rs : List Round) :
    StoreM σ (List Int) := do
  let (taskId, _) ← Service.createTask store uuid taskType provenance body priority effectivePolicy
  let _ ← Service.markTaskReady store taskId
  rounds store between taskId rs

end Programs

/-! ## The rules -/

/-- On a healthy store that takes every record: the state of the task and its largest turn number. -/
structure At (taskId : String) (st : TaskState) (k : Int) (s : BrokerStore) : Prop where
  healthy : Healthy s
  produces : s.produces = []
  view : s.view taskId = TaskProjection.replay taskId (s.log taskId)
  state : stateOf (s.log taskId) = st
  maxTurn : (TaskProjection.replay taskId (s.log taskId)).maxTurnId = k

section Rules

variable {taskId : String} {st : TaskState} {k : Int} {s s' : BrokerStore}

theorem At.viewState (h : At taskId st k s) : (s.view taskId).state = st := by
  rw [h.view, TaskProjection.replay_state, h.state]

/-- A read leaves the task where it is and warms its projection. -/
theorem At.loaded (h : At taskId st k s) (hl : Loaded taskId s s') : At taskId st k s' ∧ Warm taskId s' := by
  have hlog : s'.log taskId = s.log taskId := congrFun hl.streams taskId
  refine ⟨⟨hl.healthy, hl.produces.trans h.produces, ?_, hlog ▸ h.state, hlog ▸ h.maxTurn⟩, ?_⟩
  · rw [hl.view, h.view, hlog]
  · unfold Warm
    rw [hl.cached, h.view, hlog]

theorem Warm.view (hw : Warm taskId s) : s.view taskId = TaskProjection.replay taskId (s.log taskId) := by
  unfold BrokerStore.view
  rw [hw]
  rfl

/-- The turn that a written record belongs to. -/
theorem recordOf_turnId {seq : Nat} {e : AgentEvent} (h : ∀ j, e.turnId = some j → InI64 j) :
    (recordOf seq e).turnId = e.turnId := by
  unfold Record.turnId
  have hm : (recordOf seq e).metadata.lookup "turn_id" = e.turnId.map toString := eventMeta_turnId e
  rw [hm]
  cases ht : e.turnId with
  | none => rfl
  | some j => exact parseI64_toString (h j ht)

/-- The write of a valid event that the state admits. -/
theorem writeEvent_at {e : AgentEvent} (h : At e.taskId st k s) (hw : Warm e.taskId s)
    (hscope : e.validateScope = .ok ()) (hfields : validatePayloadRequiredFields e.eventType e.payload = .ok ())
    (htr : validateTaskEventTransition (some st) e.eventType = .ok ()) (hturn : ∀ j, e.turnId = some j → InI64 j) :
    wp (writeEvent e) (fun _ s' => At e.taskId (stateAfter st e.eventType) ((e.turnId.map (max k)).getD k) s' ∧
      Warm e.taskId s') (fun _ _ => False) s := by
  have hacc : Accepted e s := by
    refine ⟨hscope, hfields, ?_⟩
    rw [hw, Option.map_some, TaskProjection.replay_state, h.state]
    exact htr
  refine wp_mono (writeEvent_spec e s) (fun n s' hs' => ?_) fun err s' hs' => ?_
  · obtain ⟨-, seq, -, -, hwrote⟩ := hs'
    have hwarm := Warm.wrote hw hwrote
    have hlog := wrote_log hwrote
    refine ⟨⟨hwrote.healthy h.healthy, ?_, hwarm.view, ?_, ?_⟩, hwarm⟩
    · rw [hwrote.produces, h.produces]
      rfl
    · rw [hlog, stateOf_recordOf, h.state]
    · have hfrom : EventType.fromStr (recordOf seq e).eventType = some e.eventType := EventType.fromStr_asStr _
      rw [hlog, TaskProjection.replay_append, TaskProjection.applyIgnoring_maxTurnId hfrom, recordOf_turnId hturn,
        h.maxTurn]
  · refine hs'.2 ⟨hacc, ?_⟩
    unfold nextReply
    rw [h.produces]
    exact ⟨_, rfl⟩

/-- The scope check passes a task event without tags. -/
theorem validateScope_task {et : EventType} {payload : Json} (h : et.scope = .task) :
    (AgentEvent.new taskId none none et payload).validateScope = .ok () := by
  rw [AgentEvent.validateScope_ok_iff]
  simp [AgentEvent.new, h]

/-- The scope check passes a turn event with a turn number. -/
theorem validateScope_turn {et : EventType} {payload : Json} (h : et.scope = .turn) (j : Int) :
    (AgentEvent.new taskId (some j) none et payload).validateScope = .ok () := by
  rw [AgentEvent.validateScope_ok_iff]
  simp [AgentEvent.new, h]

/-- **A legal move takes the task to its target.** -/
theorem transitionTask_at {et : EventType} {target : TaskState} {payload : Json} (h : At taskId st k s)
    (hcan : TaskState.canTransition st target = true) (ht : et.targetState = some target) (hne : et ≠ .turnStarted) :
    wp (Service.transitionTask brokerEventStore taskId target et payload)
      (fun _ s' => At taskId target k s' ∧ Warm taskId s') (fun _ _ => False) s := by
  have hscope : et.scope = .task := by
    cases et <;> first
      | rfl
      | exact absurd rfl hne
      | cases ht
  have hfields : requiredFields et = [] := by
    cases et <;> first
      | rfl
      | cases ht
  have hlegal : validateTaskEventTransition (some st) et = .ok () := by
    refine validateTaskEventTransition_some.mpr fun t ht' => ?_
    rw [ht] at ht'
    cases Option.some.inj ht'
    simpa [legalFrom, hne] using hcan
  have hafter : stateAfter st et = target := by
    cases et <;> simp_all [stateAfter, EventType.targetState]
  unfold Service.transitionTask
  rw [wp_bind]
  refine wp_mono (withProjection_healthy h.healthy _) (fun current s₁ h₁ => ?_) fun _ _ h => h
  obtain ⟨rfl, hl⟩ := h₁
  obtain ⟨h₁, hw₁⟩ := h.loaded hl
  simp only [h.viewState, hcan, if_true]
  unfold Service.writeAs
  rw [wp_bind]
  have hwrite := writeEvent_at (e := AgentEvent.new taskId none none et payload) h₁ hw₁ (validateScope_task hscope)
    (validatePayloadRequiredFields_of_nil _ hfields) hlegal fun j hj => by cases hj
  refine wp_mono hwrite (fun _ s₂ h₂ => ?_) fun _ _ h => h
  rw [← hafter]
  exact h₂

/-- On a healthy store the first question finds the task. -/
theorem pollExists_healthy (hs : Healthy s) (n : Nat) : wp (Service.pollExists brokerEventStore taskId (n + 1))
    (fun b s' => b = true ∧ Loaded taskId s s') (fun _ _ => False) s := by
  unfold Service.pollExists
  rw [wp_bind, wp_attempt]
  refine wp_mono (taskExists_healthy hs) (fun b s₁ h₁ => ?_) fun _ _ h => h.elim
  obtain ⟨rfl, hl⟩ := h₁
  exact ⟨rfl, hl⟩

/-- The reads before the start of a turn. -/
theorem startTurn_reads {uuid userInput : String} {redoGroup : Option String} (h : At taskId st k s)
    (hst : st.isTerminal = false) {Q : Int × String × AgentEvent → BrokerStore → Prop}
    {E : AppError → BrokerStore → Prop}
    (hwrite : ∀ s₁, s₁.streams = s.streams → At taskId st k s₁ → Warm taskId s₁ → ∀ redoGroup,
      wp (writeEvent (AgentEvent.new taskId (some (wrapI64 (k + 1))) none .turnStarted
        (turnStartedPayload userInput redoGroup 0)))
        (fun _ s' => ∀ event, Q (wrapI64 (k + 1), redoGroup, event) s') E s₁) :
    wp (Service.startTurn brokerEventStore uuid taskId userInput redoGroup) Q E s := by
  unfold Service.startTurn
  rw [wp_bind]
  refine wp_mono (pollExists_healthy h.healthy 29) (fun b s₁ h₁ => ?_) fun _ _ h => h.elim
  obtain ⟨rfl, hl₁⟩ := h₁
  obtain ⟨h₁, -⟩ := h.loaded hl₁
  rw [if_pos rfl, wp_bind]
  refine wp_mono (withProjection_healthy h₁.healthy _) (fun b s₂ h₂ => ?_) fun _ _ h => h.elim
  obtain ⟨rfl, hl₂⟩ := h₂
  obtain ⟨h₂, -⟩ := h₁.loaded hl₂
  rw [h₁.viewState, hst, if_neg (by decide), wp_bind]
  refine wp_mono (withProjection_healthy h₂.healthy _) (fun m s₃ h₃ => ?_) fun _ _ h => h.elim
  obtain ⟨rfl, hl₃⟩ := h₃
  obtain ⟨h₃, hw₃⟩ := h₂.loaded hl₃
  have hstreams : s₃.streams = s.streams := hl₃.streams.trans (hl₂.streams.trans hl₁.streams)
  rw [h₂.view, h₂.maxTurn, wp_bind]
  refine wp_mono (hwrite s₃ hstreams h₃ hw₃ _) (fun _ s₄ h₄ => ?_) fun _ _ h => h
  exact h₄ _

/-- **A turn that starts gets the next number.** -/
theorem startTurn_at {uuid userInput : String} {redoGroup : Option String} (h : At taskId st k s)
    (hst : st = .ready ∨ st = .claimed) (hk : InI64 (k + 1)) :
    wp (Service.startTurn brokerEventStore uuid taskId userInput redoGroup)
      (fun r s' => r.1 = k + 1 ∧ At taskId .executing (k + 1) s' ∧ Warm taskId s') (fun _ _ => False) s := by
  have hlive : st.isTerminal = false := by rcases hst with rfl | rfl <;> rfl
  refine startTurn_reads h hlive fun s₁ _ h₁ hw₁ rg => ?_
  rw [wrapI64_of_inI64 hk]
  have hlegal : validateTaskEventTransition (some st) .turnStarted = .ok () := by rcases hst with rfl | rfl <;> rfl
  have hafter : stateAfter st .turnStarted = .executing := by rcases hst with rfl | rfl <;> rfl
  refine wp_mono (writeEvent_at (e := AgentEvent.new taskId (some (k + 1)) none .turnStarted _) h₁ hw₁
    (validateScope_turn rfl _) (validatePayloadRequiredFields_of_nil _ rfl) hlegal ?_) (fun _ s₂ h₂ event => ?_)
    fun _ _ h => h
  · intro j hj
    cases Option.some.inj hj
    exact hk
  · obtain ⟨h₂, hw₂⟩ := h₂
    have hmax : max k (k + 1) = k + 1 := by omega
    refine ⟨rfl, ?_, hw₂⟩
    rw [← hafter, ← hmax]
    exact h₂

/-- **A turn starts from `ready` and `claimed` only**; nothing is written. -/
theorem startTurn_refused {uuid userInput : String} {redoGroup : Option String} (h : At taskId st k s)
    (hlive : st.isTerminal = false) (hr : st ≠ .ready) (hc : st ≠ .claimed) :
    wp (Service.startTurn brokerEventStore uuid taskId userInput redoGroup) (fun _ _ => False)
      (fun err s' => err = .lifecycleInvariant ("非法 task 迁移:" ++ st.debug ++ " → Executing(事件 TurnStarted)") ∧
        s'.streams = s.streams) s := by
  refine startTurn_reads h hlive fun s₁ hstreams h₁ hw₁ rg => ?_
  have hillegal : validateTaskEventTransition (some st) .turnStarted =
      .error (.lifecycleInvariant ("非法 task 迁移:" ++ st.debug ++ " → Executing(事件 TurnStarted)")) := by
    cases st <;> first
      | rfl
      | exact absurd rfl hr
      | exact absurd rfl hc
  have hscope : (AgentEvent.new taskId (some (wrapI64 (k + 1))) none .turnStarted
      (turnStartedPayload userInput rg 0)).validateScope = .ok () := validateScope_turn rfl _
  have hfields : validatePayloadRequiredFields .turnStarted (turnStartedPayload userInput rg 0) = .ok () :=
    validatePayloadRequiredFields_of_nil _ rfl
  unfold writeEvent
  simp only [hscope]
  rw [wp_bind]
  show wp (ofExcept (validatePayloadRequiredFields .turnStarted (turnStartedPayload userInput rg 0))) _ _ s₁
  rw [hfields, wp_ofExcept_ok, wp_bind]
  refine wp_cacheGet fun s₂ hu _ => ?_
  show wp (ofExcept
    (validateTaskEventTransition ((s₁.cache.map.lookup taskId).map TaskProjection.state) .turnStarted) >>= _) _ _ s₂
  rw [wp_bind, hw₁, Option.map_some, TaskProjection.replay_state, h₁.state, hillegal]
  exact ⟨rfl, hu.streams.trans hstreams⟩

/-- The completion of a turn that was started. -/
theorem completeTurn_at {j : Int} {output : String} (h : At taskId st k s) (hw : Warm taskId s) (hj : j ≤ k)
    (hj64 : InI64 j) : wp (Service.completeTurn brokerEventStore taskId j output)
      (fun _ s' => At taskId st k s' ∧ Warm taskId s') (fun _ _ => False) s := by
  unfold Service.completeTurn Service.writeAs
  rw [wp_bind]
  refine wp_mono (writeEvent_at (e := AgentEvent.new taskId (some j) none .turnCompleted _) h hw
    (validateScope_turn rfl _) (validatePayloadRequiredFields_of_nil _ rfl) rfl ?_) (fun _ s₁ h₁ => ?_) fun _ _ h => h
  · intro i hi
    cases Option.some.inj hi
    exact hj64
  · have hmax : max k j = k := by omega
    refine ⟨?_, h₁.2⟩
    rw [← hmax]
    exact h₁.1

/-- The creation of a task under a new identifier. -/
theorem createTask_at {uuid taskType : String} {provenance : Provenance} {body : Option Json} {priority : Int}
    {effectivePolicy : Option EffectivePolicy} (hs : Healthy s) (hp : s.produces = [])
    (hlog : s.log (createdId uuid) = [])
    (hnew : s.cache.map.lookup (createdId uuid) = none) :
    wp (Service.createTask brokerEventStore uuid taskType provenance body priority effectivePolicy)
      (fun r s' => r.1 = createdId uuid ∧ At (createdId uuid) .created 0 s') (fun _ _ => False) s := by
  show wp (BrokerStore.createTask _ _ _ _ _ _ _ _) _ _ s
  unfold BrokerStore.createTask
  simp only
  rw [wp_bind, wp_mapErr]
  refine wp_produce (fun seq s' _ hstreams hc hss hps => ?_) fun msg s' hr _ _ _ => ?_
  · obtain ⟨r, hfrom, hturn, hr⟩ : ∃ r : Record, EventType.fromStr r.eventType = some .taskCreated ∧ r.turnId = none ∧
        s'.streams = Function.update s.streams (createdId uuid) (s.streams (createdId uuid) ++ [r]) := by
      refine ⟨_, rfl, ?_, hstreams⟩
      simp [Record.turnId, Finmap.lookup_insert_of_ne]
    have hlog' : s'.log (createdId uuid) = [r] := by
      unfold BrokerStore.log at *
      rw [hr, Function.update_self, hlog, List.nil_append]
    refine ⟨rfl, ⟨hss.trans hs.sessions, hc ▸ hs.ok⟩, by rw [hps, hp]; rfl, ?_, ?_, ?_⟩
    · unfold BrokerStore.view
      rw [hc, hnew]
      rfl
    · rw [hlog', stateOf, List.foldl_cons, stateStep, hfrom]
      rfl
    · rw [hlog', TaskProjection.replay, List.foldl_cons, List.foldl_nil,
        TaskProjection.applyIgnoring_maxTurnId hfrom, hturn]
      rfl
  · unfold nextReply at hr
    rw [hp] at hr
    cases hr

/-- **A round on a ready task**: the turn gets the next number, and leaves the task executing. -/
theorem oneRound_at {r : Round} (h : At taskId .ready k s) (h0 : 0 ≤ k) (hk : k + 1 < 2 ^ 63) :
    wp (oneRound brokerEventStore taskId r)
      (fun j s' => j = k + 1 ∧ At taskId .executing (k + 1) s' ∧ Warm taskId s') (fun _ _ => False) s := by
  have h64 : InI64 (k + 1) := ⟨by omega, hk⟩
  unfold oneRound
  rw [wp_bind]
  refine wp_mono (startTurn_at h (Or.inl rfl) h64) (fun started s₁ h₁ => ?_) fun _ _ h => h
  obtain ⟨j, rg, ev⟩ := started
  obtain ⟨rfl, h₁, hw₁⟩ := h₁
  rw [wp_bind]
  refine wp_mono (completeTurn_at h₁ hw₁ le_rfl h64) (fun _ s₂ h₂ => ?_) fun _ _ h => h
  exact ⟨rfl, h₂⟩

/-- Between two turns the task is made ready again. -/
theorem rearm_at {reason : String} (h : At taskId .executing k s) :
    wp (rearm brokerEventStore reason taskId) (fun _ s' => At taskId .ready k s') (fun _ _ => False) s := by
  unfold rearm Service.blockTask Service.markTaskReady
  rw [wp_bind]
  refine wp_mono (transitionTask_at h rfl rfl (by decide)) (fun _ s₁ h₁ => ?_) fun _ _ h => h
  rw [wp_bind]
  refine wp_mono (transitionTask_at h₁.1 rfl rfl (by decide)) (fun _ s₂ h₂ => ?_) fun _ _ h => h
  exact h₂.1

/-- The rounds get consecutive numbers. -/
theorem rounds_at {reason : String} {rs : List Round} :
    ∀ {k : Int} {s : BrokerStore}, At taskId .ready k s → 0 ≤ k → k + rs.length < 2 ^ 63 →
      wp (rounds brokerEventStore (rearm brokerEventStore reason) taskId rs)
        (fun ids _ => ids = (List.range rs.length).map fun i : Nat => k + 1 + i) (fun _ _ => False) s := by
  induction rs with
  | nil => exact fun _ _ _ => rfl
  | cons r rest ih =>
    intro k s h h0 hk
    have hlen : ((r :: rest).length : Int) = rest.length + 1 := by simp
    unfold rounds
    rw [wp_bind]
    refine wp_mono (oneRound_at h h0 (by omega)) (fun j s₁ h₁ => ?_) fun _ _ h => h
    obtain ⟨rfl, h₁, -⟩ := h₁
    have hids : (List.range (r :: rest).length).map (fun i : Nat => k + 1 + i) =
        (k + 1) :: (List.range rest.length).map fun i : Nat => k + 1 + 1 + i := by
      rw [List.length_cons, List.range_succ_eq_map, List.map_cons, List.map_map]
      congr 1
      · simp
      · exact List.map_congr_left fun i _ => by simp; omega
    rw [hids, wp_bind]
    cases rest with
    | nil => exact rfl
    | cons r' rest =>
      refine wp_mono (rearm_at h₁) (fun _ s₂ h₂ => ?_) fun _ _ h => h
      rw [wp_bind]
      refine wp_mono (ih h₂ (by omega) (by omega)) (fun ids s₃ h₃ => ?_) fun _ _ h => h
      rw [h₃]
      rfl

end Rules

/-- **Conversations of several turns.** On a healthy store, with the task made ready again between the turns, every
operation of a conversation under a new identifier succeeds and the turns get the numbers `1, 2, …, n`. In any other
state but `ready` and `claimed` a live task refuses the turn, and nothing is written. -/
theorem conversation_total {s : BrokerStore} (hs : Healthy s) (hp : s.produces = []) {uuid : String}
    (hlog : s.log (createdId uuid) = []) (hnew : s.cache.map.lookup (createdId uuid) = none) (taskType : String)
    (provenance : Provenance) (body : Option Json) (priority : Int) (effectivePolicy : Option EffectivePolicy)
    (reason : String) {rs : List Round} (hn : rs.length < 2 ^ 63) :
    (∃ s', conversation brokerEventStore (rearm brokerEventStore reason) uuid taskType provenance body priority
      effectivePolicy rs s = (.ok ((List.range rs.length).map fun i : Nat => (i : Int) + 1), s')) ∧
    ∀ taskId st k s₁, At taskId st k s₁ → st.isTerminal = false → st ≠ .ready → st ≠ .claimed →
      ∀ uuid userInput redoGroup, ∃ s₂, Service.startTurn brokerEventStore uuid taskId userInput redoGroup s₁ =
        (.error (.lifecycleInvariant ("非法 task 迁移:" ++ st.debug ++ " → Executing(事件 TurnStarted)")), s₂) ∧
          s₂.streams = s₁.streams := by
  constructor
  · have hrun : wp (conversation brokerEventStore (rearm brokerEventStore reason) uuid taskType provenance body priority
        effectivePolicy rs) (fun ids _ => ids = (List.range rs.length).map fun i : Nat => (i : Int) + 1)
        (fun _ _ => False) s := by
      unfold conversation
      rw [wp_bind]
      refine wp_mono (createTask_at hs hp hlog hnew) (fun created s₁ h₁ => ?_) fun _ _ h => h
      obtain ⟨taskId, ev⟩ := created
      obtain ⟨rfl, h₁⟩ := h₁
      rw [wp_bind]
      refine wp_mono (transitionTask_at h₁ rfl rfl (by decide)) (fun _ s₂ h₂ => ?_) fun _ _ h => h
      refine wp_mono (rounds_at h₂.1 le_rfl (by omega)) (fun ids s₃ h₃ => ?_) fun _ _ h => h
      rw [h₃]
      exact List.map_congr_left fun i _ => by omega
    obtain ⟨ids, s', hres, rfl⟩ := wp_total hrun
    exact ⟨s', hres⟩
  · intro taskId st k s₁ h hlive hr hc uuid userInput redoGroup
    have href : wp (Service.startTurn brokerEventStore uuid taskId userInput redoGroup) _ _ s₁ :=
      startTurn_refused h hlive hr hc
    cases hres : Service.startTurn brokerEventStore uuid taskId userInput redoGroup s₁ with
    | mk r s₂ =>
      cases r with
      | ok a => exact (wp_ok href hres).elim
      | error err =>
        obtain ⟨rfl, hstreams⟩ := wp_error href hres
        exact ⟨s₂, rfl, hstreams⟩

/-- The theorem at two turns. -/
theorem conversation_total_two :
    ∃ s', conversation brokerEventStore (rearm brokerEventStore "next") "1" "chat" {} none 0 none
      [⟨"2", "hi", none, "hello"⟩, ⟨"3", "bye", none, "bye"⟩] empty = (.ok [1, 2], s') :=
  (conversation_total ⟨rfl, List.nodup_nil, by simp [empty], by decide⟩ rfl rfl rfl "chat" {} none 0 none "next"
    (by decide)).1

/-- Without that the second turn is refused: the task is still executing. -/
theorem second_turn_refused :
    (conversation brokerEventStore (fun _ => pure ()) "1" "chat" {} none 0 none
      [⟨"2", "hi", none, "hello"⟩, ⟨"3", "bye", none, "bye"⟩] empty).1 =
        .error (.lifecycleInvariant "非法 task 迁移:Executing → Executing(事件 TurnStarted)") := by
  decide +kernel

end Fixus
