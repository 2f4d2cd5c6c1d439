import Fixus.Lib.Tasks
import Fixus.Lifecycle.Conversation
import Fixus.Orchestrator.Machine

/-!
# Turn numbers under concurrency

`start_turn` reads the largest turn number in one step and writes the start event of the next turn in another. A pool of
calls in progress, each running from one `await` to the next: the starts of turns, the writes of other events and
batches, loads and invalidations of projections.

- `startTurn_pieces`: the steps of a start in a row are the service operation;
- `log_exec`: what a step appends;
- `Numbered.exec`: the numbers that are assigned or under way, one step;
- `numbers_fresh`: every turn gets a new number in every run in which the projections that are asked know the numbers of
  their log, the last one is not used up, and nobody else writes a number that is under way;
- `same_number`: two starts at once, and a posted event with the last number.
-/

namespace Fixus.Numbering

open Lib Lib.Eff BrokerStore

/-! ## The steps of the calls -/

/-- The checks of `start_turn`. -/
def canStart (taskId : String) : StoreM BrokerStore Unit := do
  let exists_ ← Service.pollExists brokerEventStore taskId 30
  if exists_ then
    if ← brokerEventStore.isTaskEnded taskId then fail (.taskAlreadyEnded taskId) else pure ()
  else fail (.taskNotFound taskId)

/-- The access of `get_max_turn_id` after `ensure_projection`, and the number of the next turn. -/
def nextNumber (taskId : String) : StoreM BrokerStore Int := do
  match ← cacheGet taskId with
  | some p => pure (wrapI64 (p.maxTurnId + 1))
  | none => fail (.panicked "called `Option::unwrap()` on a `None` value")

/-- The checks of `write_event`. -/
def check (e : AgentEvent) : StoreM BrokerStore Unit :=
  match e.validateScope with
  | .error msg => fail (.lifecycleInvariant msg)
  | .ok () => do
    ofExcept (validatePayloadRequiredFields e.eventType e.payload)
    let current ← cacheGet e.taskId
    ofExcept (validateTaskEventTransition (current.map TaskProjection.state) e.eventType)

/-- The record of `write_event`. -/
def append (e : AgentEvent) : StoreM BrokerStore Record := do
  let seq ← mapErr (fun msg => .internal ("broker produce: " ++ msg))
    (produce e.taskId e.eventType.asStr e.payload (eventMeta e))
  pure (recordOf seq e)

/-- The records of `write_events_batch`, by their numbers. -/
def appendBatch (events : List AgentEvent) : StoreM BrokerStore (List Nat) :=
  mapErr (fun msg => .internal ("broker batch: " ++ msg)) (atomically (batchProduce events))

/-- Records that were just produced go into the cached projection, if there is one. -/
def fold (taskId : String) (rs : List Record) : StoreM BrokerStore Unit := do
  match ← cacheGet taskId with
  | some p => update fun s => { s with cache := s.cache.put taskId (rs.foldl TaskProjection.applyIgnoring p) }
  | none => pure ()

/-- The steps of a write in a row. -/
theorem writeEvent_pieces (e : AgentEvent) : writeEvent e = (do
    check e
    let r ← append e
    fold e.taskId [r]
    pure (wrapI64 r.seq)) := by
  have hfold : ∀ r, fold e.taskId [r] = applyCached e.taskId r := fun r => rfl
  unfold writeEvent check append
  cases e.validateScope with
  | error msg => rfl
  | ok u =>
    simp only [bind_assoc, pure_bind, hfold]
    rfl

/-- The steps of a batch in a row. -/
theorem writeEventsBatch_pieces (first : AgentEvent) (rest : List AgentEvent) :
    writeEventsBatch (first :: rest) = (do
      let seqs ← appendBatch (first :: rest)
      fold first.taskId (batchRecords ((first :: rest).zip seqs))
      pure (seqs.map fun seq => wrapI64 seq)) := by
  have hfold : ∀ seqs p, (batchRecords ((first :: rest).zip seqs)).foldl TaskProjection.applyIgnoring p =
      ((first :: rest).zip seqs).foldl (fun p x => p.applyIgnoring (recordOf x.2 x.1)) p := fun seqs p =>
    List.foldl_map
  unfold writeEventsBatch appendBatch fold
  simp only [bind_assoc, hfold]
  refine bind_congr fun seqs => bind_congr fun current => ?_
  cases current <;> rfl

/-- **The steps in a row are `start_turn`.** -/
theorem startTurn_pieces (uuid taskId userInput : String) (redoGroup : Option String) :
    Service.startTurn brokerEventStore uuid taskId userInput redoGroup = (do
      canStart taskId
      ensureProjection taskId
      let turnId ← nextNumber taskId
      let event := turnStarted taskId turnId userInput (redoGroup.getD ("rg_" ++ uuid))
      check event
      let r ← append event
      fold taskId [r]
      pure (turnId, redoGroup.getD ("rg_" ++ uuid), { event with seq := wrapI64 r.seq })) := by
  have hwrite : brokerEventStore.writeEvent = writeEvent := rfl
  have hread : (nextTurnId brokerEventStore taskId) = (do
      canStart taskId
      ensureProjection taskId
      nextNumber taskId) := by
    have hmax : brokerEventStore.getMaxTurnId taskId = withProjection taskId TaskProjection.maxTurnId := rfl
    unfold nextTurnId canStart nextNumber
    rw [hmax]
    unfold withProjection
    simp only [bind_assoc]
    refine bind_congr fun found => ?_
    cases found with
    | false => rfl
    | true =>
      simp only [if_true, bind_assoc]
      refine bind_congr fun ended => ?_
      cases ended with
      | true => rfl
      | false =>
        refine bind_congr fun _ => bind_congr fun current => ?_
        cases current <;> rfl
  rw [startTurn_eq, hread, hwrite]
  simp only [writeEvent_pieces, bind_assoc, pure_bind]
  rfl

/-! ## The pool -/

/-- A request for a turn, with the redo group that was given or made up. -/
structure Request where
  taskId : String
  userInput : String
  redoGroup : String

/-- Who writes: the start of a turn, or anybody else. -/
inductive Writer where
  | turn (q : Request) (turnId : Int)
  | other (e : AgentEvent)

/-- The event that is written. -/
def Writer.event : Writer → AgentEvent
  | turn q turnId => turnStarted q.taskId turnId q.userInput q.redoGroup
  | other e => e

inductive Instr where
  -- `start_turn`, up to its number
  | start (q : Request)
  | ensure (q : Request)
  | number (q : Request)
  -- `write_event`
  | check (w : Writer)
  | append (w : Writer)
  | fold (taskId : String) (rs : List Record)
  -- the other calls
  | writeEventsBatch (first : AgentEvent) (rest : List AgentEvent)
  | createTask (uuid taskType : String) (provenance : Provenance) (body : Option Json) (priority : Int)
      (effectivePolicy : Option EffectivePolicy)
  | load (taskId : String)
  | invalidate (taskId : String)

/-- The calls that come from outside. -/
def Instr.isEntry : Instr → Bool
  | start _ | check (.other _) | writeEventsBatch _ _ | createTask _ _ _ _ _ _ | load _ | invalidate _ => true
  | _ => false

/-- What the calls report: the number of a turn whose start is on the log. -/
inductive Act where
  | assigned (taskId : String) (turnId : Int)
  deriving DecidableEq

/-- A step of a call: an error ends the call, a value decides how it goes on. -/
def piece {α : Type} (m : StoreM BrokerStore α) (s : BrokerStore) (next : α → List Instr)
    (report : List Act := []) : Outcome BrokerStore Instr Act :=
  match m s with
  | (.ok a, s') => { shared := s', next := next a, acts := report }
  | (.error _, s') => { shared := s' }

/-- The report of a writer whose record is on the log. -/
def Writer.report : Writer → List Act
  | turn q turnId => [.assigned q.taskId turnId]
  | other _ => []

/-- What an instruction does. -/
def exec (_ : Unit) (s : BrokerStore) : Instr → Outcome BrokerStore Instr Act
  | .start q => piece (canStart q.taskId) s fun _ => [.ensure q]
  | .ensure q => piece (ensureProjection q.taskId) s fun _ => [.number q]
  | .number q => piece (nextNumber q.taskId) s fun turnId => [.check (.turn q turnId)]
  | .check w => piece (Numbering.check w.event) s fun _ => [.append w]
  | .append w => piece (Numbering.append w.event) s (fun r => [.fold w.event.taskId [r]]) w.report
  | .fold taskId rs => piece (Numbering.fold taskId rs) s fun _ => []
  | .writeEventsBatch first rest => piece (appendBatch (first :: rest)) s fun seqs =>
      [.fold first.taskId (batchRecords ((first :: rest).zip seqs))]
  | .createTask uuid taskType provenance body priority effectivePolicy =>
    piece (Service.createTask brokerEventStore uuid taskType provenance body priority effectivePolicy) s fun _ => []
  | .load taskId => piece (ensureProjection taskId) s fun _ => []
  | .invalidate taskId => piece (invalidateProjection taskId) s fun _ => []

/-- The calls in progress on a store. -/
abbrev System := Tasks BrokerStore Instr Act

/-- One move: a call comes in, or one of those in progress runs to its next `await`. -/
def store (t : System) (m : Move Instr Unit) : System := move exec Instr.isEntry t m

/-- A store on which no call is in progress. -/
def System.start (s : BrokerStore) : System := { shared := s }

/-! ## Fresh numbers -/

/-- An event of the log carries the turn number. -/
def Tagged (log : List Record) (turnId : Int) : Prop := ∃ r ∈ log, r.turnId = some turnId

instance (log : List Record) (turnId : Int) : Decidable (Tagged log turnId) :=
  inferInstanceAs (Decidable (∃ r ∈ log, _))

/-- The number that is assigned is on no event of the log, and was assigned to no other turn. -/
def Act.Fresh (t : System) : Act → Prop
  | assigned taskId turnId => ¬ Tagged (t.shared.log taskId) turnId ∧ assigned taskId turnId ∉ t.trace

instance (t : System) (a : Act) : Decidable (a.Fresh t) := by
  cases a
  exact inferInstanceAs (Decidable (_ ∧ _))

/-- The number after the largest one does not overflow. -/
def NoOverflow (t : System) : Instr → Prop
  | .number q => ∀ p ∈ t.shared.cache.map.lookup q.taskId, InI64 (p.maxTurnId + 1)
  | _ => True

instance (t : System) (x : Instr) : Decidable (NoOverflow t x) := by
  unfold NoOverflow
  split <;> infer_instance

/-- The move assigns only fresh numbers, and computes them without an overflow. -/
def FreshNumbers (t : System) (m : Move Instr Unit) : Prop :=
  (∀ a ∈ acts exec t m, a.Fresh t) ∧ Executing (fun t _ x => NoOverflow t x) t m

instance (t : System) (m : Move Instr Unit) : Decidable (FreshNumbers t m) := inferInstanceAs (Decidable (_ ∧ _))

/-! ## What a step does -/

section Pieces

variable {α : Type} {m : StoreM BrokerStore α} {s : BrokerStore} {next : α → List Instr} {report : List Act}

theorem piece_shared : (piece m s next report).shared = (m s).2 := by
  unfold piece
  cases m s with
  | mk r s' => cases r <;> rfl

theorem piece_spawned : (piece m s next report).spawned = [] := by
  unfold piece
  cases m s with
  | mk r s' => cases r <;> rfl

variable (m s next report) in
/-- A step goes on, and reports, only after a success. -/
theorem piece_cases : (∃ a s', m s = (.ok a, s') ∧ (piece m s next report).next = next a ∧
      (piece m s next report).acts = report) ∨
    ((piece m s next report).next = [] ∧ (piece m s next report).acts = []) := by
  unfold piece
  cases hm : m s with
  | mk r s' =>
    cases r with
    | ok a => exact Or.inl ⟨a, s', rfl, rfl, rfl⟩
    | error err => exact Or.inr ⟨rfl, rfl⟩

theorem mem_piece_next {y : Instr} (hy : y ∈ (piece m s next report).next) : ∃ a, y ∈ next a := by
  rcases piece_cases m s next report with ⟨a, -, -, hn, -⟩ | ⟨hn, -⟩
  · exact ⟨a, hn ▸ hy⟩
  · rw [hn] at hy
    cases hy

/-- What the step goes on with weighs at most as much as after any success. -/
theorem piece_weight {f : Instr → Nat} {n : Nat} (h : ∀ a, weight f (next a) ≤ n) :
    weight f (piece m s next report).next ≤ n := by
  rcases piece_cases m s next report with ⟨a, -, -, hn, -⟩ | ⟨hn, -⟩
  · rw [hn]
    exact h a
  · rw [hn]
    exact Nat.zero_le n

end Pieces

theorem exec_spawned (s : BrokerStore) (x : Instr) : (exec () s x).spawned = [] := by
  cases x <;> exact piece_spawned

theorem keepsStreams_canStart (taskId : String) : KeepsStreams (canStart taskId) := by
  refine keepsStreams_bind (fun s => (keeps_pollExists (brokerEventStore_readsOnly taskId) 30 s).streams)
    fun found => ?_
  cases found with
  | false => exact fun _ => rfl
  | true =>
    refine keepsStreams_bind (keepsStreams_withProjection taskId _) fun ended => ?_
    cases ended <;> exact fun _ => rfl

theorem keepsStreams_nextNumber (taskId : String) : KeepsStreams (nextNumber taskId) := by
  refine keepsStreams_bind (keepsStreams_cacheGet taskId) fun current => ?_
  cases current <;> exact fun _ => rfl

theorem keepsStreams_check (e : AgentEvent) : KeepsStreams (check e) := by
  unfold check
  cases e.validateScope with
  | error msg => exact fun _ => rfl
  | ok u =>
    have hcheck : ∀ r : Except AppError Unit, KeepsStreams (ofExcept r) := fun r _ => by cases r <;> rfl
    exact keepsStreams_bind (hcheck _) fun _ => keepsStreams_bind (keepsStreams_cacheGet _) fun _ => hcheck _

theorem keepsStreams_fold (taskId : String) (rs : List Record) : KeepsStreams (fold taskId rs) := by
  refine keepsStreams_bind (keepsStreams_cacheGet taskId) fun current => ?_
  cases current <;> exact fun _ => rfl

/-- The record of a write goes to the end of the log of its task, or nothing happens. -/
theorem append_spec (e : AgentEvent) (s : BrokerStore) : wp (append e)
    (fun r s' => ∃ seq, r = recordOf seq e ∧
      s'.streams = Function.update s.streams e.taskId (s.streams e.taskId ++ [recordOf seq e]))
    (fun _ s' => s'.streams = s.streams) s := by
  unfold append
  rw [wp_bind, wp_mapErr]
  exact wp_produce (fun seq s' _ hs _ _ _ => ⟨seq, rfl, hs⟩) fun msg s' _ hs _ _ => hs

theorem appendBatch_spec (events : List AgentEvent) (s : BrokerStore) : wp (appendBatch events)
    (fun seqs s' => s'.streams = appendAll s.streams (events.zip seqs)) (fun _ s' => s'.streams = s.streams) s := by
  unfold appendBatch
  rw [wp_mapErr, wp_atomically]
  exact wp_mono (batchProduce_spec events s) (fun seqs s' h => h.2.2.2) fun _ _ _ => rfl

/-- The record of a new task carries no turn number. -/
theorem createTask_untagged (uuid taskType : String) (provenance : Provenance) (body : Option Json) (priority : Int)
    (effectivePolicy : Option EffectivePolicy) (s : BrokerStore) :
    wp (Service.createTask brokerEventStore uuid taskType provenance body priority effectivePolicy)
      (fun _ s' => ∃ r : Record, r.turnId = none ∧
        s'.streams = Function.update s.streams (createdId uuid) (s.streams (createdId uuid) ++ [r]))
      (fun _ s' => s'.streams = s.streams) s := by
  show wp (BrokerStore.createTask _ _ _ _ _ _ _ _) _ _ s
  unfold BrokerStore.createTask
  simp only
  rw [wp_bind, wp_mapErr]
  refine wp_produce (fun seq s' _ hs _ _ _ => ⟨_, ?_, hs⟩) fun msg s' _ hs _ _ => hs
  simp [Record.turnId, Finmap.lookup_insert_of_ne]

/-- The turn tag of a record is that of its event. -/
theorem turnId_of_recordOf {seq : Nat} {e : AgentEvent} {k : Int} (h : (recordOf seq e).turnId = some k) :
    e.turnId = some k := by
  unfold Record.turnId at h
  have hm : (recordOf seq e).metadata.lookup "turn_id" = e.turnId.map toString := eventMeta_turnId e
  rw [hm] at h
  cases he : e.turnId with
  | none => rw [he] at h; cases h
  | some j =>
    rw [he] at h
    have hj : parseI64 (toString j) = some k := h
    unfold parseI64 at hj
    rw [parseInt_toString, Option.filter_eq_some_iff] at hj
    rw [hj.1]

/-- The events whose records the instruction appends. -/
def Instr.writes : Instr → List AgentEvent
  | append w => [w.event]
  | writeEventsBatch first rest => first :: rest
  | _ => []

/-- The records on the log after it carry turn numbers of the task's events. -/
def Appends (events : List AgentEvent) (taskId : String) (s s' : BrokerStore) : Prop :=
  ∃ rs, s'.log taskId = s.log taskId ++ rs ∧
    ∀ r ∈ rs, ∀ k, r.turnId = some k → ∃ e ∈ events, e.taskId = taskId ∧ e.turnId = some k

theorem Appends.of_streams {events : List AgentEvent} {taskId : String} {s s' : BrokerStore}
    (h : s'.streams = s.streams) : Appends events taskId s s' :=
  ⟨[], by rw [List.append_nil]; exact congrFun h taskId, nofun⟩

/-- One more record on some stream. -/
theorem Appends.of_update {events : List AgentEvent} {taskId stream : String} {r : Record} {s s' : BrokerStore}
    (h : s'.streams = Function.update s.streams stream (s.streams stream ++ [r]))
    (hr : ∀ k, r.turnId = some k → ∃ e ∈ events, e.taskId = stream ∧ e.turnId = some k) :
    Appends events taskId s s' := by
  by_cases hk : taskId = stream
  · subst hk
    refine ⟨[r], by simp [BrokerStore.log, h], fun r' hr' k hk => ?_⟩
    rw [List.mem_singleton.mp hr'] at hk
    exact hr k hk
  · exact ⟨[], by simp [BrokerStore.log, h, Function.update_of_ne hk], nofun⟩

/-- **What a step puts on a log** carries the turn numbers of the events it writes. -/
theorem log_exec (s : BrokerStore) (x : Instr) (taskId : String) :
    Appends x.writes taskId s (exec () s x).shared := by
  have hkept : ∀ {α : Type} {m : StoreM BrokerStore α} {next report}, KeepsStreams m →
      Appends x.writes taskId s (piece m s next report).shared := by
    intro α m next report hm
    exact .of_streams (by rw [piece_shared]; exact hm s)
  cases x with
  | start q => exact hkept (keepsStreams_canStart q.taskId)
  | ensure q => exact hkept (keepsStreams_ensureProjection q.taskId)
  | number q => exact hkept (keepsStreams_nextNumber q.taskId)
  | check w => exact hkept (keepsStreams_check w.event)
  | append w =>
    unfold exec
    rw [piece_shared]
    refine wp_state (wp_mono (append_spec w.event s) (fun r s' h => ?_) fun _ s' h => .of_streams h)
    obtain ⟨seq, -, hs⟩ := h
    exact .of_update hs fun k hk => ⟨w.event, List.mem_singleton_self _, rfl, turnId_of_recordOf hk⟩
  | fold k rs => exact hkept (keepsStreams_fold k rs)
  | writeEventsBatch first rest =>
    unfold exec
    rw [piece_shared]
    refine wp_state (wp_mono (appendBatch_spec (first :: rest) s) (fun seqs s' h => ?_) fun _ s' h => .of_streams h)
    refine ⟨_, by rw [BrokerStore.log, h, appendAll_apply]; rfl, fun r hr k hk => ?_⟩
    obtain ⟨w, hw, rfl⟩ := List.mem_map.mp hr
    obtain ⟨hzip, htask⟩ := List.mem_filter.mp hw
    exact ⟨w.1, (List.of_mem_zip hzip).1, by simpa using htask, turnId_of_recordOf hk⟩
  | createTask uuid taskType provenance body priority effectivePolicy =>
    unfold exec
    rw [piece_shared]
    refine wp_state (wp_mono (createTask_untagged uuid taskType provenance body priority effectivePolicy s)
      (fun _ s' h => ?_) fun _ s' h => .of_streams h)
    obtain ⟨r, hr, hs⟩ := h
    exact .of_update hs fun k hk => by rw [hr] at hk; cases hk
  | load k => exact hkept (keepsStreams_ensureProjection k)
  | invalidate k => exact hkept fun _ => rfl

/-! ## Numbers under way -/

/-- The writer is the start of the turn. -/
def Writer.holds (taskId : String) (turnId : Int) : Writer → Nat
  | turn q k => if q.taskId = taskId ∧ k = turnId then 1 else 0
  | other _ => 0

/-- The instruction belongs to a start that has computed the number and has not written it yet. -/
def Instr.holds (taskId : String) (turnId : Int) : Instr → Nat
  | check w | append w => w.holds taskId turnId
  | _ => 0

/-- The starts of turns that have computed the number and have not written it yet. -/
def underWay (t : System) (taskId : String) (turnId : Int) : Nat := total (Instr.holds taskId turnId) t.pool

/-- The projection knows the turn numbers of the log. -/
def Knows (p : TaskProjection) (log : List Record) : Prop := ∀ r ∈ log, ∀ k ∈ r.turnId, k ≤ p.maxTurnId

instance (p : TaskProjection) (log : List Record) : Decidable (Knows p log) :=
  inferInstanceAs (Decidable (∀ r ∈ log, ∀ k ∈ r.turnId, _))

/-- A projection that is asked for the largest turn number knows its log, and the last number is not used up; and a
write carries no number that another start has under way. -/
def KeepsNumbersApart (t : System) (_ : Unit) (x : Instr) : Prop :=
  match x with
  | .number q => ∀ p ∈ t.shared.cache.map.lookup q.taskId,
      Knows p (t.shared.log q.taskId) ∧ InI64 p.maxTurnId ∧ p.maxTurnId ≠ 2 ^ 63 - 1
  | x => ∀ e ∈ x.writes, ∀ k ∈ e.turnId, underWay t e.taskId k = x.holds e.taskId k

instance (t : System) (u : Unit) (x : Instr) : Decidable (KeepsNumbersApart t u x) := by
  unfold KeepsNumbersApart
  split <;> infer_instance

/-- The numbers under way are on no log yet, and the assigned ones are. -/
structure Numbered (t : System) : Prop where
  inRange : Everywhere (fun x => ∀ q k, x = .check (.turn q k) ∨ x = .append (.turn q k) → InI64 k) t.pool
  unused : ∀ taskId k, underWay t taskId k ≠ 0 → ¬ Tagged (t.shared.log taskId) k
  logged : ∀ taskId k, Act.assigned taskId k ∈ t.trace → Tagged (t.shared.log taskId) k

/-- A start gets the number after the largest one of the cached projection. -/
theorem next_number {s : BrokerStore} {q : Request} {y : Instr} (hy : y ∈ (exec () s (.number q)).next) :
    ∃ p, s.cache.map.lookup q.taskId = some p ∧ y = .check (.turn q (wrapI64 (p.maxTurnId + 1))) := by
  unfold exec at hy
  rcases piece_cases (nextNumber q.taskId) s (fun turnId => [Instr.check (.turn q turnId)]) [] with
    ⟨k, s', hm, hnext, -⟩ | ⟨hnext, -⟩
  · rw [hnext, List.mem_singleton] at hy
    obtain ⟨current, s₁, hget, hk⟩ := bind_eq_ok.mp hm
    obtain ⟨s₂, hspec, -⟩ := cacheGet_spec q.taskId s
    rw [hspec] at hget
    cases hget
    cases hl : s.cache.map.lookup q.taskId with
    | none => rw [hl] at hk; cases hk
    | some p =>
      rw [hl] at hk
      cases hk
      exact ⟨p, rfl, hy⟩
  · rw [hnext] at hy
    cases hy

/-- Any other instruction computes no number. -/
theorem next_holds {s : BrokerStore} {x : Instr} (hx : ∀ q, x ≠ .number q) (taskId : String) (k : Int) :
    weight (Instr.holds taskId k) (exec () s x).next ≤ x.holds taskId k := by
  cases x with
  | number q => exact absurd rfl (hx q)
  | _ => exact piece_weight fun a => by simp [Instr.holds]

/-- The instructions of a write come from its check, and that from the computation of the number. -/
theorem next_write {s : BrokerStore} {x : Instr} {w : Writer} :
    (.check w ∈ (exec () s x).next → ∃ q, x = .number q) ∧ (.append w ∈ (exec () s x).next → x = .check w) := by
  constructor <;> intro hy <;> cases x <;> obtain ⟨a, ha⟩ := mem_piece_next hy <;> simp_all

/-- Nor does an instruction that writes leave a number under way. -/
theorem next_of_writes {s : BrokerStore} {x : Instr} (hx : x.writes ≠ []) (taskId : String) (k : Int) :
    weight (Instr.holds taskId k) (exec () s x).next = 0 := by
  refine Nat.le_zero.mp ?_
  cases x with
  | append w => exact piece_weight fun a => by simp [Instr.holds]
  | writeEventsBatch first rest => exact piece_weight fun a => by simp [Instr.holds]
  | _ => exact absurd rfl hx

/-- A number is assigned when the start event goes to the log. -/
theorem assigned_mem_exec {s : BrokerStore} {x : Instr} {taskId : String} {k : Int}
    (h : Act.assigned taskId k ∈ (exec () s x).acts) :
    ∃ q seq, q.taskId = taskId ∧ x = .append (.turn q k) ∧
      (exec () s x).shared.log taskId = s.log taskId ++ [recordOf seq (Writer.turn q k).event] := by
  have hsilent : ∀ {α : Type} {m : StoreM BrokerStore α} {next : α → List Instr},
      Act.assigned taskId k ∉ (piece m s next).acts := by
    intro α m next hm
    rcases piece_cases m s next [] with ⟨-, -, -, -, ha⟩ | ⟨-, ha⟩ <;>
      · rw [ha] at hm
        cases hm
  cases x with
  | append w =>
    unfold exec at h ⊢
    rw [piece_shared]
    rcases piece_cases (append w.event) s (fun r => [Instr.fold w.event.taskId [r]]) w.report with
      ⟨r, s', hm, -, ha⟩ | ⟨-, ha⟩
    · rw [ha] at h
      cases w with
      | turn q j =>
        cases List.mem_singleton.mp h
        obtain ⟨seq, -, hs⟩ := wp_ok (append_spec _ s) hm
        refine ⟨q, seq, rfl, rfl, ?_⟩
        rw [hm]
        show s'.streams q.taskId = _
        rw [hs]
        exact Function.update_self ..
      | other e => cases h
    · rw [ha] at h
      cases h
  | _ => exact absurd h hsilent

variable {t t' : System} {m : Move Instr Unit} {i : Nat} {env : Unit} {x : Instr} {rest : List Instr}

/-- The numbers under way, over one step. -/
theorem underWay_exec (h : Executes exec t m t' i env x rest) (taskId : String) (k : Int) :
    underWay t' taskId k + x.holds taskId k =
      underWay t taskId k + weight (Instr.holds taskId k) (exec () t.shared x).next := by
  have hbalance := h.total (Instr.holds taskId k)
  rw [exec_spawned, weight_nil] at hbalance
  exact hbalance

theorem Numbered.enter (h : Numbered t) (hx : x.isEntry = true) : Numbered { t with pool := t.pool ++ [[x]] } := by
  have hfree : ∀ taskId k, x.holds taskId k = 0 := by
    intro taskId k
    cases x with
    | check w => cases w with
      | turn q j => cases hx
      | other e => rfl
    | append w => cases hx
    | _ => rfl
  refine ⟨fun stack hs y hy => ?_, fun taskId k hne => h.unused taskId k ?_, h.logged⟩
  · rcases List.mem_append.mp hs with hs | hs
    · exact h.inRange stack hs y hy
    · rw [List.mem_singleton.mp hs] at hy
      rw [List.mem_singleton.mp hy]
      rintro q k (rfl | rfl) <;> cases hx
  · simpa [underWay, hfree] using hne

/-- A number that has just been computed is on no log. -/
theorem unused_of_knows {p : TaskProjection} {log : List Record} (hk : Knows p log) (hp : InI64 p.maxTurnId)
    (hlast : p.maxTurnId ≠ 2 ^ 63 - 1) :
    wrapI64 (p.maxTurnId + 1) = p.maxTurnId + 1 ∧ ¬ Tagged log (p.maxTurnId + 1) := by
  obtain ⟨hlo, hhi⟩ := hp
  refine ⟨wrapI64_of_inI64 ⟨by omega, by omega⟩, fun ⟨r, hr, htag⟩ => ?_⟩
  have := hk r hr _ htag
  omega

/-- **What one step preserves.** -/
theorem Numbered.exec (h : Numbered t) (hx : Executes exec t m t' i env x rest) (hc : KeepsNumbersApart t env x) :
    Numbered t' := by
  have hgrows : ∀ taskId k, Tagged (t.shared.log taskId) k → Tagged (t'.shared.log taskId) k := by
    rintro taskId k ⟨r, hr, hk⟩
    obtain ⟨rs, hlog, -⟩ := log_exec t.shared x taskId
    exact ⟨r, by rw [hx.shared, hlog]; exact List.mem_append_left _ hr, hk⟩
  constructor
  · refine hx.everywhere h.inRange fun y hy => ?_
    rw [exec_spawned, List.append_nil] at hy
    rintro q k (rfl | rfl)
    · obtain ⟨q', rfl⟩ := next_write.1 hy
      obtain ⟨p, -, heq⟩ := next_number hy
      cases heq
      exact wrapI64_inI64 _
    · cases next_write.2 hy
      exact hx.of_everywhere h.inRange q k (Or.inl rfl)
  · intro taskId k hne htag
    have hbalance := underWay_exec hx taskId k
    obtain ⟨rs, hlog, hrs⟩ := log_exec t.shared x taskId
    obtain ⟨r, hr, hk⟩ := htag
    rw [hx.shared, hlog] at hr
    rcases List.mem_append.mp hr with hr | hr
    · have hold : Tagged (t.shared.log taskId) k := ⟨r, hr, hk⟩
      have hzero : underWay t taskId k = 0 := by_contra fun hne => h.unused taskId k hne hold
      by_cases hnum : ∃ q, x = .number q
      · -- the only new number is the one after the largest that the projection knows
        obtain ⟨q, rfl⟩ := hnum
        have hnew : weight (Instr.holds taskId k) (exec () t.shared (.number q)).next ≠ 0 := by omega
        obtain ⟨y, hy, hyk⟩ := exists_mem_of_weight hnew
        obtain ⟨p, hp, rfl⟩ := next_number hy
        obtain ⟨hknows, hrange, hlast⟩ := hc p hp
        obtain ⟨heq, hunused⟩ := unused_of_knows hknows hrange hlast
        rw [heq] at hyk
        have hkey : q.taskId = taskId ∧ p.maxTurnId + 1 = k := by
          by_contra hne
          exact hyk (if_neg hne)
        obtain ⟨rfl, rfl⟩ := hkey
        exact hunused hold
      · have hle := next_holds (s := t.shared) (fun q hq => hnum ⟨q, hq⟩) taskId k
        omega
    · -- the record that has just been written
      obtain ⟨e, he, rfl, hek⟩ := hrs r hr k hk
      have hzero := next_of_writes (s := t.shared) (List.ne_nil_of_mem he) e.taskId k
      have halone : underWay t e.taskId k = x.holds e.taskId k := by
        cases x with
        | number q => cases he
        | _ => exact hc e he k hek
      omega
  · intro taskId k hk
    rw [hx.trace] at hk
    rcases List.mem_append.mp hk with hk | hk
    · obtain ⟨q, seq, rfl, rfl, hlog⟩ := assigned_mem_exec (List.mem_reverse.mp hk)
      refine ⟨recordOf seq (Writer.turn q k).event, ?_, ?_⟩
      · rw [hx.shared, hlog]
        exact List.mem_append_right _ (List.mem_singleton_self _)
      · have hrange : InI64 k := hx.of_everywhere h.inRange q k (Or.inr rfl)
        exact recordOf_turnId fun j hj => by cases hj; exact hrange
    · exact hgrows taskId k (h.logged taskId k hk)

/-- What is assigned is fresh. -/
theorem Numbered.fresh (h : Numbered t) {a : Act} (ha : a ∈ acts Numbering.exec t m) : a.Fresh t := by
  obtain ⟨i, env, x, rest, hx, ha⟩ := @mem_acts _ _ _ _ _ Instr.isEntry _ _ _ ha
  cases a with
  | assigned taskId k =>
    obtain ⟨q, seq, rfl, rfl, -⟩ := assigned_mem_exec ha
    have hle := hx.le_total (Instr.holds q.taskId k)
    have hone : Instr.holds q.taskId k (.append (.turn q k)) = 1 := if_pos ⟨rfl, rfl⟩
    have hunused := h.unused q.taskId k (by unfold underWay; omega)
    exact ⟨hunused, fun hmem => hunused (h.logged q.taskId k hmem)⟩

/-- Numbers kept apart are computed without an overflow. -/
theorem noOverflow_of_apart (hc : Executing KeepsNumbersApart t m) : Executing (fun t _ x => NoOverflow t x) t m := by
  cases m with
  | enter x => trivial
  | exec k env =>
    rw [executing_iff] at hc ⊢
    intro x hx
    have hx' := hc x hx
    cases x with
    | number q =>
      intro p hp
      obtain ⟨-, ⟨hlo, hhi⟩, hlast⟩ := hx' p hp
      exact ⟨by omega, by omega⟩
    | _ => trivial

/-- **Turn numbers are fresh** in every run in which the projections that are asked for the largest turn number know the
numbers of their log, the last `i64` is not among them, and no event is written with a number that another start has
computed and not yet written. -/
theorem numbers_fresh (s : BrokerStore) {moves : List (Move Instr Unit)}
    (hm : Meets store (Executing KeepsNumbersApart) (System.start s) moves) :
    Meets store FreshNumbers (System.start s) moves := by
  have hstart : Numbered (System.start s) := ⟨nofun, fun _ _ h => absurd rfl h, nofun⟩
  refine meets_of_invariant (C := Executing KeepsNumbersApart) Numbered (fun t m h hc => ?_)
    (fun t m h hc => ?_) hstart hm
  · exact move_invariant_when hc h (fun _ hx => h.enter hx) fun _ _ _ _ _ hx hc => h.exec hx hc
  · exact ⟨fun _ ha => h.fresh ha, noOverflow_of_apart hc⟩

/-! ## Two starts at once, and the last number -/

/-- A task that is ready for a turn. -/
def readyTask : BrokerStore :=
  { streams := fun stream =>
      if stream = "task_1" then [⟨1, "task_created", .obj [], ∅⟩, ⟨2, "task_ready", .obj [], ∅⟩] else [] }

/-- Turns that are asked for. -/
def ask (redoGroup : String) : Move Instr Unit := .enter (.start { taskId := "task_1", userInput := "go", redoGroup })

/-- A call runs for so many steps. -/
def runs (i n : Nat) : List (Move Instr Unit) := List.replicate n (.exec i ())

/-- An event that a client posts. -/
def posted (turnId : Int) : Move Instr Unit :=
  .enter (.check (.other (AgentEvent.new "task_1" (some turnId) (some "step_1") .llmFailed
    (.obj [("error_type", .str "timeout"), ("error_message", .str "no answer")]))))

/-- A move of the task. -/
def taskMove (et : EventType) : Move Instr Unit :=
  .enter (.check (.other (AgentEvent.new "task_1" none none et (.obj [("reason", .str "again")]))))

/-- Two starts one after the other, and a posted event before them. -/
def inTurn : List (Move Instr Unit) :=
  [.enter (.load "task_1"), posted 7, ask "rg_1", taskMove .taskBlocked, taskMove .taskReady, ask "rg_2"] ++
    runs 0 1 ++ runs 1 3 ++ runs 2 6 ++ runs 3 3 ++ runs 4 3 ++ runs 5 6

theorem numbers_fresh_in_turn : Meets store FreshNumbers (System.start readyTask) inTurn ∧
    (run store (System.start readyTask) inTurn).trace = [.assigned "task_1" 9, .assigned "task_1" 8] :=
  ⟨numbers_fresh readyTask (by decide +kernel), by decide +kernel⟩

/-- Two starts that both read the largest number, and the state, before either writes. -/
def twoStarts : List (Move Instr Unit) := [ask "rg_1", ask "rg_2"] ++ runs 0 4 ++ runs 1 4 ++ runs 0 2 ++ runs 1 2

/-- A start after an event with the last number. -/
def startAfterLast : List (Move Instr Unit) :=
  [.enter (.load "task_1"), posted (2 ^ 63 - 1), ask "rg_1"] ++ runs 0 1 ++ runs 1 3 ++ runs 2 6

/-- A turn number is assigned twice, and the number after the last one overflows. -/
theorem same_number : ¬ Meets store FreshNumbers (System.start readyTask) twoStarts ∧
    ¬ Meets store FreshNumbers (System.start readyTask) startAfterLast := by
  constructor <;> decide +kernel

end Fixus.Numbering
