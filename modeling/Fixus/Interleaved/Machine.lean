import Fixus.Lib.Lru
import Fixus.Lib.Tasks
import Fixus.Store.Calls

/-!
# The broker store under concurrency

The store as a pool of calls in progress, each running from one `await` to the next: cache accesses, loads of a
projection, reads through `with_projection`, and writes. What the broker sends comes from the environment; it keeps its
promise that the marker of a shard comes after all records that were committed to it before the join.

- `Instr`, `Shared.exec`: the pieces of the calls;
- `Act`: what they report, the subject of the results about runs;
- `store`: one move of the system.
-/

namespace Fixus.Interleaved

open Lib

/-! ## State and environment -/

/-- A projection behind a reference, kept as the records applied to it. -/
structure Cell where
  taskId : String
  applied : List Record := []

def Cell.projection (c : Cell) : TaskProjection := TaskProjection.replay c.taskId c.applied

/-- The streams of the broker, the projections that were ever referred to, and the cache of references. -/
structure Shared where
  streams : String → List Record := fun _ => []
  cells : List Cell := []
  cache : Lru String Nat

/-- What arrives on the stream of a consumer. -/
inductive Delivery where
  /-- A record of the stream, by its position. -/
  | record (i : Nat)
  | caughtUp (shard : Nat)
  | notice
  | err
  /-- The deadline passes, or the stream ends. -/
  | stop
  deriving DecidableEq

/-- What an instruction gets from outside. -/
structure Env where
  session : Option (Finset Nat) := some {0}
  delivery : Delivery := .notice
  leaveErr : Bool := false
  produces : List ProduceReply := []

/-- What a projection is loaded for: nothing more, `ensure_projection` alone, a read, or the state check of
`transition_task`. -/
inductive Purpose where
  | load
  | ensure
  | read
  | transition (target : TaskState) (eventType : EventType) (payload : Json)

/-- A load in progress: the log when the call began, whether there was an entry before it, the shards assigned at the
join, and the length of the stream then. -/
structure Load where
  taskId : String
  purpose : Purpose
  committed : List Record
  had : Bool
  shards : Finset Nat
  joined : Nat

/-! ## Instructions -/

inductive Instr where
  -- `ProjectionCache`: `get`, `invalidate`, `catch_up`
  | get (taskId : String)
  | invalidate (taskId : String)
  | catchUp (taskId : String) (purpose : Purpose) (committed : List Record)
  | enter (l : Load)
  | consume (l : Load) (ref : Nat) (caughtUp : Finset Nat) (delivered : List Nat)
  | leave (l : Load) (ref : Nat)
  | finish (l : Load) (ref : Nat)
  -- `ensure_projection`, `with_projection`
  | ensureProjection (taskId : String) (purpose : Purpose)
  | readLoaded (taskId : String) (purpose : Purpose)
  -- `write_event`, `create_task`
  | writeEvent (e : AgentEvent)
  | produce (e : AgentEvent) (current : Option TaskState)
  | applyLocal (e : AgentEvent) (r : Record)
  | createTask (uuid taskType : String) (provenance : Provenance) (body : Option Json) (priority : Int)
      (effectivePolicy : Option EffectivePolicy)

namespace Instr

/-- The calls that come from outside. -/
def isEntry : Instr → Bool
  | get _ | invalidate _ | catchUp _ .load _ | ensureProjection _ _ | writeEvent _ | createTask _ _ _ _ _ _ => true
  | _ => false

/-- `transition_task`. -/
def transitionTask (taskId : String) (target : TaskState) (eventType : EventType) (payload : Json) : Instr :=
  ensureProjection taskId (.transition target eventType payload)

/-- `cancel_task`. -/
def cancelTask (taskId reason : String) : Instr :=
  ensureProjection taskId (.transition .canceled .taskCanceled (.obj [("reason", .str reason)]))

end Instr

/-- What the calls report. -/
inductive Act where
  /-- The task became the most recently used one. -/
  | used (taskId : String)
  | evicted (taskId : String)
  /-- A load failed; whether there was an entry before it, and whether there is one now. -/
  | failed (taskId : String) (before now : Bool)
  /-- `ensure_projection` succeeded; the log when it began, and the records applied to the cached projection now. -/
  | ensured (taskId : String) (committed : List Record) (found : Option (List Record))
  /-- The entry was gone after `ensure_projection`. -/
  | panicked (taskId : String)

/-! ## Execution -/

namespace Shared

/-- The records applied to the cached projection of a task. -/
def found (sh : Shared) (taskId : String) : Option (List Record) :=
  (sh.cache.map.lookup taskId).map fun ref => ((sh.cells[ref]?).map Cell.applied).getD []

/-- The cached state of a task. -/
def cachedState (sh : Shared) (taskId : String) : Option TaskState :=
  (sh.found taskId).map fun records => (TaskProjection.replay taskId records).state

/-- A cache access. -/
def touch (sh : Shared) (taskId : String) : Shared := { sh with cache := (sh.cache.get taskId).2 }

/-- The use that a cache access counts as, if it is a hit. -/
def useOf (sh : Shared) (taskId : String) : List Act :=
  if (sh.cache.map.lookup taskId).isSome then [.used taskId] else []

/-- Apply a record to the projection behind a reference. -/
def applyTo (sh : Shared) (ref : Nat) (r : Record) : Shared :=
  { sh with cells := sh.cells.modify ref fun c => { c with applied := c.applied ++ [r] } }

/-- The broker as the sequential store knows it. -/
def broker (sh : Shared) (env : Env) : BrokerStore := { streams := sh.streams, produces := env.produces }

/-- The end of a successful `ensure_projection`, or of a load by itself. -/
def ensured (sh : Shared) (taskId : String) (purpose : Purpose) (committed : List Record) : Outcome Shared Instr Act :=
  match purpose with
  | .load => { shared := sh }
  | .ensure => { shared := sh, acts := [.ensured taskId committed (sh.found taskId)] }
  | _ => { shared := sh, next := [.readLoaded taskId purpose], acts := [.ensured taskId committed (sh.found taskId)] }

/-- A load ends with an error, and so does its caller. -/
def failLoad (sh : Shared) (l : Load) : Outcome Shared Instr Act :=
  { shared := sh, acts := [.failed l.taskId l.had (sh.cache.map.lookup l.taskId).isSome] }

/-- The first phase of a load: the entry is created, empty, before anything has arrived. -/
def enter (sh : Shared) (l : Load) : Outcome Shared Instr Act :=
  match sh.cache.map.lookup l.taskId with
  | some ref => { shared := sh, next := [.consume l ref ∅ []] }
  | none =>
    { shared := { sh with
        cells := sh.cells ++ [{ taskId := l.taskId }]
        cache := sh.cache.enter l.taskId sh.cells.length }
      next := [.consume l sh.cells.length ∅ []] }

/-- After a frame: leave if all shards have caught up. -/
def nextFrame (l : Load) (ref : Nat) (caughtUp : Finset Nat) (delivered : List Nat) : Instr :=
  if caughtUp = l.shards then .leave l ref else .consume l ref caughtUp delivered

/-- One frame of a load. A broker that breaks its promise does not get to send. -/
def consume (home : String → Nat) (env : Env) (sh : Shared) (l : Load) (ref : Nat) (caughtUp : Finset Nat)
    (delivered : List Nat) : Outcome Shared Instr Act :=
  match env.delivery with
  | .record i =>
    match (sh.streams l.taskId)[i]? with
    | some r => { shared := sh.applyTo ref r, next := [nextFrame l ref caughtUp (i :: delivered)] }
    | none => { shared := sh, next := [.consume l ref caughtUp delivered] }
  | .caughtUp shard =>
    if shard = home l.taskId ∧ ¬ ∀ i < l.joined, i ∈ delivered then
      { shared := sh, next := [.consume l ref caughtUp delivered] }
    else { shared := sh, next := [nextFrame l ref (insert shard caughtUp) delivered] }
  | .notice => { shared := sh, next := [nextFrame l ref caughtUp delivered] }
  | .err => sh.failLoad l
  | .stop => { shared := sh, next := [.leave l ref] }

/-- The second phase of a load: the order of use, and evictions. -/
def finish (sh : Shared) (l : Load) : Outcome Shared Instr Act :=
  let out := ({ sh with cache := sh.cache.finish l.taskId } : Shared).ensured l.taskId l.purpose l.committed
  { out with acts := .used l.taskId :: (sh.cache.victims l.taskId).map .evicted ++ out.acts }

/-- The hit of `ensure_projection`, or the start of a load. -/
def ensureProjection (sh : Shared) (taskId : String) (purpose : Purpose) : Outcome Shared Instr Act :=
  match sh.cache.map.lookup taskId with
  | some _ =>
    let out := (sh.touch taskId).ensured taskId purpose (sh.streams taskId)
    { out with acts := .used taskId :: out.acts }
  | none => { shared := sh, next := [.catchUp taskId purpose (sh.streams taskId)] }

/-- The access after `ensure_projection`, which expects the entry, and what is done with the state. -/
def readLoaded (sh : Shared) (taskId : String) (purpose : Purpose) : Outcome Shared Instr Act :=
  match sh.cachedState taskId with
  | none => { shared := sh, acts := [.panicked taskId] }
  | some state =>
    { shared := sh.touch taskId
      acts := [.used taskId]
      next := match purpose with
        | .transition target eventType payload =>
          if TaskState.canTransition state target then [.writeEvent (AgentEvent.new taskId none none eventType payload)]
          else []
        | _ => [] }

/-- The checks of a write, the last one against the cached state. -/
def writeEvent (sh : Shared) (e : AgentEvent) : Outcome Shared Instr Act :=
  match e.validateScope, validatePayloadRequiredFields e.eventType e.payload with
  | .ok (), .ok () =>
    { shared := sh.touch e.taskId
      acts := sh.useOf e.taskId
      next := match validateTaskEventTransition (sh.cachedState e.taskId) e.eventType with
        | .ok () => [.produce e (sh.cachedState e.taskId)]
        | .error _ => [] }
  | _, _ => { shared := sh }

/-- The record of a write goes to the stream. -/
def produce (env : Env) (sh : Shared) (e : AgentEvent) : Outcome Shared Instr Act :=
  match BrokerStore.produce e.taskId e.eventType.asStr e.payload (BrokerStore.eventMeta e) (sh.broker env) with
  | (.ok seq, s) =>
    { shared := { sh with streams := s.streams }, next := [.applyLocal e (BrokerStore.recordOf seq e)] }
  | (.error _, _) => { shared := sh }

/-- The record of a write goes into the cached projection, if there is one. -/
def applyLocal (sh : Shared) (e : AgentEvent) (r : Record) : Outcome Shared Instr Act :=
  match sh.cache.map.lookup e.taskId with
  | some ref => { shared := (sh.touch e.taskId).applyTo ref r, acts := [.used e.taskId] }
  | none => { shared := sh }

/-- What an instruction does. -/
def exec (home : String → Nat) (env : Env) (sh : Shared) : Instr → Outcome Shared Instr Act
  | .get taskId => { shared := sh.touch taskId, acts := sh.useOf taskId }
  | .invalidate taskId => { shared := { sh with cache := sh.cache.invalidate taskId } }
  | .catchUp taskId purpose committed =>
    let had := (sh.cache.map.lookup taskId).isSome
    match env.session with
    | none => { shared := sh, acts := [.failed taskId had had] }
    | some shards =>
      { shared := sh
        next := [.enter { taskId, purpose, committed, had, shards, joined := (sh.streams taskId).length }] }
  | .enter l => sh.enter l
  | .consume l ref caughtUp delivered => consume home env sh l ref caughtUp delivered
  | .leave l ref => if env.leaveErr then sh.failLoad l else { shared := sh, next := [.finish l ref] }
  | .finish l _ => sh.finish l
  | .ensureProjection taskId purpose => sh.ensureProjection taskId purpose
  | .readLoaded taskId purpose => sh.readLoaded taskId purpose
  | .writeEvent e => sh.writeEvent e
  | .produce e _ => produce env sh e
  | .applyLocal e r => sh.applyLocal e r
  | .createTask uuid taskType provenance body priority effectivePolicy =>
    { shared := { sh with
        streams :=
          ((Call.createTask uuid taskType provenance body priority effectivePolicy).after (sh.broker env)).streams } }

end Shared

/-- The calls in progress on a store. -/
abbrev System := Tasks Shared Instr Act

/-- One move: a call comes in, or one of those in progress runs to its next `await`. -/
def store (home : String → Nat) (t : System) (m : Move Instr Env) : System :=
  move (fun env sh x => sh.exec home env x) Instr.isEntry t m

/-- What the move reports. -/
def actsOf (home : String → Nat) (t : System) (m : Move Instr Env) : List Act :=
  acts (fun env sh x => Shared.exec home env sh x) t m

/-- A new store on top of a broker with these streams. -/
def System.start (streams : String → List Record) (cap : Nat) : System := { shared := { streams, cache := { cap } } }

end Fixus.Interleaved
