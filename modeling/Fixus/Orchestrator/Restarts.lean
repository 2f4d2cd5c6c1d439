import Fixus.Orchestrator.Steps
import Fixus.Store.Context

/-!
# Restarts of the process

A process that is started over has lost its handlers, its queues, its counters and its cache; the streams of the broker
are still there.

- `happen`: what can come next, a move or a restart;
- `log_prefix_run`, `events_subset_run`: nothing is taken out of a log;
- `UpToDate`: a store that answers from the whole log of a task, with `upToDate_restart` for one that is started over.
-/

namespace Fixus

open Lib BrokerStore TaskProjection

/-- A move of the orchestrator, or a new start over the same streams. -/
inductive Happening where
  | move (m : OMove)
  | restart (produces : List ProduceReply) (sessions : List Session) (maxConcurrent : Nat)

def happen (cfg : Config) (o : Orchestrator) : Happening → Orchestrator
  | .move m => orchestrate cfg o m
  | .restart produces sessions n => .start { streams := o.shared.store.streams, produces, sessions } n

variable {cfg : Config} {o : Orchestrator} {taskId : String}

theorem Grows.log_prefix {written : List (String × EventType × Option Int)} {st st' : BrokerStore}
    (h : Grows written st st') (taskId : String) : st.log taskId <+: st'.log taskId := by
  obtain ⟨new, hnew, -⟩ := h taskId
  exact ⟨new, hnew.symm⟩

theorem log_prefix_happen (cfg : Config) (o : Orchestrator) (i : Happening) (taskId : String) :
    o.shared.store.log taskId <+: (happen cfg o i).shared.store.log taskId := by
  cases i with
  | move m =>
    show _ <+: (orchestrate cfg o m).shared.store.log taskId
    unfold orchestrate
    rcases move_cases (execWith cfg) Instr.isEntry o m with ⟨heq, -⟩ | ⟨x, -, heq, -⟩ | ⟨k, env, x, rest, he⟩
    · rw [heq]
    · rw [heq]
    · obtain ⟨written, hgrows, -⟩ := (exec_step cfg env o.shared x).grows
      rw [he.shared]
      exact hgrows.log_prefix taskId
  | restart produces sessions n => exact List.prefix_refl _

/-- **Nothing is taken out of a log**, in any run with any restarts. -/
theorem log_prefix_run (cfg : Config) (o : Orchestrator) (is : List Happening) (taskId : String) :
    o.shared.store.log taskId <+: (run (happen cfg) o is).shared.store.log taskId :=
  run_relation (C := fun _ _ => True) (fun _ => True)
    (fun o o' => o.shared.store.log taskId <+: o'.shared.store.log taskId) (fun _ => List.prefix_refl _)
    (fun _ _ _ => List.IsPrefix.trans) (fun _ _ _ _ => trivial)
    (fun o i _ _ => log_prefix_happen cfg o i taskId) trivial
    meets_true

/-- The events of a log stay. -/
theorem events_subset_run (cfg : Config) (is : List Happening) {e : AgentEvent}
    (he : e ∈ eventsOf taskId (o.shared.store.log taskId)) :
    e ∈ eventsOf taskId ((run (happen cfg) o is).shared.store.log taskId) := by
  obtain ⟨new, hnew⟩ := log_prefix_run cfg o is taskId
  rw [← hnew, eventsOf, List.filterMap_append]
  exact List.mem_append_left _ he

/-- The store answers from the whole log of the task, whose numbers ascend. -/
structure UpToDate (taskId : String) (s : BrokerStore) : Prop where
  healthy : Healthy s
  view : s.view taskId = replay taskId (s.log taskId)
  ascending : Ascending (s.log taskId)
  fits : ∀ r ∈ s.log taskId, r.seq < 2 ^ 64

theorem UpToDate.nodup {s : BrokerStore} (h : UpToDate taskId s) :
    ((eventsOf taskId (s.log taskId)).map AgentEvent.seq).Nodup := nodup_seqs h.ascending h.fits

/-- A store that is started over answers from the log. -/
theorem upToDate_restart {streams : String → List Record} (ha : Ascending (streams taskId))
    (hseq : ∀ r ∈ streams taskId, r.seq < 2 ^ 64) : UpToDate taskId { streams } :=
  ⟨⟨rfl, List.nodup_nil, nofun, (show 1 ≤ 1000 by decide)⟩, rfl, ha, hseq⟩

end Fixus
