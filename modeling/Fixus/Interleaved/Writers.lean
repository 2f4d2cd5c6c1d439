import Fixus.Interleaved.Order
import Fixus.Lifecycle.Sequential

/-!
# Concurrent writers

A write reads the cached state and checks it in one step, produces its record in another.

- `LegalAfter`: a replay with the guard of writes, which never refuses;
- `ChecksHold`: what a write has checked still holds when its record is produced;
- `writers_legal`: in every run whose checks hold the log stays legal, and the task ends at most once;
- `two_endings`: two writers that check before either of them produces.
-/

namespace Fixus.Interleaved

open Lib

variable {home : String → Nat}

/-! ## Replay with the guard -/

/-- The state that a replay has reached, none before the first record. -/
def currentState (log : List Record) : Option TaskState := if log = [] then none else some (stateOf log)

/-- The guard admits the record after the log. -/
def Admits (log : List Record) (r : Record) : Prop :=
  match EventType.fromStr r.eventType with
  | some e => validateTaskEventTransition (currentState log) e = .ok ()
  | none => False

instance (log : List Record) (r : Record) : Decidable (Admits log r) := by
  unfold Admits
  split <;> infer_instance

/-- A replay with the guard admits each of the records after the ones before it. -/
def LegalAfter : List Record → List Record → Prop
  | _, [] => True
  | log, r :: rs => Admits log r ∧ LegalAfter (log ++ [r]) rs

instance LegalAfter.decidable : (log rs : List Record) → Decidable (LegalAfter log rs)
  | _, [] => inferInstanceAs (Decidable True)
  | log, r :: rs => @instDecidableAnd _ _ _ (LegalAfter.decidable (log ++ [r]) rs)

theorem admits_iff {log : List Record} {r : Record} : Admits log r ↔
    ∃ e, EventType.fromStr r.eventType = some e ∧ validateTaskEventTransition (currentState log) e = .ok () := by
  unfold Admits
  cases EventType.fromStr r.eventType <;> simp

/-- Legal extensions compose. -/
theorem legalAfter_append {log rs rs' : List Record} :
    LegalAfter log (rs ++ rs') ↔ LegalAfter log rs ∧ LegalAfter (log ++ rs) rs' := by
  induction rs generalizing log with
  | nil => simp [LegalAfter]
  | cons r rs ih =>
    rw [List.cons_append, LegalAfter, LegalAfter, ih, List.append_assoc, List.singleton_append, and_assoc]

/-- After the first record the guard follows the edges of the state graph. -/
theorem LegalAfter.lawful {log rs : List Record} (h : LegalAfter log rs) (hne : log ≠ []) : Lawful log rs := by
  induction rs generalizing log with
  | nil => exact .nil _
  | cons r rs ih =>
    obtain ⟨hr, hrs⟩ := h
    obtain ⟨e, he, hvalid⟩ := admits_iff.mp hr
    have hcurrent : currentState log = some (stateOf log) := if_neg hne
    rw [hcurrent] at hvalid
    exact .cons (stepLawful_of_valid he hvalid) (ih hrs (by simp))

/-- The first record does not end the task. -/
theorem Admits.not_endsTask {r : Record} (h : Admits [] r) : endsTask r = false := by
  obtain ⟨e, he, hvalid⟩ := admits_iff.mp h
  have hcurrent : currentState [] = none := rfl
  rw [hcurrent, validateTaskEventTransition_none] at hvalid
  unfold endsTask
  rw [he]
  rcases hvalid with htarget | rfl
  · by_contra hend
    obtain ⟨t, ht, -⟩ := isTerminal_of_isTaskTerminal (e := e) (by simpa using hend)
    rw [htarget] at ht
    cases ht
  · rfl

/-- **A legal extension ends the task at most once.** -/
theorem LegalAfter.endings {log rs : List Record} (h : LegalAfter log rs) : (rs.filter endsTask).length ≤ 1 := by
  by_cases hne : log = []
  · subst hne
    cases rs with
    | nil => exact Nat.zero_le _
    | cons r rs =>
      obtain ⟨hr, hrs⟩ := h
      rw [List.filter_cons, if_neg (by rw [hr.not_endsTask]; exact Bool.false_ne_true)]
      exact (hrs.lawful (by simp)).terminal_le_one
  · exact (h.lawful hne).terminal_le_one

/-! ## Runs of writers -/

/-- What the write has checked still holds: no other record has moved the state since, and the projection was that of
the log. A created task is a new one. -/
def ChecksHold (t : System) (_ : Env) (x : Instr) : Prop :=
  match x with
  | .produce e current => e.eventType.targetState ≠ none → current = currentState (t.shared.streams e.taskId)
  | .createTask uuid _ _ _ _ _ => t.shared.streams (createdId uuid) = []
  | _ => True

instance (t : System) (env : Env) : (x : Instr) → Decidable (ChecksHold t env x)
  | .produce e current =>
    inferInstanceAs (Decidable (e.eventType.targetState ≠ none → current = currentState (t.shared.streams e.taskId)))
  | .createTask uuid _ _ _ _ _ => inferInstanceAs (Decidable (t.shared.streams (createdId uuid) = []))
  | .get _ | .invalidate _ | .catchUp _ _ _ | .enter _ | .consume _ _ _ _ | .leave _ _ | .finish _ _
  | .ensureProjection _ _ | .readLoaded _ _ | .writeEvent _ | .applyLocal _ _ => isTrue trivial

/-- A write that is about to produce has passed the guard, in the state it has read. -/
def PassedGuard (x : Instr) : Prop :=
  ∀ e current, x = .produce e current → validateTaskEventTransition current e.eventType = .ok ()

/-- The logs are legal extensions of the streams. -/
structure Guarded (streams : String → List Record) (t : System) : Prop where
  checked : Everywhere PassedGuard t.pool
  legal : ∀ taskId, ∃ rs, t.shared.streams taskId = streams taskId ++ rs ∧ LegalAfter (streams taskId) rs

/-- A write gets to produce only through the guard. -/
theorem passedGuard_next {env : Env} {sh : Shared} {x : Instr} : ∀ y ∈ (sh.exec home env x).next, PassedGuard y := by
  have hens : ∀ (sh : Shared) taskId purpose committed, ∀ y ∈ (sh.ensured taskId purpose committed).next,
      PassedGuard y := by
    intro sh taskId purpose committed y hy e current heq
    subst heq
    cases purpose <;> simp [Shared.ensured] at hy
  intro y hy e current heq
  subst heq
  cases x with
  | writeEvent e' =>
    simp only [Shared.exec, Shared.writeEvent] at hy
    split at hy
    · simp only at hy
      split at hy
      · rename_i hvalid
        cases List.mem_singleton.mp hy
        exact hvalid
      · cases hy
    · cases hy
  | catchUp taskId purpose committed => simp only [Shared.exec] at hy; split at hy <;> simp at hy
  | enter l => simp only [Shared.exec, Shared.enter] at hy; split at hy <;> simp at hy
  | consume l ref caughtUp delivered =>
    have hframe : ∀ caughtUp delivered, Instr.produce e current ≠ Shared.nextFrame l ref caughtUp delivered := by
      intro caughtUp delivered
      unfold Shared.nextFrame
      split <;> simp
    simp only [Shared.exec, Shared.consume] at hy
    split at hy <;> first
      | (split at hy <;> simp [hframe] at hy)
      | simp [hframe, Shared.failLoad] at hy
  | leave l ref => simp only [Shared.exec] at hy; split at hy <;> simp [Shared.failLoad] at hy
  | finish l ref => exact hens _ _ _ _ _ hy e current rfl
  | ensureProjection taskId purpose =>
    simp only [Shared.exec, Shared.ensureProjection] at hy
    split at hy
    · exact hens _ _ _ _ _ hy e current rfl
    · simp at hy
  | readLoaded taskId purpose =>
    simp only [Shared.exec, Shared.readLoaded] at hy
    split at hy
    · simp at hy
    · cases purpose with
      | transition target eventType payload =>
        simp only at hy
        split at hy <;> simp at hy
      | _ => simp at hy
  | produce e' current' => simp only [Shared.exec, Shared.produce] at hy; split at hy <;> simp at hy
  | applyLocal e' r => simp only [Shared.exec, Shared.applyLocal] at hy; split at hy <;> simp at hy
  | _ => simp [Shared.exec] at hy

variable {streams : String → List Record} {t t' : System} {m : Move Instr Env} {k : Nat} {env : Env} {x : Instr}
  {rest : List Instr}

/-- A call that comes in does not produce at once. -/
theorem Guarded.enter (h : Guarded streams t) (hx : x.isEntry = true) :
    Guarded streams { t with pool := t.pool ++ [[x]] } := by
  refine ⟨fun stack hs y hy => ?_, h.legal⟩
  rcases List.mem_append.mp hs with hs | hs
  · exact h.checked stack hs y hy
  · rw [List.mem_singleton.mp hs] at hy
    rw [List.mem_singleton.mp hy]
    intro e current heq
    subst heq
    cases hx

/-- **What one instruction preserves.** -/
theorem Guarded.exec (h : Guarded streams t)
    (hx : Executes (fun env sh x => Shared.exec home env sh x) t m t' k env x rest) (hc : ChecksHold t env x) :
    Guarded streams t' := by
  constructor
  · refine hx.everywhere h.checked fun y hy => ?_
    rw [exec_spawned, List.append_nil] at hy
    exact passedGuard_next y hy
  · intro taskId
    obtain ⟨rs, hrs, hlegal⟩ := h.legal taskId
    rw [hx.shared]
    -- one more record
    have hmore : ∀ (k : String) (r : Record), Admits (t.shared.streams k) r → ∃ rs,
        Function.update t.shared.streams k (t.shared.streams k ++ [r]) taskId = streams taskId ++ rs ∧
          LegalAfter (streams taskId) rs := by
      intro k r hr
      by_cases he : taskId = k
      · subst he
        refine ⟨rs ++ [r], ?_, legalAfter_append.mpr ⟨hlegal, hrs ▸ hr, trivial⟩⟩
        rw [Function.update_self, hrs, List.append_assoc]
      · rw [Function.update_of_ne he]
        exact ⟨rs, hrs, hlegal⟩
    rcases streams_exec home env t.shared x with hs | ⟨e, current, seq, rfl, -, hs⟩ |
      ⟨uuid, _, _, _, _, _, r, rfl, hr, hs⟩
    · rw [hs]
      exact ⟨rs, hrs, hlegal⟩
    · rw [hs]
      refine hmore _ _ (admits_iff.mpr ⟨e.eventType, EventType.fromStr_asStr _, ?_⟩)
      have hpassed : validateTaskEventTransition current e.eventType = .ok () :=
        hx.of_everywhere h.checked e current rfl
      by_cases htarget : e.eventType.targetState = none
      · simp [validateTaskEventTransition, htarget]
      · rw [← hc htarget]
        exact hpassed
    · rw [hs]
      refine hmore _ _ (admits_iff.mpr ⟨.taskCreated, hr ▸ EventType.fromStr_asStr _, ?_⟩)
      have hnew : t.shared.streams (createdId uuid) = [] := hc
      rw [hnew]
      rfl

/-- **Concurrent writers keep the log legal** in every run in which what they have checked still holds when they
produce: a replay from the start never meets a record that the guard refuses, if it met none before the run, and the
run ends the task at most once. -/
theorem writers_legal {cap : Nat} {moves : List (Move Instr Env)}
    (hm : Meets (store home) (Executing ChecksHold) (System.start streams cap) moves) (taskId : String) :
    let log := (run (store home) (System.start streams cap) moves).shared.streams taskId
    (LegalAfter [] (streams taskId) → LegalAfter [] log) ∧
      ∃ rs, log = streams taskId ++ rs ∧ (rs.filter endsTask).length ≤ 1 := by
  have hstart : Guarded streams (System.start streams cap) :=
    ⟨nofun, fun _ => ⟨[], (List.append_nil _).symm, trivial⟩⟩
  have hend : Guarded streams (run (store home) (System.start streams cap) moves) :=
    run_invariant (Guarded streams) (fun t m h hc => move_invariant_when hc h (fun x hx => h.enter hx)
      fun _ _ _ _ _ he hc => h.exec he hc) hstart hm
  obtain ⟨rs, hrs, hlegal⟩ := hend.legal taskId
  refine ⟨fun hold => ?_, rs, hrs, hlegal.endings⟩
  rw [hrs]
  exact legalAfter_append.mpr ⟨hold, hlegal⟩

/-- The streams when one task runs its first turn. -/
def executing (taskId : String) : List Record :=
  if taskId = "task_1" then
    [⟨1, "task_created", .obj [], ∅⟩, ⟨2, "task_ready", .obj [], ∅⟩,
      ⟨3, "turn_started", .obj [], (∅ : Metadata).insert "turn_id" "1"⟩]
  else []

/-- The projection is loaded, then two clients want to end the task. -/
def twoWriters : List (Move Instr Env) :=
  [.enter (.ensureProjection "task_1" .ensure), .exec 0 {}, .exec 0 {}, .exec 0 {}, .exec 0 { delivery := .record 0 },
    .exec 0 { delivery := .record 1 }, .exec 0 { delivery := .record 2 }, .exec 0 { delivery := .caughtUp 0 },
    .exec 0 {}, .exec 0 {}, .enter (.cancelTask "task_1" "stop"),
    .enter (.transitionTask "task_1" .succeeded .taskSucceeded (.obj [("reason", .str "done")]))]

/-- The client runs to the check of its write. -/
def checkMoves (k : Nat) : List (Move Instr Env) := [.exec k {}, .exec k {}, .exec k {}]

/-- The client produces its record and applies it. -/
def produceMoves (k : Nat) : List (Move Instr Env) := [.exec k {}, .exec k {}]

/-- The theorem at two clients, one after the other, of which the second is refused. -/
theorem writers_legal_in_turn :
    let log := (run (store fun _ => 0) (System.start executing 2)
      (twoWriters ++ checkMoves 1 ++ produceMoves 1 ++ checkMoves 2 ++ produceMoves 2)).shared.streams "task_1"
    (LegalAfter [] (executing "task_1") → LegalAfter [] log) ∧
      ∃ rs, log = executing "task_1" ++ rs ∧ (rs.filter endsTask).length ≤ 1 :=
  writers_legal (by decide +kernel) "task_1"

/-- Both clients check before either of them produces: the task is canceled and succeeds. -/
theorem two_endings :
    let log := (run (store fun _ => 0) (System.start executing 2)
      (twoWriters ++ checkMoves 1 ++ checkMoves 2 ++ produceMoves 1 ++ produceMoves 2)).shared.streams "task_1"
    LegalAfter [] (executing "task_1") ∧
      log.map Record.eventType = ["task_created", "task_ready", "turn_started", "task_canceled", "task_succeeded"] ∧
      (log.filter endsTask).length = 2 ∧ ¬ LegalAfter [] log := by
  decide +kernel

end Fixus.Interleaved
