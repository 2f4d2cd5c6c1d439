import Fixus.Interleaved.Order

/-!
# What a load leaves behind

- `LeavesLoadsWhole`: no load breaks off, times out early or loses its entry, and no read finds an entry that is being
  filled;
- `Whole`: every cached projection that is not being loaded has all records of its stream, but for those that are just
  being written; `Whole.exec` is one step;
- `loads_all_or_nothing`: in every run of whole loads a failed load leaves nothing behind and a successful
  `ensure_projection` finds everything that was committed before;
- `half_loaded`: a stream error and a timeout.
-/

namespace Fixus.Interleaved

open Lib

variable {home : String → Nat}

/-- The instruction belongs to a load of the task that has joined the group of its stream. -/
def Instr.joins (taskId : String) : Instr → Nat
  | .enter l | .consume l _ _ _ | .leave l _ | .finish l _ => if l.taskId = taskId then 1 else 0
  | _ => 0

/-- The loads of a task, from the join on. -/
def inFlight (t : System) (taskId : String) : Nat := total (Instr.joins taskId) t.pool

/-- The instruction applies a record to the projection of the task. -/
def Instr.applies (taskId : String) : Instr → Nat
  | .applyLocal e _ => if e.taskId = taskId then 1 else 0
  | _ => 0

/-- The writes of a task between the stream and the projection. -/
def applying (t : System) (taskId : String) : Nat := total (Instr.applies taskId) t.pool

/-- The act is as a load that is all or nothing reports it. -/
def Act.AllOrNothing : Act → Prop
  | .failed _ before now => before = false → now = false
  | .ensured _ committed found => ∃ records, found = some records ∧ committed ⊆ records
  | _ => True

/-- The instruction leaves the loads whole. -/
def LeavesLoadsWhole (home : String → Nat) (t : System) (env : Env) (x : Instr) : Prop :=
  match x with
  | .catchUp taskId _ _ => ∀ shards ∈ env.session, home taskId ∈ shards
  | .consume l _ caughtUp _ => env.delivery ≠ .err ∧ (env.delivery = .stop → home l.taskId ∈ caughtUp)
  | .leave _ _ => env.leaveErr = false
  | .invalidate _ | .finish _ _ => ∀ taskId ∈ x.removes t.shared, inFlight t taskId = 0
  | .ensureProjection taskId _ => taskId ∈ t.shared.cache.map → loading t taskId = 0 ∧ applying t taskId = 0
  | .applyLocal e _ => e.taskId ∈ t.shared.cache.map ∨ inFlight t e.taskId = 0
  | .createTask uuid _ _ _ _ _ => createdId uuid ∉ t.shared.cache.map ∧ inFlight t (createdId uuid) = 0
  | _ => True

instance (t : System) (env : Env) (x : Instr) : Decidable (LeavesLoadsWhole home t env x) := by
  unfold LeavesLoadsWhole
  split <;> infer_instance

/-! ## What the calls do to the projections -/

/-- The records applied to the projection behind a reference. -/
def Shared.recordsAt (sh : Shared) (ref : Nat) : List Record := ((sh.cells[ref]?).map Cell.applied).getD []

/-- Projections only grow. -/
structure Grows (sh sh' : Shared) : Prop where
  length : sh.cells.length ≤ sh'.cells.length
  recordsAt : ∀ ref, sh.recordsAt ref ⊆ sh'.recordsAt ref

section Effects

variable {env : Env} {sh sh' : Shared} {x : Instr}

theorem Grows.of_eq (h : sh'.cells = sh.cells) : Grows sh sh' :=
  ⟨by rw [h], fun ref => by unfold Shared.recordsAt; rw [h]; exact List.Subset.refl _⟩

/-- The record is applied, and nothing gets lost. -/
theorem grows_applyTo (sh : Shared) (ref : Nat) (r : Record) : Grows sh (sh.applyTo ref r) := by
  refine ⟨by simp [Shared.applyTo], fun ref' => ?_⟩
  unfold Shared.recordsAt Shared.applyTo
  rw [List.getElem?_modify]
  by_cases he : ref = ref'
  · subst he
    cases sh.cells[ref]? with
    | none => simp
    | some c => simp
  · simp [he]

theorem mem_recordsAt_applyTo {ref : Nat} (h : ref < sh.cells.length) (r : Record) :
    r ∈ (sh.applyTo ref r).recordsAt ref := by
  unfold Shared.recordsAt Shared.applyTo
  rw [List.getElem?_modify, List.getElem?_eq_getElem h]
  simp

theorem grows_enter (sh : Shared) (l : Load) : Grows sh (sh.enter l).shared := by
  unfold Shared.enter
  split
  · exact Grows.of_eq rfl
  · refine ⟨by simp, fun ref r hr => ?_⟩
    unfold Shared.recordsAt at hr ⊢
    by_cases hlt : ref < sh.cells.length
    · rwa [List.getElem?_append_left hlt]
    · rw [List.getElem?_eq_none (Nat.le_of_not_lt hlt)] at hr
      cases hr

/-- **Projections only grow.** -/
theorem grows_exec (home : String → Nat) (env : Env) (sh : Shared) (x : Instr) :
    Grows sh (sh.exec home env x).shared := by
  cases x with
  | enter l => exact grows_enter sh l
  | consume l ref caughtUp delivered =>
    simp only [Shared.exec, Shared.consume]
    split
    · split
      · exact grows_applyTo sh _ _
      · exact Grows.of_eq rfl
    · split <;> exact Grows.of_eq rfl
    all_goals exact Grows.of_eq rfl
  | applyLocal e r =>
    simp only [Shared.exec, Shared.applyLocal]
    split
    · have happly := grows_applyTo (sh.touch e.taskId)
      exact ⟨(happly _ r).length, (happly _ r).recordsAt⟩
    · exact Grows.of_eq rfl
  | catchUp taskId purpose committed => simp only [Shared.exec]; split <;> exact Grows.of_eq rfl
  | leave l ref => simp only [Shared.exec]; split <;> exact Grows.of_eq rfl
  | finish l ref => exact Grows.of_eq (by simp [Shared.exec, Shared.finish])
  | ensureProjection taskId purpose =>
    simp only [Shared.exec, Shared.ensureProjection]
    split
    · exact Grows.of_eq (by simp [Shared.touch])
    · exact Grows.of_eq rfl
  | readLoaded taskId purpose =>
    simp only [Shared.exec, Shared.readLoaded]
    split <;> exact Grows.of_eq rfl
  | writeEvent e =>
    simp only [Shared.exec, Shared.writeEvent]
    split <;> exact Grows.of_eq rfl
  | produce e current =>
    simp only [Shared.exec, Shared.produce]
    split <;> exact Grows.of_eq rfl
  | _ => exact Grows.of_eq rfl

/-- An entry keeps its reference until it is taken away. -/
theorem lookup_exec {taskId : String} {ref : Nat} (h : sh.cache.map.lookup taskId = some ref)
    (hr : taskId ∉ x.removes sh) : (sh.exec home env x).shared.cache.map.lookup taskId = some ref := by
  cases exec_effect home env sh x with
  | keep cache => rw [cache]; exact h
  | access k _ cache => rw [cache, Lru.get_map]; exact h
  | invalidate k eq cache =>
    subst eq
    rw [cache]
    exact (Finmap.lookup_erase_ne (by simpa [Instr.removes] using hr)).trans h
  | enter l new _ cache => rw [cache]; exact Lru.lookup_enter h
  | breakOff _ cache => rw [cache]; exact h
  | finish l ref' eq cache =>
    subst eq
    rw [cache, Lru.lookup_finish, if_neg (show taskId ∉ sh.cache.victims l.taskId from hr)]
    exact h

/-- An entry that is taken away is gone. -/
theorem not_mem_exec {taskId : String} (hr : taskId ∈ x.removes sh) :
    taskId ∉ (sh.exec home env x).shared.cache.map := by
  cases x with
  | invalidate k =>
    have hk : taskId = k := by simpa [Instr.removes] using hr
    subst hk
    exact fun hm => (Lru.mem_invalidate.mp hm).1 rfl
  | finish l ref =>
    have hcache : (sh.exec home env (.finish l ref)).shared.cache = sh.cache.finish l.taskId := by
      simp [Shared.exec, Shared.finish]
    rw [hcache]
    exact fun hm => (Lru.mem_finish.mp hm).1 hr
  | _ => cases hr

/-- A new entry is that of a load that begins. -/
theorem mem_exec_new {taskId : String} (hnew : taskId ∈ (sh.exec home env x).shared.cache.map)
    (hold : taskId ∉ sh.cache.map) :
    x.loads taskId = 0 ∧ weight (Instr.loads taskId) (sh.exec home env x).next ≠ 0 := by
  cases exec_effect home env sh x with
  | keep cache => rw [cache] at hnew; exact absurd hnew hold
  | access k _ cache => rw [cache, Lru.get_map] at hnew; exact absurd hnew hold
  | invalidate k _ cache => rw [cache] at hnew; exact absurd (Lru.mem_invalidate.mp hnew).2 hold
  | enter l ref eq cache loads =>
    rw [cache] at hnew
    rw [loads, if_pos ((Lru.mem_enter.mp hnew).resolve_right hold).symm, eq]
    exact ⟨rfl, Nat.one_ne_zero⟩
  | breakOff _ cache => rw [cache] at hnew; exact absurd hnew hold
  | finish l ref _ cache => rw [cache] at hnew; exact absurd (Lru.mem_finish.mp hnew).2 hold

/-- A new entry refers to a new projection. -/
theorem lookup_exec_lt {taskId : String} {ref : Nat}
    (hsh : ∀ k ref, sh.cache.map.lookup k = some ref → ref < sh.cells.length)
    (h : (sh.exec home env x).shared.cache.map.lookup taskId = some ref) :
    ref < (sh.exec home env x).shared.cells.length := by
  have hgrow := (grows_exec home env sh x).length
  have hold : sh.cache.map.lookup taskId = some ref → ref < (sh.exec home env x).shared.cells.length :=
    fun hl => Nat.lt_of_lt_of_le (hsh taskId ref hl) hgrow
  cases exec_effect home env sh x with
  | keep cache => rw [cache] at h; exact hold h
  | access k _ cache => rw [cache, Lru.get_map] at h; exact hold h
  | invalidate k _ cache =>
    rw [cache] at h
    have hne : taskId ≠ k := fun he => by
      have hm := Finmap.mem_of_lookup_eq_some h
      exact (Lru.mem_invalidate.mp hm).1 he
    exact hold ((Finmap.lookup_erase_ne hne).symm.trans h)
  | breakOff _ cache => rw [cache] at h; exact hold h
  | finish l ref' _ cache =>
    rw [cache, Lru.lookup_finish] at h
    split at h
    · cases h
    · exact hold h
  | enter l ref' eq =>
    subst eq
    simp only [Shared.exec, Shared.enter] at h hold ⊢
    rcases lookup_cases sh l.taskId with ⟨hl, -, -⟩ | ⟨r, hl, -⟩
    · rw [hl] at h hold ⊢
      by_cases he : taskId = l.taskId
      · subst he
        have hnew : sh.cells.length = ref := by simpa [Lru.enter, hl] using h
        simp [hnew]
      · refine hold ?_
        simpa [Lru.enter, hl, Finmap.lookup_insert_of_ne _ he] using h
    · rw [hl] at h hold ⊢
      exact hold h

end Effects

/-! ## The invariant -/

/-- The record waits to be applied to the projection of the task. -/
def Waiting (t : System) (taskId : String) (r : Record) : Prop :=
  ∃ e : AgentEvent, e.taskId = taskId ∧ ∃ stack ∈ t.pool, Instr.applyLocal e r ∈ stack

/-- The record is in the cached projection of the task, or waits to be applied to it. -/
def Known (t : System) (taskId : String) (r : Record) : Prop :=
  Waiting t taskId r ∨ ∃ ref, t.shared.cache.map.lookup taskId = some ref ∧ r ∈ t.shared.recordsAt ref

/-- What a load knows from its join on: the records behind its join are known otherwise. -/
structure Joined (home : String → Nat) (t : System) (l : Load) : Prop where
  committed : l.purpose ≠ .load → l.committed <+: (t.shared.streams l.taskId).take l.joined
  length : l.joined ≤ (t.shared.streams l.taskId).length
  shards : home l.taskId ∈ l.shards
  later : ∀ r ∈ (t.shared.streams l.taskId).drop l.joined, Known t l.taskId r

/-- What an instruction of a load knows. -/
def OnTrack (home : String → Nat) (t : System) : Instr → Prop
  | .catchUp taskId purpose committed => purpose ≠ .load → committed <+: t.shared.streams taskId
  | .enter l => Joined home t l
  | .consume l ref caughtUp delivered =>
    Joined home t l ∧ t.shared.cache.map.lookup l.taskId = some ref ∧
      (∀ i ∈ delivered, ∃ r, (t.shared.streams l.taskId)[i]? = some r ∧ r ∈ t.shared.recordsAt ref) ∧
      (home l.taskId ∈ caughtUp → ∀ i < l.joined, i ∈ delivered)
  | .leave l ref | .finish l ref =>
    Joined home t l ∧ t.shared.cache.map.lookup l.taskId = some ref ∧
      (t.shared.streams l.taskId).take l.joined ⊆ t.shared.recordsAt ref
  | _ => True

/-- A cached projection that is not being loaded has every record of its stream, or is about to get it. -/
structure Whole (home : String → Nat) (t : System) : Prop where
  refs : ∀ taskId ref, t.shared.cache.map.lookup taskId = some ref → ref < t.shared.cells.length
  onTrack : Everywhere (OnTrack home t) t.pool
  complete : ∀ taskId ∈ t.shared.cache.map, loading t taskId = 0 → ∀ r ∈ t.shared.streams taskId, Known t taskId r
  acts : ∀ act ∈ t.trace, act.AllOrNothing

/-- The records of a task over a step: those known stay known, and the new ones are. -/
structure Advances (t t' : System) (taskId : String) : Prop where
  known : ∀ r, Known t taskId r → Known t' taskId r
  streams : ∃ new, t'.shared.streams taskId = t.shared.streams taskId ++ new ∧ ∀ r ∈ new, Known t' taskId r

section Step

variable {t t' : System} {m : Move Instr Env} {k : Nat} {env : Env} {x : Instr} {rest : List Instr}

/-- No entry is taken away from a load. -/
theorem LeavesLoadsWhole.removes (h : LeavesLoadsWhole home t env x) {taskId : String}
    (hr : taskId ∈ x.removes t.shared) : inFlight t taskId = 0 := by
  cases x with
  | invalidate k => exact h taskId hr
  | finish l ref => exact h taskId hr
  | _ => cases hr

theorem LeavesLoadsWhole.breaksOff (h : LeavesLoadsWhole home t env x) : x.breaksOff env = false := by
  cases x with
  | consume l ref caughtUp delivered => exact decide_eq_false h.1
  | leave l ref => exact h
  | _ => rfl

/-- A stream only grows. -/
theorem streams_grow (hx : Executes (fun env sh x => Shared.exec home env sh x) t m t' k env x rest)
    (taskId : String) : t.shared.streams taskId <+: t'.shared.streams taskId := by
  rw [hx.shared]
  have hupdate : ∀ k r, t.shared.streams taskId <+:
      Function.update t.shared.streams k (t.shared.streams k ++ [r]) taskId := by
    intro k r
    by_cases he : taskId = k
    · subst he
      rw [Function.update_self]
      exact List.prefix_append _ _
    · rw [Function.update_of_ne he]
  rcases streams_exec home env t.shared x with hs | ⟨e, current, seq, -, -, hs⟩ | ⟨uuid, _, _, _, _, _, r, -, -, hs⟩
  · rw [hs]
  · rw [hs]
    exact hupdate _ _
  · rw [hs]
    exact hupdate _ _

/-- **A task that is cached or being loaded loses no record.** -/
theorem Whole.advances (h : Whole home t)
    (hx : Executes (fun env sh x => Shared.exec home env sh x) t m t' k env x rest) (hc : LeavesLoadsWhole home t env x)
    {taskId : String} (hstay : taskId ∉ x.removes t.shared)
    (hused : inFlight t taskId ≠ 0 ∨ taskId ∈ t.shared.cache.map) : Advances t t' taskId := by
  constructor
  · rintro r (⟨e, he, stack, hs, hy⟩ | ⟨ref, hl, hr⟩)
    · by_cases hne : Instr.applyLocal e r = x
      · -- the record reaches the projection
        subst hne he
        have hm : e.taskId ∈ t.shared.cache.map := by
          rcases hc with hm | hz
          · exact hm
          · exact hused.resolve_left fun hne => hne hz
        obtain ⟨ref, hl⟩ := Finmap.mem_iff.mp hm
        refine Or.inr ⟨ref, ?_, ?_⟩
        · rw [hx.shared]
          exact lookup_exec hl hstay
        · have hsh : t'.shared = (t.shared.touch e.taskId).applyTo ref r := by
            rw [hx.shared]
            simp only [Shared.exec, Shared.applyLocal, hl]
          have hnow : r ∈ ((t.shared.touch e.taskId).applyTo ref r).recordsAt ref :=
            mem_recordsAt_applyTo (h.refs _ _ hl) r
          rw [hsh]
          exact hnow
      · exact Or.inl ⟨e, he, hx.stays hs hy hne⟩
    · refine Or.inr ⟨ref, ?_, ?_⟩
      · rw [hx.shared]
        exact lookup_exec hl hstay
      · rw [hx.shared]
        exact (grows_exec home env t.shared x).recordsAt ref hr
  · rcases streams_exec home env t.shared x with hs | ⟨e, current, seq, -, hnext, hs⟩ |
      ⟨uuid, _, _, _, _, _, r, rfl, -, hs⟩
    · exact ⟨[], by rw [hx.shared, hs, List.append_nil], fun r hr => by cases hr⟩
    · by_cases he : taskId = e.taskId
      · subst he
        refine ⟨[BrokerStore.recordOf seq e], by rw [hx.shared, hs, Function.update_self], fun r hr => ?_⟩
        rw [List.mem_singleton.mp hr]
        refine Or.inl ⟨e, rfl, hx.comes ?_⟩
        rw [hnext]
        exact List.mem_singleton_self _
      · exact ⟨[], by rw [hx.shared, hs, Function.update_of_ne he, List.append_nil], fun r hr => by cases hr⟩
    · have he : taskId ≠ createdId uuid := fun he => by
        subst he
        exact hused.elim (fun hne => hne hc.2) fun hm => hc.1 hm
      exact ⟨[], by rw [hx.shared, hs, Function.update_of_ne he, List.append_nil], fun r hr => by cases hr⟩

theorem Joined.advance {l : Load} (h : Joined home t l) (ha : Advances t t' l.taskId) : Joined home t' l := by
  obtain ⟨new, hs, hnew⟩ := ha.streams
  refine ⟨?_, ?_, h.shards, fun r hr => ?_⟩
  · intro hp
    rw [hs, List.take_append_of_le_length h.length]
    exact h.committed hp
  · rw [hs, List.length_append]
    exact Nat.le_add_right_of_le h.length
  · rw [hs, List.drop_append_of_le_length h.length] at hr
    exact (List.mem_append.mp hr).elim (fun hr => ha.known r (h.later r hr)) (hnew r)

/-- A load that sees its shard caught up has every record from before its join. -/
theorem OnTrack.leave {l : Load} {ref : Nat} {caughtUp : Finset Nat} {delivered : List Nat}
    (h : OnTrack home t (.consume l ref caughtUp delivered)) (hhome : home l.taskId ∈ caughtUp) :
    OnTrack home t (.leave l ref) := by
  obtain ⟨hj, hl, hd, hall⟩ := h
  refine ⟨hj, hl, fun r hr => ?_⟩
  obtain ⟨i, hi⟩ := List.getElem?_of_mem hr
  have hlt : i < l.joined := by
    have := (List.getElem?_eq_some_iff.mp hi).1
    rw [List.length_take] at this
    omega
  rw [List.getElem?_take_of_lt hlt] at hi
  obtain ⟨r', hr', hmem⟩ := hd i (hall hhome i hlt)
  cases hr'.symm.trans hi
  exact hmem

theorem OnTrack.nextFrame {l : Load} {ref : Nat} {caughtUp : Finset Nat} {delivered : List Nat}
    (h : OnTrack home t (.consume l ref caughtUp delivered)) :
    OnTrack home t (Shared.nextFrame l ref caughtUp delivered) := by
  unfold Shared.nextFrame
  split
  · rename_i heq
    exact h.leave (heq ▸ h.1.shards)
  · exact h

/-- After a successful `ensure_projection` there is nothing left to know. -/
theorem onTrack_ensured {sh : Shared} {taskId : String} {purpose : Purpose} {committed : List Record} :
    ∀ y ∈ (sh.ensured taskId purpose committed).next, OnTrack home t y := by
  intro y hy
  cases purpose <;> simp only [Shared.ensured, List.mem_singleton, List.not_mem_nil] at hy <;> subst hy <;> trivial

/-- The instructions that were there know what they knew. -/
theorem Whole.onTrack_old (h : Whole home t)
    (hx : Executes (fun env sh x => Shared.exec home env sh x) t m t' k env x rest)
    (hc : LeavesLoadsWhole home t env x) :
    Everywhere (OnTrack home t') t.pool := by
  intro stack hs y hy
  have hold := h.onTrack stack hs y hy
  have hpos : ∀ taskId, y.joins taskId ≠ 0 → inFlight t taskId ≠ 0 := fun taskId hne => by
    have := le_total (f := Instr.joins taskId) hs hy
    unfold inFlight
    omega
  have hstay : ∀ taskId, inFlight t taskId ≠ 0 → taskId ∉ x.removes t.shared := fun taskId hne hr => hne (hc.removes hr)
  have hadv : ∀ taskId, y.joins taskId ≠ 0 → Advances t t' taskId := fun taskId hne =>
    h.advances hx hc (hstay taskId (hpos taskId hne)) (Or.inl (hpos taskId hne))
  have hlook : ∀ taskId ref, y.joins taskId ≠ 0 → t.shared.cache.map.lookup taskId = some ref →
      t'.shared.cache.map.lookup taskId = some ref := fun taskId ref hne hl => by
    rw [hx.shared]
    exact lookup_exec hl (hstay taskId (hpos taskId hne))
  have hgrow : ∀ ref, t.shared.recordsAt ref ⊆ t'.shared.recordsAt ref := fun ref => by
    rw [hx.shared]
    exact (grows_exec home env t.shared x).recordsAt ref
  have htake : ∀ l : Load, Joined home t l →
      (t'.shared.streams l.taskId).take l.joined = (t.shared.streams l.taskId).take l.joined := fun l hj => by
    obtain ⟨new, hnew⟩ := streams_grow hx l.taskId
    rw [← hnew, List.take_append_of_le_length hj.length]
  cases y with
  | catchUp taskId purpose committed => exact fun hp => List.IsPrefix.trans (hold hp) (streams_grow hx taskId)
  | enter l => exact Joined.advance hold (hadv l.taskId (by simp [Instr.joins]))
  | consume l ref caughtUp delivered =>
    obtain ⟨hj, hl, hd, hall⟩ := hold
    have hne : (Instr.consume l ref caughtUp delivered).joins l.taskId ≠ 0 := by simp [Instr.joins]
    refine ⟨hj.advance (hadv _ hne), hlook _ _ hne hl, fun i hi => ?_, hall⟩
    obtain ⟨r, hr, hmem⟩ := hd i hi
    obtain ⟨new, hnew⟩ := streams_grow hx l.taskId
    refine ⟨r, ?_, hgrow ref hmem⟩
    rw [← hnew, List.getElem?_append_left (List.getElem?_eq_some_iff.mp hr).1]
    exact hr
  | leave l ref =>
    obtain ⟨hj, hl, hall⟩ := hold
    have hne : (Instr.leave l ref).joins l.taskId ≠ 0 := by simp [Instr.joins]
    exact ⟨hj.advance (hadv _ hne), hlook _ _ hne hl, htake l hj ▸ List.Subset.trans hall (hgrow ref)⟩
  | finish l ref =>
    obtain ⟨hj, hl, hall⟩ := hold
    have hne : (Instr.finish l ref).joins l.taskId ≠ 0 := by simp [Instr.joins]
    exact ⟨hj.advance (hadv _ hne), hlook _ _ hne hl, htake l hj ▸ List.Subset.trans hall (hgrow ref)⟩
  | _ => trivial

/-- What replaces the executed instruction knows what it has to. -/
theorem Whole.onTrack_next (h : Whole home t)
    (hx : Executes (fun env sh x => Shared.exec home env sh x) t m t' k env x rest)
    (hc : LeavesLoadsWhole home t env x) :
    ∀ y ∈ (t.shared.exec home env x).next, OnTrack home t' y := by
  have hself : OnTrack home t' x := hx.of_everywhere (h.onTrack_old hx hc)
  have hsh := hx.shared
  intro y hy
  cases x with
  | catchUp taskId purpose committed =>
    have hpre : purpose ≠ .load → committed <+: t.shared.streams taskId := hx.of_everywhere h.onTrack
    simp only [Shared.exec] at hsh hy
    cases hsession : env.session with
    | none => rw [hsession] at hy; cases hy
    | some shards =>
      rw [hsession] at hsh hy
      rw [List.mem_singleton.mp hy]
      have hstreams : t'.shared.streams = t.shared.streams := by rw [hsh]
      refine ⟨fun hp => ?_, ?_, hc shards hsession, fun r hr => ?_⟩
      · rw [hstreams, List.take_length]
        exact hpre hp
      · rw [hstreams]
      · rw [hstreams, List.drop_length] at hr
        cases hr
  | enter l =>
    simp only [Shared.exec, Shared.enter] at hsh hy
    rcases lookup_cases t.shared l.taskId with ⟨hl, -, -⟩ | ⟨ref, hl, -⟩
    · rw [hl] at hsh hy
      rw [List.mem_singleton.mp hy]
      refine ⟨hself, ?_, fun i hi => by (cases hi), fun hi => by (cases hi)⟩
      rw [hsh]
      simp [Lru.enter, hl]
    · rw [hl] at hsh hy
      rw [List.mem_singleton.mp hy]
      exact ⟨hself, by rw [hsh]; exact hl, fun i hi => by (cases hi), fun hi => by (cases hi)⟩
  | consume l ref caughtUp delivered =>
    obtain ⟨hj, hl, hd, hall⟩ := hself
    simp only [Shared.exec, Shared.consume] at hsh hy
    cases hdelivery : env.delivery with
    | record i =>
      rw [hdelivery] at hsh hy
      cases hi : (t.shared.streams l.taskId)[i]? with
      | none =>
        simp only [hi, List.mem_singleton] at hy
        subst hy
        exact ⟨hj, hl, hd, hall⟩
      | some r =>
        simp only [hi, List.mem_singleton] at hsh hy
        subst hy
        have hnow : (t'.shared.streams l.taskId)[i]? = some r ∧ r ∈ t'.shared.recordsAt ref := by
          obtain ⟨-, hold, -, -⟩ : OnTrack home t (.consume l ref caughtUp delivered) := hx.of_everywhere h.onTrack
          rw [hsh]
          exact ⟨hi, mem_recordsAt_applyTo (h.refs _ _ hold) r⟩
        refine OnTrack.nextFrame ⟨hj, hl, fun j hj' => ?_, fun hhome j hlt => List.mem_cons_of_mem _ (hall hhome j hlt)⟩
        rcases List.mem_cons.mp hj' with rfl | hj'
        · exact ⟨r, hnow⟩
        · exact hd j hj'
    | caughtUp shard =>
      rw [hdelivery] at hy
      simp only at hy
      split at hy
      · rw [List.mem_singleton.mp hy]
        exact ⟨hj, hl, hd, hall⟩
      · rename_i hpromise
        rw [List.mem_singleton.mp hy]
        refine OnTrack.nextFrame ⟨hj, hl, hd, fun hhome => ?_⟩
        rcases Finset.mem_insert.mp hhome with heq | hhome
        · by_contra hmissing
          exact hpromise ⟨heq.symm, hmissing⟩
        · exact hall hhome
    | notice =>
      rw [hdelivery] at hy
      rw [List.mem_singleton.mp hy]
      exact OnTrack.nextFrame ⟨hj, hl, hd, hall⟩
    | err => exact absurd hdelivery hc.1
    | stop =>
      rw [hdelivery] at hy
      rw [List.mem_singleton.mp hy]
      exact OnTrack.leave ⟨hj, hl, hd, hall⟩ (hc.2 hdelivery)
  | leave l ref =>
    have hok : env.leaveErr = false := hc
    simp only [Shared.exec, hok, Bool.false_eq_true, if_false, List.mem_singleton] at hy
    subst hy
    exact hself
  | finish l ref => exact onTrack_ensured y hy
  | ensureProjection taskId purpose =>
    simp only [Shared.exec, Shared.ensureProjection] at hsh hy
    split at hy
    · exact onTrack_ensured y hy
    · rename_i hl
      rw [List.mem_singleton.mp hy]
      rw [hl] at hsh
      have hstreams : t'.shared.streams = t.shared.streams := by rw [hsh]
      exact fun _ => by rw [hstreams]
  | readLoaded taskId purpose =>
    simp only [Shared.exec, Shared.readLoaded] at hy
    split at hy
    · cases hy
    · cases purpose with
      | transition target eventType payload =>
        simp only at hy
        split at hy
        · rw [List.mem_singleton.mp hy]; trivial
        · cases hy
      | _ => cases hy
  | writeEvent e =>
    simp only [Shared.exec, Shared.writeEvent] at hy
    split at hy
    · simp only at hy
      split at hy
      · rw [List.mem_singleton.mp hy]; trivial
      · cases hy
    · cases hy
  | produce e current =>
    simp only [Shared.exec, Shared.produce] at hy
    split at hy
    · rw [List.mem_singleton.mp hy]; trivial
    · cases hy
  | applyLocal e r => simp only [Shared.exec, Shared.applyLocal] at hy; split at hy <;> cases hy
  | _ => cases hy

/-- The last load of a task to end leaves a complete projection. -/
theorem Whole.complete_next (h : Whole home t)
    (hx : Executes (fun env sh x => Shared.exec home env sh x) t m t' k env x rest) (hc : LeavesLoadsWhole home t env x)
    {taskId : String} (hm : taskId ∈ t'.shared.cache.map) (hidle : loading t' taskId = 0) :
    ∀ r ∈ t'.shared.streams taskId, Known t' taskId r := by
  have hbalance := loading_exec hx taskId
  rw [hx.shared] at hm
  have hstay : taskId ∉ x.removes t.shared := fun hr => not_mem_exec hr hm
  by_cases hold : taskId ∈ t.shared.cache.map
  · obtain hadv : Advances t t' taskId := h.advances hx hc hstay (Or.inr hold)
    obtain ⟨new, hs, hnew⟩ := hadv.streams
    intro r hr
    rw [hs] at hr
    refine (List.mem_append.mp hr).elim (fun hr => hadv.known r ?_) (hnew r)
    by_cases hloading : loading t taskId = 0
    · exact h.complete taskId hold hloading r hr
    · -- a load has just ended
      cases exec_effect home env t.shared x with
      | keep _ loads => rw [loads] at hbalance; omega
      | access _ _ _ before loads => rw [before, loads] at hbalance; omega
      | invalidate k' eq _ loads =>
        have hx0 : x.loads taskId = 0 := by rw [eq]; rfl
        rw [hx0, loads] at hbalance
        omega
      | enter l ref eq _ loads =>
        have hx0 : x.loads taskId = 0 := by rw [eq]; rfl
        rw [hx0] at hbalance
        omega
      | breakOff fails => rw [hc.breaksOff] at fails; cases fails
      | finish l ref eq _ loads =>
        subst eq
        rw [loads] at hbalance
        have hl : l.taskId = taskId := by
          by_contra hne
          simp only [Instr.loads, if_neg hne] at hbalance
          omega
        subst hl
        obtain ⟨hj, hl, hall⟩ : OnTrack home t (.finish l ref) := hx.of_everywhere h.onTrack
        rw [← List.take_append_drop l.joined (t.shared.streams l.taskId)] at hr
        exact (List.mem_append.mp hr).elim (fun hr => Or.inr ⟨ref, hl, hall hr⟩) (hj.later r)
  · obtain ⟨hx0, hne⟩ := mem_exec_new hm hold
    omega

/-- The acts of one instruction. -/
theorem Whole.acts_next (h : Whole home t)
    (hx : Executes (fun env sh x => Shared.exec home env sh x) t m t' k env x rest)
    (hc : LeavesLoadsWhole home t env x) :
    ∀ act ∈ (t.shared.exec home env x).acts, act.AllOrNothing := by
  have hself : OnTrack home t' x := hx.of_everywhere (h.onTrack_old hx hc)
  have hsh := hx.shared
  have hens : ∀ (sh : Shared) taskId purpose committed,
      (purpose ≠ .load → ∃ records, sh.found taskId = some records ∧ committed ⊆ records) →
      ∀ act ∈ (sh.ensured taskId purpose committed).acts, act.AllOrNothing := by
    intro sh taskId purpose committed hfound act hact
    cases purpose <;> simp only [Shared.ensured, List.mem_singleton, List.not_mem_nil] at hact <;> subst hact <;>
      exact hfound fun h => by cases h
  have huse : ∀ taskId, ∀ act ∈ t.shared.useOf taskId, act.AllOrNothing := by
    intro taskId act hact
    unfold Shared.useOf at hact
    split at hact
    · rw [List.mem_singleton.mp hact]; trivial
    · cases hact
  intro act hact
  cases x with
  | get taskId => exact huse taskId act hact
  | catchUp taskId purpose committed =>
    simp only [Shared.exec] at hact
    split at hact
    · rw [List.mem_singleton.mp hact]
      exact id
    · cases hact
  | enter l => simp only [Shared.exec, Shared.enter] at hact; split at hact <;> cases hact
  | consume l ref caughtUp delivered =>
    simp only [Shared.exec, Shared.consume] at hact
    split at hact <;> first
      | (split at hact <;> cases hact)
      | exact absurd ‹env.delivery = .err› hc.1
      | cases hact
  | leave l ref =>
    have hok : env.leaveErr = false := hc
    simp only [Shared.exec, hok, Bool.false_eq_true, if_false] at hact
    cases hact
  | finish l ref =>
    obtain ⟨hj, hl, hall⟩ := hself
    simp only [Shared.exec, Shared.finish, List.cons_append, List.mem_cons, List.mem_append, List.mem_map] at hact
    rcases hact with rfl | ⟨k', -, rfl⟩ | hact
    · trivial
    · trivial
    · have hcache : t'.shared = { t.shared with cache := t.shared.cache.finish l.taskId } := by
        rw [hsh]
        simp [Shared.exec, Shared.finish]
      refine hens _ _ _ _ (fun hp => ⟨t'.shared.recordsAt ref, ?_, List.Subset.trans (hj.committed hp).subset hall⟩)
        act hact
      rw [← hcache]
      unfold Shared.found
      rw [hl]
      rfl
  | ensureProjection taskId purpose =>
    simp only [Shared.exec, Shared.ensureProjection] at hact
    rcases lookup_cases t.shared taskId with ⟨hl, -, -⟩ | ⟨ref, hl, hm⟩
    · rw [hl] at hact
      cases hact
    · rw [hl] at hact
      simp only [List.mem_cons] at hact
      rcases hact with rfl | hact
      · trivial
      · obtain ⟨hloading, happlying⟩ := hc hm
        refine hens _ _ _ _ (fun _ => ⟨t.shared.recordsAt ref, ?_, fun r hr => ?_⟩) act hact
        · unfold Shared.found Shared.touch
          rw [Lru.get_map, hl]
          rfl
        · rcases h.complete taskId hm hloading r hr with ⟨e, he, stack, hs, hy⟩ | ⟨ref', hl', hr'⟩
          · have hle := le_total (f := Instr.applies taskId) hs hy
            simp only [Instr.applies, if_pos he] at hle
            unfold applying at happlying
            omega
          · cases hl.symm.trans hl'
            exact hr'
  | readLoaded taskId purpose =>
    simp only [Shared.exec, Shared.readLoaded] at hact
    split at hact <;> (rw [List.mem_singleton.mp hact]; trivial)
  | writeEvent e =>
    simp only [Shared.exec, Shared.writeEvent] at hact
    split at hact
    · exact huse _ act hact
    · cases hact
  | produce e current => simp only [Shared.exec, Shared.produce] at hact; split at hact <;> cases hact
  | applyLocal e r =>
    simp only [Shared.exec, Shared.applyLocal] at hact
    split at hact
    · rw [List.mem_singleton.mp hact]; trivial
    · cases hact
  | _ => cases hact

/-- A call that comes in knows nothing yet. -/
theorem Whole.enter (h : Whole home t) (hx : x.isEntry = true) : Whole home { t with pool := t.pool ++ [[x]] } := by
  have hknown : ∀ taskId r, Known t taskId r → Known { t with pool := t.pool ++ [[x]] } taskId r := by
    rintro taskId r (⟨e, he, stack, hs, hy⟩ | hr)
    · exact Or.inl ⟨e, he, stack, List.mem_append_left _ hs, hy⟩
    · exact Or.inr hr
  have hjoined : ∀ l, Joined home t l → Joined home { t with pool := t.pool ++ [[x]] } l := fun l hj =>
    ⟨hj.committed, hj.length, hj.shards, fun r hr => hknown _ r (hj.later r hr)⟩
  refine ⟨h.refs, fun stack hs y hy => ?_, fun taskId hm hidle r hr => ?_, h.acts⟩
  · rcases List.mem_append.mp hs with hs | hs
    · have hold := h.onTrack stack hs y hy
      cases y with
      | enter l => exact hjoined l hold
      | consume l ref caughtUp delivered => exact ⟨hjoined l hold.1, hold.2⟩
      | leave l ref => exact ⟨hjoined l hold.1, hold.2⟩
      | finish l ref => exact ⟨hjoined l hold.1, hold.2⟩
      | _ => exact hold
    · rw [List.mem_singleton.mp hs] at hy
      rw [List.mem_singleton.mp hy]
      cases x with
      | catchUp taskId purpose committed =>
        cases purpose with
        | load => exact fun hp => absurd rfl hp
        | _ => cases hx
      | _ => trivial
  · refine hknown taskId r (h.complete taskId hm ?_ r hr)
    have hadd : loading { t with pool := t.pool ++ [[x]] } taskId = loading t taskId := by
      unfold loading
      rw [total_append, total_cons, weight_cons, loads_entry hx]
      rfl
    exact hadd.symm.trans hidle

/-- **What one instruction preserves.** -/
theorem Whole.exec (h : Whole home t)
    (hx : Executes (fun env sh x => Shared.exec home env sh x) t m t' k env x rest)
    (hc : LeavesLoadsWhole home t env x) :
    Whole home t' where
  refs := fun taskId ref hl => by
    rw [hx.shared] at hl ⊢
    exact lookup_exec_lt h.refs hl
  onTrack := by
    have hold := h.onTrack_old hx hc
    refine hx.everywhere hold fun y hy => ?_
    rw [exec_spawned, List.append_nil] at hy
    exact h.onTrack_next hx hc y hy
  complete := fun taskId hm hidle => h.complete_next hx hc hm hidle
  acts := fun act hact => by
    rw [hx.trace, List.mem_append, List.mem_reverse] at hact
    exact hact.elim (h.acts_next hx hc act) (h.acts act)

end Step

/-- **Loads are all or nothing** in every run that leaves them whole: a failed load leaves no entry where there was
none, and `ensure_projection` succeeds only on a projection with everything that was committed when it began. -/
theorem loads_all_or_nothing {streams : String → List Record} {cap : Nat} {moves : List (Move Instr Env)}
    (hm : Meets (store home) (Executing (LeavesLoadsWhole home)) (System.start streams cap) moves) :
    ∀ act ∈ (run (store home) (System.start streams cap) moves).trace, act.AllOrNothing := by
  have hstart : Whole home (System.start streams cap) :=
    ⟨fun _ _ hl => absurd (Finmap.mem_of_lookup_eq_some hl) Finmap.notMem_empty, nofun,
      fun _ hm => absurd hm Finmap.notMem_empty, nofun⟩
  exact (run_invariant (Whole home) (fun t m h hc => move_invariant_when hc h (fun x hx => h.enter hx)
    fun _ _ _ _ _ he hc => h.exec he hc) hstart hm).acts

/-- The streams when one task has just been created. -/
def justCreated (taskId : String) : List Record :=
  if taskId = "task_1" then [{ seq := 1, eventType := "task_created", content := .obj [], metadata := ∅ }] else []

/-- A load that gets its record, and a read that finds it. -/
def wholeLoad : List (Move Instr Env) :=
  [.enter (.ensureProjection "task_1" .ensure), .exec 0 {}, .exec 0 {}, .exec 0 {}, .exec 0 { delivery := .record 0 },
    .exec 0 { delivery := .caughtUp 0 }, .exec 0 {}, .exec 0 {}, .enter (.ensureProjection "task_1" .read), .exec 1 {},
    .exec 1 {}]

/-- The theorem at a load and a read after it. -/
theorem loads_all_or_nothing_two_reads :
    (run (store fun _ => 0) (System.start justCreated 2) wholeLoad).trace.Forall Act.AllOrNothing :=
  List.forall_iff_forall_mem.mpr (loads_all_or_nothing (by decide +kernel))

/-- A stream error right after the entry is created, and another client that ensures the projection. -/
def brokenLoad : List (Move Instr Env) :=
  [.enter (.catchUp "task_1" .load []), .exec 0 {}, .exec 0 {}, .exec 0 { delivery := .err },
    .enter (.ensureProjection "task_1" .ensure), .exec 1 {}]

/-- The deadline passes before anything has arrived. -/
def stalledLoad : List (Move Instr Env) :=
  [.enter (.ensureProjection "task_1" .ensure), .exec 0 {}, .exec 0 {}, .exec 0 {}, .exec 0 { delivery := .stop },
    .exec 0 {}, .exec 0 {}]

/-- The failed load leaves an empty entry, which the other client takes for the whole; the stalled one succeeds with an
empty projection. -/
theorem half_loaded :
    (run (store fun _ => 0) (System.start justCreated 2) brokenLoad).trace =
      [.ensured "task_1" (justCreated "task_1") (some []), .used "task_1", .failed "task_1" false true] ∧
    (run (store fun _ => 0) (System.start justCreated 2) stalledLoad).trace =
      [.ensured "task_1" (justCreated "task_1") (some []), .used "task_1"] ∧
    ¬ (Act.failed "task_1" false true).AllOrNothing ∧
      ¬ (Act.ensured "task_1" (justCreated "task_1") (some [])).AllOrNothing := by
  refine ⟨rfl, rfl, fun h => absurd (h rfl) nofun, ?_⟩
  rintro ⟨records, hfound, hsub⟩
  cases hfound
  exact absurd (hsub List.mem_cons_self) List.not_mem_nil

end Fixus.Interleaved
