import Fixus.Orchestrator.Steps
import Mathlib.Algebra.Order.Ring.Rat
import Mathlib.Tactic.Linarith

/-!
# Deadlines and the watchdog

Whoever waits for a turn extends the deadline again and again; the watchdog reclaims a turn that was dispatched longer
ago than the lease. Both are wired from the same time-out.

- `Settings`: the settings as the server reads them, valid by construction;
- `getLast?_computeExtensionDeadlines`: the last deadline;
- `Timed`: the orchestrator with its clock and the time at which each turn was dispatched last;
- `Watched.step`: what the table of dispatch times and the turns about to be reclaimed tell about the dispatches;
- `watchdog_patient`: a turn is reclaimed only after the lease;
- `reclaimed_after_lease`: and it can be reclaimed right after the lease;
- `watchdog_patient_iff`: the watchdog waits for the last deadline exactly if that is at most one tick after the lease;
- `reclaimed_before_deadline`: with the default settings it does not.

A tick of the clock is a nanosecond.
-/

namespace Fixus

open Lib

/-! ## Settings -/

/-- The deadlines of a turn, from its dispatch: each one is the previous one times the factor. -/
def computeExtensionDeadlines (initial : ℚ) (maxExtensions : Nat) (factor : ℚ) : List ℚ :=
  initial :: match maxExtensions with
    | 0 => []
    | n + 1 => computeExtensionDeadlines (initial * factor) n factor

theorem length_computeExtensionDeadlines (initial : ℚ) (n : Nat) (factor : ℚ) :
    (computeExtensionDeadlines initial n factor).length = n + 1 := by
  induction n generalizing initial with
  | zero => rfl
  | succ n ih =>
    unfold computeExtensionDeadlines
    rw [List.length_cons, ih]

/-- The last deadline. -/
theorem getLast?_computeExtensionDeadlines (initial : ℚ) (n : Nat) (factor : ℚ) :
    (computeExtensionDeadlines initial n factor).getLast? = some (initial * factor ^ n) := by
  induction n generalizing initial with
  | zero => simp [computeExtensionDeadlines]
  | succ n ih =>
    unfold computeExtensionDeadlines
    rw [List.getLast?_cons, ih, Option.getD_some, pow_succ', mul_assoc]

/-- What the server finds in its environment; nothing where a variable is unset or does not parse. -/
structure EnvVars where
  maxRetryAttempts : Option Int := none
  turnTimeoutSecs : Option Nat := none
  turnMaxExtensions : Option Nat := none
  turnExtensionFactor : Option ℚ := none

/-- The settings of a server. -/
structure Settings where
  maxAttempts : Int
  turnTimeout : Nat
  turnMaxExtensions : Nat
  turnExtensionFactor : ℚ
  maxAttempts_nonneg : 0 ≤ maxAttempts
  turnTimeout_pos : 0 < turnTimeout
  one_lt_factor : 1 < turnExtensionFactor

/-- A filtered value and a default that pass the filter. -/
theorem getD_filter {α : Type} {p : α → Bool} {default : α} (h : p default = true) (o : Option α) :
    p ((o.filter p).getD default) = true := by
  cases o with
  | none => exact h
  | some a => by_cases ha : p a = true <;> simp [Option.filter, ha, h]

/-- The settings as `start` reads them. -/
def Settings.read (vars : EnvVars) : Settings where
  maxAttempts := (vars.maxRetryAttempts.filter fun n => 0 ≤ n).getD 2
  turnTimeout := (vars.turnTimeoutSecs.filter fun n => 1 ≤ n).getD 600 * 10 ^ 9
  turnMaxExtensions := vars.turnMaxExtensions.getD 3
  turnExtensionFactor := (vars.turnExtensionFactor.filter fun f => 1 < f).getD (3 / 2)
  maxAttempts_nonneg := of_decide_eq_true (getD_filter (p := fun n : Int => decide (0 ≤ n)) (by decide) _)
  turnTimeout_pos := Nat.mul_pos (of_decide_eq_true (getD_filter (p := fun n : Nat => decide (1 ≤ n)) (by decide) _))
    (by decide)
  one_lt_factor := of_decide_eq_true (getD_filter (p := fun f : ℚ => decide (1 < f)) (by norm_num) _)

namespace Settings

variable (st : Settings)

def deadlines : List ℚ :=
  computeExtensionDeadlines st.turnTimeout st.turnMaxExtensions st.turnExtensionFactor

/-- The deadline after which a waiter gives up. -/
def lastDeadline : ℚ := st.turnTimeout * st.turnExtensionFactor ^ st.turnMaxExtensions

theorem getLast?_deadlines : st.deadlines.getLast? = some st.lastDeadline :=
  getLast?_computeExtensionDeadlines _ _ _

/-- The orchestrator as `start` wires it: the lease of the watchdog is the time-out of a turn. -/
def config : Config where
  retryPolicy := { maxAttempts := st.maxAttempts }
  totalAttempts := st.deadlines.length
  lease := st.turnTimeout

end Settings

/-! ## Time -/

/-- The turn that an instruction dispatches. -/
def Instr.dispatches : Instr → Option TurnKey
  | .dispatchPopped turn => some turn.key
  | _ => none

/-- The turns that an instruction is about to reclaim. -/
def Instr.reclaims : Instr → List TurnKey
  | .reclaim keys => keys
  | _ => []

/-- The orchestrator with the clock of its last instruction and the time of the last dispatch of each turn. -/
structure Timed where
  orch : Orchestrator
  dispatched : Finmap fun _ : TurnKey => Nat := ∅
  clock : Nat := 0

namespace Timed

/-- The times of dispatch after an instruction. -/
def noteDispatch (dispatched : Finmap fun _ : TurnKey => Nat) (now : Nat) (x : Instr) : Finmap fun _ : TurnKey => Nat :=
  match x.dispatches with
  | some turn => dispatched.insert turn now
  | none => dispatched

def step (cfg : Config) (s : Timed) (m : OMove) : Timed :=
  match m, fetched s.orch m with
  | .exec _ env, some x =>
    { orch := orchestrate cfg s.orch m, dispatched := noteDispatch s.dispatched env.now x, clock := env.now }
  | _, _ => { s with orch := orchestrate cfg s.orch m }

def start (store : BrokerStore) (maxConcurrent : Nat) : Timed := { orch := .start store maxConcurrent }

end Timed

/-- The clock runs forward, and no turn is dispatched while it is about to be reclaimed. -/
def Undisturbed (s : Timed) (m : OMove) : Prop :=
  Executing (fun o env x => s.clock ≤ env.now ∧ ∀ turn ∈ x.dispatches, Everywhere (fun y => turn ∉ y.reclaims) o.pool)
    s.orch m

/-- A turn that is reclaimed was dispatched at least the given time ago. -/
def Patient (wait : ℚ) (s : Timed) (m : OMove) : Prop :=
  Executing (fun _ env x =>
    ∀ turn ∈ x.reclaims.head?, ∃ d, s.dispatched.lookup turn = some d ∧ (d : ℚ) + wait ≤ env.now)
    s.orch m

/-! ## What is under watch -/

variable {cfg : Config} {s : Timed} {m : OMove}

/-- A stale turn was entered longer ago than the lease. -/
theorem mem_staleTurns {env : Env} {sh : Shared} {turn : TurnKey} :
    turn ∈ sh.staleTurns cfg env ↔ ∃ t, sh.dispatchTimes.lookup turn = some t ∧ cfg.lease < env.now - t := by
  have hmem : turn ∈ sh.staleTurns cfg env ↔ turn ∈ sh.dispatchTimes.keys ∧
      cfg.lease < env.now - (sh.dispatchTimes.lookup turn).getD 0 := by
    unfold Shared.staleTurns
    dsimp only
    rw [List.mem_map]
    constructor
    · rintro ⟨a, ha, rfl⟩
      obtain ⟨turn, hturn, rfl⟩ := Finset.mem_image.mp (mem_walk.mp ha)
      exact Finset.mem_filter.mp hturn
    · intro h
      exact ⟨toLex turn, mem_walk.mpr (Finset.mem_image_of_mem _ (Finset.mem_filter.mpr h)), rfl⟩
  rw [hmem, Finmap.mem_keys, ← Finmap.lookup_isSome, Option.isSome_iff_exists]
  constructor
  · rintro ⟨⟨t, ht⟩, hlt⟩
    rw [ht] at hlt
    exact ⟨t, ht, hlt⟩
  · rintro ⟨t, ht, hlt⟩
    rw [ht]
    exact ⟨⟨t, rfl⟩, hlt⟩

@[simp] theorem lookup_noteDispatch (dispatched : Finmap fun _ : TurnKey => Nat) (now : Nat) (x : Instr)
    (turn : TurnKey) :
    (Timed.noteDispatch dispatched now x).lookup turn =
      if x.dispatches = some turn then some now else dispatched.lookup turn := by
  unfold Timed.noteDispatch
  cases x.dispatches with
  | none => simp
  | some turn' =>
    by_cases ht : turn' = turn
    · subst ht
      simp
    · simp [ht, Finmap.lookup_insert_of_ne _ (Ne.symm ht)]

/-- Only a dispatch, the end of a turn and the watchdog touch the table of dispatch times. -/
theorem Step.dispatchTimes {sh : Shared} {x : Instr} {out : Out} (h : Step cfg sh x out) :
    out.shared.dispatchTimes = sh.dispatchTimes ∨ x.dispatches ≠ none ∨ (∃ t k, x = .clearDispatchTime t k) ∨
      ∃ turn keys, x = .reclaim (turn :: keys) := by
  cases h with
  | @timed turn => exact Or.inr (Or.inl nofun)
  | @timeCleared t k => exact Or.inr (Or.inr (Or.inl ⟨t, k, rfl⟩))
  | @reclaimed t k keys => exact Or.inr (Or.inr (Or.inr ⟨(t, k), keys, rfl⟩))
  | _ => exact Or.inl rfl

/-- A time in the table was there before, or is the time at which the turn is dispatched or reclaimed. -/
theorem lookup_dispatchTimes_exec {env : Env} {sh : Shared} {x : Instr} {turn : TurnKey} {t : Nat}
    (h : (sh.exec cfg env x).shared.dispatchTimes.lookup turn = some t) :
    (sh.dispatchTimes.lookup turn = some t ∧ x.dispatches ≠ some turn) ∨
      t = env.now ∧ (x.dispatches = some turn ∨ turn ∈ x.reclaims) := by
  -- a table in which a turn is entered with the current time
  have hinsert : ∀ key, (sh.dispatchTimes.insert key env.now).lookup turn = some t →
      (sh.dispatchTimes.lookup turn = some t ∧ turn ≠ key) ∨ t = env.now ∧ turn = key := by
    intro key hl
    by_cases hk : turn = key
    · subst hk
      rw [Finmap.lookup_insert] at hl
      exact Or.inr ⟨(Option.some.inj hl).symm, rfl⟩
    · rw [Finmap.lookup_insert_of_ne _ hk] at hl
      exact Or.inl ⟨hl, hk⟩
  by_cases hdisp : x.dispatches = none
  · rcases (exec_step cfg env sh x).dispatchTimes with hsame | hdisp' | ⟨t', k', rfl⟩ | ⟨key, keys, rfl⟩
    · rw [hsame] at h
      exact Or.inl ⟨h, by simp [hdisp]⟩
    · exact absurd hdisp hdisp'
    · have hl : (sh.dispatchTimes.erase (t', k')).lookup turn = some t := h
      by_cases hk : turn = (t', k')
      · rw [hk, Finmap.lookup_erase] at hl
        cases hl
      · rw [Finmap.lookup_erase_ne hk] at hl
        exact Or.inl ⟨hl, nofun⟩
    · rcases hinsert key h with ⟨hl, -⟩ | ⟨ht, rfl⟩
      · exact Or.inl ⟨hl, nofun⟩
      · exact Or.inr ⟨ht, Or.inr List.mem_cons_self⟩
  · unfold Instr.dispatches at hdisp
    split at hdisp
    · rename_i popped
      rcases hinsert popped.key h with ⟨hl, hne⟩ | ⟨ht, rfl⟩
      · exact Or.inl ⟨hl, fun hd => hne (Option.some.inj hd).symm⟩
      · exact Or.inr ⟨ht, Or.inl rfl⟩
    · exact absurd rfl hdisp

/-- Only the watchdog sets out to reclaim turns. -/
theorem Step.reclaims {sh : Shared} {x : Instr} {out : Out} (h : Step cfg sh x out) :
    x = .watchdog ∨ ∀ y ∈ out.next ++ out.spawned, y.reclaims ⊆ x.reclaims := by
  cases h with
  | scanned => exact Or.inl rfl
  | _ => exact Or.inr (by simp [failTurnAndRespond, failTaskWithReason, Instr.reclaims])

/-- What the table of dispatch times and the turns that are about to be reclaimed tell about the dispatches. -/
structure Watched (lease : Nat) (s : Timed) : Prop where
  /-- A turn in the table was dispatched, at the latest at the time it is entered with. -/
  entered : ∀ turn t, s.orch.shared.dispatchTimes.lookup turn = some t → ∃ d, s.dispatched.lookup turn = some d ∧ d ≤ t
  /-- A turn that is about to be reclaimed was dispatched longer ago than the lease. -/
  stale : Everywhere (fun x => ∀ turn ∈ x.reclaims, ∃ d, s.dispatched.lookup turn = some d ∧ d + lease < s.clock)
    s.orch.pool

theorem Watched.start (lease : Nat) (store : BrokerStore) (n : Nat) : Watched lease (.start store n) where
  entered := fun turn t ht => by simp [Timed.start, Orchestrator.start] at ht
  stale := fun stack hs => by cases hs

/-- An instruction leaves the account right, if it comes in time and dispatches no turn that is about to be reclaimed.
-/
theorem Watched.executes {k : Nat} {env : Env} {x : Instr} {rest : List Instr} {o' : Orchestrator}
    (hs : Watched cfg.lease s) (he : Executes (execWith cfg) s.orch (.exec k env) o' k env x rest)
    (hnow : s.clock ≤ env.now) (hfree : ∀ turn ∈ x.dispatches, Everywhere (fun y => turn ∉ y.reclaims) s.orch.pool) :
    Watched cfg.lease { orch := o', dispatched := Timed.noteDispatch s.dispatched env.now x, clock := env.now } := by
  -- what was known of the turns to be reclaimed is still known
  have hold : Everywhere (fun y => ∀ turn ∈ y.reclaims, ∃ d,
      (Timed.noteDispatch s.dispatched env.now x).lookup turn = some d ∧ d + cfg.lease < env.now) s.orch.pool := by
    intro stack hstack y hy turn hturn
    obtain ⟨d, hd, hlt⟩ := hs.stale stack hstack y hy turn hturn
    have hne : x.dispatches ≠ some turn := fun h => hfree turn h stack hstack y hy hturn
    exact ⟨d, by rw [lookup_noteDispatch, if_neg hne, hd], by omega⟩
  have htop := he.of_everywhere hold
  constructor
  · intro turn t ht
    simp only [he.shared] at ht
    rcases lookup_dispatchTimes_exec ht with ⟨hl, hne⟩ | ⟨rfl, hdisp | hrec⟩
    · obtain ⟨d, hd, hle⟩ := hs.entered turn t hl
      exact ⟨d, by simp [hne, hd], hle⟩
    · exact ⟨env.now, by simp [hdisp], le_rfl⟩
    · obtain ⟨d, hd, hlt⟩ := htop turn hrec
      exact ⟨d, hd, by omega⟩
  · refine he.everywhere hold fun y hy turn hturn => ?_
    rcases (exec_step cfg env s.orch.shared x).reclaims with rfl | hsub
    · -- the watchdog has just found the turn
      obtain rfl : y = .reclaim (s.orch.shared.staleTurns cfg env) := List.mem_singleton.mp hy
      obtain ⟨t, ht, hlt⟩ := mem_staleTurns.mp hturn
      obtain ⟨d, hd, hle⟩ := hs.entered turn t ht
      exact ⟨d, by simpa [Instr.dispatches] using hd, by dsimp only; omega⟩
    · exact htop turn (hsub y hy hturn)

/-- **Every undisturbed move leaves the account right.** -/
theorem Watched.step (hs : Watched cfg.lease s) (hm : Undisturbed s m) : Watched cfg.lease (Timed.step cfg s m) := by
  cases m with
  | enter x =>
    have horch : orchestrate cfg s.orch (.enter x) = s.orch ∨
        (x.isEntry = true ∧ orchestrate cfg s.orch (.enter x) = { s.orch with pool := s.orch.pool ++ [[x]] }) := by
      unfold orchestrate move
      by_cases hx : x.isEntry = true <;> simp [hx]
    rcases horch with horch | ⟨hx, horch⟩
    · exact ⟨by simpa [Timed.step, horch] using hs.entered, by simpa [Timed.step, horch] using hs.stale⟩
    · refine ⟨by simpa [Timed.step, horch] using hs.entered, ?_⟩
      have hno : x.reclaims = [] := by cases x <;> first | rfl | cases hx
      intro stack hstack y hy turn hturn
      simp only [Timed.step, horch, List.mem_append, List.mem_singleton] at hstack
      rcases hstack with hstack | rfl
      · exact hs.stale stack hstack y hy turn hturn
      · rw [List.mem_singleton.mp hy, hno] at hturn
        cases hturn
  | exec k env =>
    cases hf : fetched s.orch (.exec k env : OMove) with
    | none =>
      have horch : orchestrate cfg s.orch (.exec k env) = s.orch := move_of_not_fetched hf
      have hstep : Timed.step cfg s (.exec k env) = s := by
        unfold Timed.step
        rw [hf, horch]
      rw [hstep]
      exact hs
    | some x =>
      obtain ⟨rest, he⟩ := executes_of_fetched (execWith cfg) Instr.isEntry hf
      obtain ⟨hnow, hfree⟩ := executing_iff.mp hm x hf
      have hstep : Timed.step cfg s (.exec k env) = { orch := orchestrate cfg s.orch (.exec k env)
                                                      dispatched := Timed.noteDispatch s.dispatched env.now x
                                                      clock := env.now } := by
        unfold Timed.step
        rw [hf]
      rw [hstep]
      exact hs.executes he hnow hfree

/-- A turn that is reclaimed was dispatched longer ago than the lease. -/
theorem Watched.patient (hs : Watched cfg.lease s) (hm : Undisturbed s m) {wait : ℚ} (hw : wait ≤ cfg.lease + 1) :
    Patient wait s m := by
  cases m with
  | enter x => trivial
  | exec k env =>
    refine executing_iff.mpr fun x hf turn hturn => ?_
    obtain ⟨rest, he⟩ := executes_of_fetched (execWith cfg) Instr.isEntry hf
    obtain ⟨hnow, -⟩ := executing_iff.mp hm x hf
    obtain ⟨d, hd, hlt⟩ := he.of_everywhere hs.stale turn (List.mem_of_mem_head? hturn)
    refine ⟨d, hd, ?_⟩
    have hle : ((d + cfg.lease + 1 : Nat) : ℚ) ≤ (env.now : ℚ) := by exact_mod_cast (by omega)
    push_cast at hle
    linarith

/-- **The watchdog waits for the lease**, in every undisturbed run. -/
theorem watchdog_patient {wait : ℚ} (hw : wait ≤ cfg.lease + 1) (store : BrokerStore) (n : Nat) {moves : List OMove}
    (hm : Meets (Timed.step cfg) Undisturbed (.start store n) moves) :
    Meets (Timed.step cfg) (Patient wait) (.start store n) moves := by
  exact meets_of_invariant (Watched cfg.lease) (fun _ _ h hm => h.step hm) (fun _ _ h hm => h.patient hm hw)
    (Watched.start cfg.lease store n) hm

/-! ## The watchdog does not wait longer -/

/-- Three moves that let the watchdog reclaim a turn at the given time. -/
def scanAt (pool now : Nat) (turn : TurnKey) : List OMove :=
  [.enter .watchdog, .exec pool { now, keyOrder := [turn] }, .exec pool { now }]

/-- A stale turn that the scan finds first. -/
theorem head?_staleTurns {env : Env} {sh : Shared} {turn : TurnKey} (h : turn ∈ sh.staleTurns cfg env)
    (ho : env.keyOrder = [turn]) : (sh.staleTurns cfg env).head? = some turn := by
  unfold Shared.staleTurns at h ⊢
  dsimp only at h ⊢
  obtain ⟨a, ha, rfl⟩ := List.mem_map.mp h
  rw [ho, List.map_singleton, walk_of_mem (List.nodup_singleton _)]
  swap
  · rintro b hb
    rw [List.mem_singleton.mp hb]
    exact mem_walk.mp ha
  rfl

variable (cfg) in
/-- **A turn under watch can be reclaimed right after the lease.** -/
theorem reclaimed_after_lease {turn : TurnKey} {d : Nat} {wait : ℚ}
    (ht : s.orch.shared.dispatchTimes.lookup turn = some d) (hd : s.dispatched.lookup turn = some d)
    (hclock : s.clock ≤ d + cfg.lease + 1) (hw : (cfg.lease : ℚ) + 1 < wait) :
    Meets (Timed.step cfg) Undisturbed s (scanAt s.orch.pool.length (d + cfg.lease + 1) turn) ∧
      ¬ Meets (Timed.step cfg) (Patient wait) s (scanAt s.orch.pool.length (d + cfg.lease + 1) turn) := by
  -- the states after the scan was entered and after it was made
  obtain ⟨now, hnow⟩ : ∃ now, now = d + cfg.lease + 1 := ⟨_, rfl⟩
  rw [← hnow] at hclock ⊢
  obtain ⟨stale, hstale⟩ : ∃ stale, stale = s.orch.shared.staleTurns cfg { now, keyOrder := [turn] } := ⟨_, rfl⟩
  have hhead : stale.head? = some turn := by
    rw [hstale]
    exact head?_staleTurns (mem_staleTurns.mpr ⟨d, ht, by dsimp only; omega⟩) rfl
  have hfetch : ∀ (o : Orchestrator) (pool : List (List Instr)) x env, o.pool = pool ++ [[x]] →
      fetched o (.exec pool.length env : OMove) = some x := by
    intro o pool x env ho
    simp [fetched, ho]
  obtain ⟨s₁, hs₁⟩ : ∃ s₁ : Timed, s₁ = { s with orch := { s.orch with pool := s.orch.pool ++ [[.watchdog]] } } :=
    ⟨_, rfl⟩
  obtain ⟨s₂, hs₂⟩ : ∃ s₂ : Timed, s₂ = { s with
    orch := { s.orch with pool := s.orch.pool ++ [[.reclaim stale]] }, clock := now } := ⟨_, rfl⟩
  have hf₁ := hfetch s₁.orch s.orch.pool .watchdog { now, keyOrder := [turn] } (by rw [hs₁])
  have hf₂ := hfetch s₂.orch s.orch.pool (.reclaim stale) { now } (by rw [hs₂])
  have hstep₁ : Timed.step cfg s (.enter .watchdog) = s₁ := by rw [hs₁]; rfl
  have hstep₂ : Timed.step cfg s₁ (.exec s.orch.pool.length { now, keyOrder := [turn] }) = s₂ := by
    unfold Timed.step
    rw [hf₁, hs₁, hs₂, hstale]
    simp [orchestrate, move, execWith, Shared.exec, Shared.watchdog, Timed.noteDispatch, Instr.dispatches]
  unfold scanAt Meets Meets Meets Meets
  rw [hstep₁, hstep₂]
  constructor
  · refine ⟨trivial, executing_iff.mpr fun x hx => ?_, executing_iff.mpr fun x hx => ?_, trivial⟩
    · obtain rfl := Option.some.inj (hf₁.symm.trans hx)
      exact ⟨by rw [hs₁]; exact hclock, fun turn hturn => by cases hturn⟩
    · obtain rfl := Option.some.inj (hf₂.symm.trans hx)
      exact ⟨by rw [hs₂], fun turn hturn => by cases hturn⟩
  · rintro ⟨-, -, hpat, -⟩
    obtain ⟨d', hd', hle⟩ := executing_iff.mp hpat _ hf₂ turn hhead
    rw [hs₂] at hd'
    obtain rfl := Option.some.inj (hd.symm.trans hd')
    have hcast : (now : ℚ) = d + cfg.lease + 1 := by exact_mod_cast hnow
    dsimp only at hle
    linarith

/-! ## The wired watchdog -/

/-- An instruction that does not look at the settings. -/
def Instr.isPlain : Instr → Bool
  | awaitTurn _ _ _ _ | dispatchAttempt _ _ | decideRetry _ _ _ _ _ _ | awaitRedo _ _ _ _ _ | watchdog => false
  | _ => true

/-- The move executes no instruction that looks at the settings. -/
def Plain (s : Timed) (m : OMove) : Prop := Executing (fun _ _ x => x.isPlain = true) s.orch m

instance (s : Timed) (m : OMove) : Decidable (Plain s m) :=
  inferInstanceAs (Decidable (Executing (fun _ _ x => x.isPlain = true) s.orch m))

instance (s : Timed) (m : OMove) : Decidable (Undisturbed s m) := by
  unfold Undisturbed
  have hdec : ∀ (o : Orchestrator) (env : Env) (x : Instr), Decidable (s.clock ≤ env.now ∧
      ∀ turn ∈ x.dispatches, Everywhere (fun y => turn ∉ y.reclaims) o.pool) := fun _ _ _ => inferInstance
  exact Executing.decidable _ s.orch m

/-- Such moves are the same under all settings. -/
theorem step_plain (cfg cfg' : Config) (s : Timed) (m : OMove) (h : Plain s m) :
    Timed.step cfg' s m = Timed.step cfg s m := by
  have hmove : orchestrate cfg' s.orch m = orchestrate cfg s.orch m := by
    cases m with
    | enter x => rfl
    | exec k env =>
      cases hf : fetched s.orch (.exec k env : OMove) with
      | none => exact (move_of_not_fetched hf).trans (move_of_not_fetched hf).symm
      | some x =>
        have hx : x.isPlain = true := executing_iff.mp h x hf
        have hexec : execWith cfg' env s.orch.shared x = execWith cfg env s.orch.shared x := by
          cases x <;> first | rfl | cases hx
        obtain ⟨rest, he⟩ := executes_of_fetched (execWith cfg) Instr.isEntry hf
        simp [orchestrate, move, he.top, hexec]
  unfold Timed.step
  rw [hmove]

/-- A first turn is started and dispatched at time 0, and the watchdog scans its table one tick after the lease. -/
def earlyScan (st : Settings) : List OMove := firstTurn.take 13 ++ scanAt 3 (st.turnTimeout + 1) ("task_1", 1)

/-- The first turn is reclaimed right after the lease, whatever the settings are. -/
theorem first_reclaimed {st : Settings} {wait : ℚ} (hw : (st.turnTimeout : ℚ) + 1 < wait) :
    Meets (Timed.step st.config) Undisturbed (.start BrokerStore.empty 2) (earlyScan st) ∧
      ¬ Meets (Timed.step st.config) (Patient wait) (.start BrokerStore.empty 2) (earlyScan st) := by
  have hplain : Meets (Timed.step {}) Plain (.start BrokerStore.empty 2) (firstTurn.take 13) := by decide +kernel
  have hfirst : Meets (Timed.step {}) Undisturbed (.start BrokerStore.empty 2) (firstTurn.take 13) := by decide +kernel
  have hat : let s := run (Timed.step {}) (.start BrokerStore.empty 2) (firstTurn.take 13)
      s.orch.shared.dispatchTimes.lookup ("task_1", 1) = some 0 ∧ s.dispatched.lookup ("task_1", 1) = some 0 ∧
        s.clock = 0 ∧ s.orch.pool.length = 3 := by decide +kernel
  obtain ⟨ht, hd, hclock, hlen⟩ := hat
  rw [← run_congr (step_plain {} st.config) hplain] at ht hd hclock hlen
  obtain ⟨hscan, hbad⟩ := reclaimed_after_lease st.config ht hd (by omega) hw
  rw [hlen, Nat.zero_add] at hscan hbad
  have hbegin := (meets_congr (step_plain {} st.config) hplain).mpr hfirst
  exact ⟨meets_append.mpr ⟨hbegin, hscan⟩, fun hall => hbad (meets_append.mp hall).2⟩

/-- **The watchdog waits for the last deadline exactly if that is at most one tick after the lease**: with a later
deadline there is an undisturbed run in which it does not. -/
theorem watchdog_patient_iff (st : Settings) :
    (∀ store n moves, Meets (Timed.step st.config) Undisturbed (.start store n) moves →
      Meets (Timed.step st.config) (Patient st.lastDeadline) (.start store n) moves) ↔
        st.lastDeadline ≤ st.turnTimeout + 1 := by
  constructor
  · intro h
    by_contra hw
    obtain ⟨hm, hbad⟩ := first_reclaimed (not_le.mp hw)
    exact hbad (h BrokerStore.empty 2 (earlyScan st) hm)
  · intro hw store n moves hm
    have hlease : st.lastDeadline ≤ (st.config.lease : ℚ) + 1 := hw
    exact watchdog_patient hlease store n hm

/-- Without extensions the last deadline is the lease, and the watchdog waits for it. -/
theorem watchdog_patient_of_no_extensions {st : Settings} (h : st.turnMaxExtensions = 0) (store : BrokerStore) (n : Nat)
    {moves : List OMove} (hm : Meets (Timed.step st.config) Undisturbed (.start store n) moves) :
    Meets (Timed.step st.config) (Patient st.lastDeadline) (.start store n) moves := by
  have hlast : st.lastDeadline = st.turnTimeout := by simp [Settings.lastDeadline, h]
  refine watchdog_patient ?_ store n hm
  rw [hlast]
  exact (lt_add_one (st.turnTimeout : ℚ)).le

/-- With the default settings the first turn is reclaimed after ten minutes; its last deadline is after half an hour. -/
theorem reclaimed_before_deadline : (Settings.read {}).lastDeadline = 2025 * 10 ^ 9 ∧
    Meets (Timed.step (Settings.read {}).config) Undisturbed (.start BrokerStore.empty 2)
      (earlyScan (Settings.read {})) ∧
      ¬ Meets (Timed.step (Settings.read {}).config) (Patient (Settings.read {}).lastDeadline)
        (.start BrokerStore.empty 2) (earlyScan (Settings.read {})) := by
  have hlast : (Settings.read {}).lastDeadline = 2025 * 10 ^ 9 := by
    norm_num [Settings.lastDeadline, Settings.read]
  refine ⟨hlast, first_reclaimed ?_⟩
  rw [hlast]
  norm_num [Settings.read]

end Fixus
