import Fixus.Store.Context

/-!
# Unfinished steps

A step is known by its number only; it may be started more than once, and a terminal event of either kind ends it.
What a log says about a step is its last start and what came after that.

- `LastStart`, `Unfinished`, `Ended`: the last start of a step, without a terminal event after it or with one of its own
  kind;
- `applyHead_activeSteps`: what one event does to the active steps;
- `activeSteps_iff`: the active steps of a projection are the unfinished steps of its log.
-/

namespace Fixus

open TaskProjection

/-- The terminal events of the kind of a start event. -/
def EventType.endedBy : EventType → EventType → Bool
  | .llmInvoked, .llmCompleted | .llmInvoked, .llmFailed => true
  | .toolInvoked, .toolCompleted | .toolInvoked, .toolFailed => true
  | _, _ => false

/-- `e` is the last start of the step, and `post` comes after it. -/
structure LastStart (events : List AgentEvent) (sid : String) (e : AgentEvent) (post : List AgentEvent) : Prop where
  split : ∃ pre, events = pre ++ e :: post
  starts : e.eventType.isStepStart = true
  step : e.stepId = some sid
  last : ∀ e' ∈ post, e'.stepId = some sid → e'.eventType.isStepStart = false

/-- The step is started and no terminal event comes later. -/
def Unfinished (events : List AgentEvent) (sid : String) (e : AgentEvent) : Prop :=
  ∃ post, LastStart events sid e post ∧ ∀ e' ∈ post, e'.stepId = some sid → e'.eventType.isStepTerminal = false

/-- The step is started and a terminal event of its own kind comes later. -/
def Ended (events : List AgentEvent) (sid : String) (e : AgentEvent) : Prop :=
  ∃ post, LastStart events sid e post ∧ ∃ e' ∈ post, e'.stepId = some sid ∧ e.eventType.endedBy e'.eventType = true

/-- A terminal event of its own kind is a terminal event. -/
theorem EventType.isStepTerminal_of_endedBy {et et' : EventType} (h : et.endedBy et' = true) :
    et'.isStepTerminal = true := by
  cases et <;> cases et' <;> first | rfl | cases h

section Starts

variable {events new post post' : List AgentEvent} {sid : String} {e e' : AgentEvent}

theorem LastStart.mem (h : LastStart events sid e post) : e ∈ events := by
  obtain ⟨pre, rfl⟩ := h.split
  simp

/-- Later events that start nothing leave the last start. -/
theorem LastStart.append (h : LastStart events sid e post) (hnew : ∀ e' ∈ new, e'.eventType.isStepStart = false) :
    LastStart (events ++ new) sid e (post ++ new) := by
  obtain ⟨⟨pre, rfl⟩, hstarts, hstep, hlast⟩ := h
  refine ⟨⟨pre, by simp⟩, hstarts, hstep, fun e' he' hs => ?_⟩
  rcases List.mem_append.mp he' with he' | he'
  · exact hlast e' he' hs
  · exact hnew e' he'

/-- A step has one last start. -/
theorem LastStart.unique (h : LastStart events sid e post) (h' : LastStart events sid e' post') :
    e = e' ∧ post = post' := by
  obtain ⟨⟨pre, heq⟩, hstarts, hstep, hlast⟩ := h
  obtain ⟨⟨pre', heq'⟩, hstarts', hstep', hlast'⟩ := h'
  rw [heq] at heq'
  -- of two starts at different places the first is not the last one
  rcases List.append_eq_append_iff.mp heq' with ⟨mid, rfl, hmid⟩ | ⟨mid, rfl, hmid⟩
  · cases mid with
    | nil => simpa using hmid
    | cons m mid =>
      obtain ⟨rfl, rfl⟩ := List.cons.inj hmid
      have hmem : e' ∈ mid ++ e' :: post' := by simp
      rw [hlast e' hmem hstep'] at hstarts'
      cases hstarts'
  · cases mid with
    | nil =>
      obtain ⟨rfl, rfl⟩ := List.cons.inj hmid
      exact ⟨rfl, rfl⟩
    | cons m mid =>
      obtain ⟨rfl, rfl⟩ := List.cons.inj hmid
      have hmem : e ∈ mid ++ e :: post := by simp
      rw [hlast' e hmem hstep] at hstarts
      cases hstarts

/-- An unfinished step after one more event. -/
theorem unfinished_snoc : Unfinished (events ++ [e']) sid e ↔
    if e'.stepId = some sid ∧ e'.eventType.isStepStart = true then e = e'
    else if e'.stepId = some sid ∧ e'.eventType.isStepTerminal = true then False
    else Unfinished events sid e := by
  constructor
  · rintro ⟨post, h, hopen⟩
    obtain ⟨⟨pre, heq⟩, hstarts, hstep, hlast⟩ := h
    rcases List.eq_nil_or_concat post with rfl | ⟨post, e'', rfl⟩
    · obtain ⟨-, hlasts⟩ := List.append_inj' heq rfl
      obtain rfl := List.singleton_inj.mp hlasts
      simp [hstep, hstarts]
    · have heq' : events ++ [e'] = (pre ++ e :: post) ++ [e''] := by simpa using heq
      obtain ⟨rfl, hlasts⟩ := List.append_inj' heq' rfl
      obtain rfl := List.singleton_inj.mp hlasts
      have hmem : e' ∈ post.concat e' := by simp
      have hns : ¬ (e'.stepId = some sid ∧ e'.eventType.isStepStart = true) := fun ⟨hs, ht⟩ => by
        rw [hlast e' hmem hs] at ht
        cases ht
      have hnt : ¬ (e'.stepId = some sid ∧ e'.eventType.isStepTerminal = true) := fun ⟨hs, ht⟩ => by
        rw [hopen e' hmem hs] at ht
        cases ht
      rw [if_neg hns, if_neg hnt]
      have hsub : ∀ x ∈ post, x ∈ post.concat e' := fun x hx => by simp [hx]
      exact ⟨post, ⟨⟨pre, rfl⟩, hstarts, hstep, fun x hx => hlast x (hsub x hx)⟩, fun x hx => hopen x (hsub x hx)⟩
  · intro h
    split at h
    · next hs =>
      subst h
      exact ⟨[], ⟨⟨events, rfl⟩, hs.2, hs.1, fun _ hx => by cases hx⟩, fun _ hx => by cases hx⟩
    · next hns =>
      split at h
      · exact h.elim
      · next hnt =>
        obtain ⟨post, ⟨⟨pre, rfl⟩, hstarts, hstep, hlast⟩, hopen⟩ := h
        refine ⟨post ++ [e'], ⟨⟨pre, by simp⟩, hstarts, hstep, fun x hx hs => ?_⟩, fun x hx hs => ?_⟩
        · rcases List.mem_append.mp hx with hx | hx
          · exact hlast x hx hs
          · obtain rfl := List.mem_singleton.mp hx
            simpa [hs] using hns
        · rcases List.mem_append.mp hx with hx | hx
          · exact hopen x hx hs
          · obtain rfl := List.mem_singleton.mp hx
            simpa [hs] using hnt

end Starts

/-! ## The active steps of a projection -/

/-- The step of a start event becomes active. -/
def TaskProjection.openStep (p : TaskProjection) (ae : AgentEvent) : Finmap fun _ : String => Int × AgentEvent :=
  match ae.stepId with
  | some sid => p.activeSteps.insert sid (ae.seq, ae)
  | none => p.activeSteps

/-- Only start and terminal events touch the active steps. -/
theorem applyHead_steps (p : TaskProjection) (ae : AgentEvent) :
    (p.applyHead ae).activeSteps =
      if ae.eventType.isStepStart = true then p.openStep ae
      else if ae.eventType.isStepTerminal = true then (p.closeStep ae).activeSteps
      else p.activeSteps := by
  have husage : ∀ (q : TaskProjection) (v : Json), (q.addUsage v).activeSteps = q.activeSteps := by
    intro q v
    unfold addUsage
    cases v.get "usage" <;> rfl
  unfold applyHead openStep
  cases ae.eventType <;> first
    | rfl
    | (cases ae.stepId <;> rfl)
    | exact husage _ _

/-- Closing a step makes it inactive. -/
theorem closeStep_lookup (p : TaskProjection) (ae : AgentEvent) (sid : String) :
    (p.closeStep ae).activeSteps.lookup sid = if ae.stepId = some sid then none else p.activeSteps.lookup sid := by
  unfold closeStep
  cases hs : ae.stepId with
  | none => simp
  | some sid' =>
    dsimp only
    cases ha : p.activeSteps.lookup sid' with
    | none =>
      by_cases hne : sid' = sid
      · subst hne
        simp [ha]
      · simp [hne]
    | some started =>
      by_cases hne : sid' = sid
      · subst hne
        simp
      · simp [hne, Finmap.lookup_erase_ne (Ne.symm hne)]

/-- What one event does to the active steps. -/
theorem applyHead_activeSteps (p : TaskProjection) (ae : AgentEvent) (sid : String) :
    (p.applyHead ae).activeSteps.lookup sid =
      if ae.stepId = some sid ∧ ae.eventType.isStepStart = true then some (ae.seq, ae)
      else if ae.stepId = some sid ∧ ae.eventType.isStepTerminal = true then none
      else p.activeSteps.lookup sid := by
  have hopen : (p.openStep ae).lookup sid =
      if ae.stepId = some sid then some (ae.seq, ae) else p.activeSteps.lookup sid := by
    unfold openStep
    cases hs : ae.stepId with
    | none => simp
    | some sid' =>
      by_cases hne : sid' = sid
      · subst hne
        simp
      · simp [hne, Finmap.lookup_insert_of_ne _ (Ne.symm hne)]
  rw [applyHead_steps]
  cases hstart : ae.eventType.isStepStart with
  | true =>
    have hend : ae.eventType.isStepTerminal = false := by
      cases he : ae.eventType <;> rw [he] at hstart <;> first | rfl | cases hstart
    simp [hopen, hend]
  | false =>
    cases hend : ae.eventType.isStepTerminal with
    | true => simp [closeStep_lookup]
    | false => simp

variable {taskId : String} {log : List Record} {sid : String} {v : Int × AgentEvent}

/-- **The active steps are the unfinished steps of the log**, each with its last start. -/
theorem activeSteps_iff :
    (replay taskId log).activeSteps.lookup sid = some v ↔ v.1 = v.2.seq ∧ Unfinished (eventsOf taskId log) sid v.2 := by
  induction log using List.reverseRecOn generalizing v with
  | nil =>
    constructor
    · intro h
      have hnone : (replay taskId []).activeSteps.lookup sid = none := Finmap.lookup_empty sid
      rw [hnone] at h
      cases h
    · rintro ⟨-, post, ⟨⟨pre, h⟩, -⟩, -⟩
      exact absurd h.symm (by simp [eventsOf])
  | append_singleton log r ih =>
    rw [replay_append]
    cases he : EventType.fromStr r.eventType with
    | none =>
      have hsame : eventsOf taskId (log ++ [r]) = eventsOf taskId log := by simp [eventsOf, he]
      rw [applyIgnoring_none he, ih, hsame]
    | some et =>
      have hmore : eventsOf taskId (log ++ [r]) = eventsOf taskId log ++ [eventOf taskId et r] := by simp [eventsOf, he]
      rw [applyIgnoring_some he, replay_taskId, applyHead_activeSteps, hmore, unfinished_snoc, index_activeSteps]
      obtain ⟨seq, e⟩ := v
      split
      · simp only [Option.some.injEq, Prod.mk.injEq]
        constructor
        · rintro ⟨rfl, rfl⟩
          exact ⟨rfl, rfl⟩
        · rintro ⟨rfl, rfl⟩
          exact ⟨rfl, rfl⟩
      · split
        · simp
        · rw [ih]

end Fixus
