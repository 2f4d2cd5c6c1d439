import Fixus.Orchestrator.Watchdog

/-!
# Waiting for a turn

Whoever waits for a turn waits for one deadline after the other and gives up after the last. A timer is set for the rest
of the time to the deadline; it may fire at any time after that, and then less or nothing is left for the next one.

- `getElem?_computeExtensionDeadlines`, `sorted_computeExtensionDeadlines`: the deadlines, one by one;
- `WaitLoop.pass`: one pass of the loop, which is that of the orchestrator (`awaitTurn_elapsed`);
- `pass_expires`: a timer that does not fire early leaves the deadline of the pass behind;
- `wait_gives_up`: the loop ends with the pass of the last deadline, and not before that deadline.
-/

namespace Fixus

open Lib

/-! ## The deadlines -/

theorem getElem?_computeExtensionDeadlines (initial factor : ℚ) {n k : Nat} (hk : k ≤ n) :
    (computeExtensionDeadlines initial n factor)[k]? = some (initial * factor ^ k) := by
  induction n generalizing initial k with
  | zero =>
    obtain rfl : k = 0 := by omega
    simp [computeExtensionDeadlines]
  | succ n ih =>
    unfold computeExtensionDeadlines
    cases k with
    | zero => simp
    | succ k =>
      rw [List.getElem?_cons_succ, ih (initial * factor) (by omega), pow_succ', mul_assoc]

/-- Each deadline is later than the one before. -/
theorem sorted_computeExtensionDeadlines {initial factor : ℚ} (hinitial : 0 < initial) (hfactor : 1 < factor)
    (n : Nat) : (computeExtensionDeadlines initial n factor).Pairwise (· < ·) := by
  apply List.pairwise_iff_getElem.mpr
  intro i j hi hj hij
  rw [length_computeExtensionDeadlines] at hi hj
  have hgeti := getElem?_computeExtensionDeadlines initial factor (show i ≤ n by omega)
  have hgetj := getElem?_computeExtensionDeadlines initial factor (show j ≤ n by omega)
  rw [(List.getElem?_eq_some_iff.mp hgeti).2, (List.getElem?_eq_some_iff.mp hgetj).2]
  exact mul_lt_mul_of_pos_left (pow_lt_pow_right₀ hfactor hij) hinitial

/-- How long to wait for a deadline, and whether there was none left. -/
def nextRemaining (deadlines : List ℚ) (attempt : Nat) (elapsed : ℚ) : ℚ × Bool :=
  let idx := min attempt (deadlines.length - 1)
  (max (deadlines.getD idx 0 - elapsed) 0, decide (deadlines.length ≤ attempt))

/-- What is waited for ends at the deadline or later. -/
theorem le_add_nextRemaining {deadlines : List ℚ} {attempt : Nat} {deadline : ℚ}
    (h : deadlines[attempt]? = some deadline) (elapsed : ℚ) :
    deadline ≤ elapsed + (nextRemaining deadlines attempt elapsed).1 := by
  obtain ⟨hlt, -⟩ := List.getElem?_eq_some_iff.mp h
  have hidx : min attempt (deadlines.length - 1) = attempt := by omega
  have hmax : deadline - elapsed ≤ (nextRemaining deadlines attempt elapsed).1 := by
    unfold nextRemaining
    simp only [hidx, List.getD_eq_getElem?_getD, h, Option.getD_some]
    exact le_max_left _ _
  linarith

/-! ## The loop -/

/-- What ends a wait. -/
inductive Awaited where
  | outcome | closed | elapsed
  deriving DecidableEq, Repr

/-- How the loop ends. -/
inductive WaitEnd where
  | outcome | channelClosed | timeout
  deriving DecidableEq, Repr

/-- The loop, with the time since it began. -/
structure WaitLoop where
  attempt : Nat := 0
  ended : Option WaitEnd := none
  now : ℚ := 0

/-- One pass: the time at which the timer is set, what ends the wait, and when. -/
structure Pass where
  elapsed : ℚ
  awaited : Awaited
  woken : ℚ

def WaitLoop.pass (deadlines : List ℚ) (w : WaitLoop) (p : Pass) : WaitLoop :=
  match w.ended with
  | some _ => w
  | none =>
    match p.awaited with
    | .outcome => { w with ended := some .outcome, now := p.woken }
    | .closed => { w with ended := some .channelClosed, now := p.woken }
    | .elapsed =>
      let attempt := w.attempt + 1
      { attempt
        ended := if (nextRemaining deadlines attempt p.elapsed).2 then some .timeout else none
        now := p.woken }

/-- The turn does not complete, the clock does not run back, and the timer does not fire early. -/
def NeverDone (deadlines : List ℚ) (w : WaitLoop) (p : Pass) : Prop :=
  w.ended = none → p.awaited = .elapsed ∧ w.now ≤ p.elapsed ∧
    p.elapsed + (nextRemaining deadlines w.attempt p.elapsed).1 ≤ p.woken

variable {deadlines : List ℚ} {w : WaitLoop}

/-- **A pass of the loop is that of the orchestrator**: after a time-out both go on to the next deadline, or both end.
-/
theorem awaitTurn_elapsed {st : Settings} {env : Env} {sh : Shared} {taskId : String} {turnId : Int} {chan : Nat}
    (h : sh.wait env taskId chan = .elapsed) (hw : w.ended = none) {p : Pass} (hp : p.awaited = .elapsed) :
    (sh.awaitTurn st.config env taskId turnId chan w.attempt).next =
      [.awaitTurn taskId turnId chan (w.attempt + 1)] ↔ (w.pass st.deadlines p).ended = none := by
  unfold Shared.awaitTurn WaitLoop.pass
  simp only [h, hw, hp]
  by_cases hlast : st.deadlines.length ≤ w.attempt + 1
  · have htotal : w.attempt + 1 ≥ st.config.totalAttempts := hlast
    simp [htotal, nextRemaining, hlast, failTurnAndRespond, failTaskWithReason]
  · have htotal : ¬ w.attempt + 1 ≥ st.config.totalAttempts := hlast
    simp [htotal, nextRemaining, hlast]

/-- After its end the loop stands still. -/
theorem run_ended {e : WaitEnd} (h : w.ended = some e) (ps : List Pass) :
    run (WaitLoop.pass deadlines) w ps = w := by
  induction ps with
  | nil => rfl
  | cons p ps ih =>
    have hpass : w.pass deadlines p = w := by simp only [WaitLoop.pass, h]
    rw [run_cons, hpass, ih]

/-- **One pass**: its deadline is over, and it is the last one or the loop goes on. -/
theorem pass_expires {deadline : ℚ} {p : Pass} (hw : w.ended = none) (hd : deadlines[w.attempt]? = some deadline)
    (hp : NeverDone deadlines w p) : (w.pass deadlines p).attempt = w.attempt + 1 ∧
      (w.pass deadlines p).ended = (if deadlines.length ≤ w.attempt + 1 then some .timeout else none) ∧
      deadline ≤ (w.pass deadlines p).now := by
  obtain ⟨hawaited, -, hfired⟩ := hp hw
  have hdue := le_add_nextRemaining hd p.elapsed
  have hpass : w.pass deadlines p = { attempt := w.attempt + 1
                                      ended := if (nextRemaining deadlines (w.attempt + 1) p.elapsed).2
                                        then some .timeout else none
                                      now := p.woken } := by
    simp only [WaitLoop.pass, hw, hawaited]
  rw [hpass]
  exact ⟨rfl, if_congr decide_eq_true_iff rfl rfl, hdue.trans hfired⟩

/-- From any pass on. -/
theorem run_waiting {last : ℚ} (hlast : deadlines.getLast? = some last) {ps : List Pass} (hw : w.ended = none)
    (hlt : w.attempt < deadlines.length) (hm : Meets (WaitLoop.pass deadlines) (NeverDone deadlines) w ps) :
    let w' := run (WaitLoop.pass deadlines) w ps
    (w.attempt + ps.length < deadlines.length → w'.ended = none ∧ w'.attempt = w.attempt + ps.length) ∧
      (deadlines.length ≤ w.attempt + ps.length →
        w'.ended = some .timeout ∧ w'.attempt = deadlines.length ∧ last ≤ w'.now) := by
  induction ps generalizing w with
  | nil => exact ⟨fun _ => ⟨hw, rfl⟩, fun hle => absurd hle (by simpa using hlt)⟩
  | cons p ps ih =>
    obtain ⟨hp, hrest⟩ := hm
    obtain ⟨deadline, hd⟩ : ∃ deadline, deadlines[w.attempt]? = some deadline := ⟨_, List.getElem?_eq_getElem hlt⟩
    obtain ⟨hattempt, hended, hover⟩ := pass_expires hw hd hp
    simp only [run_cons, List.length_cons]
    by_cases hend : deadlines.length ≤ w.attempt + 1
    · -- the deadline of this pass is the last one
      rw [if_pos hend] at hended
      have hat : w.attempt = deadlines.length - 1 := by omega
      rw [hat, ← List.getLast?_eq_getElem?, hlast] at hd
      obtain rfl := Option.some.inj hd
      rw [run_ended hended]
      exact ⟨fun hle => absurd hle (by omega), fun _ => ⟨hended, by omega, hover⟩⟩
    · rw [if_neg hend] at hended
      obtain ⟨hbefore, hafter⟩ := ih hended (by omega) hrest
      refine ⟨fun hle => ?_, fun hle => hafter (by omega)⟩
      obtain ⟨hnone, hcount⟩ := hbefore (by omega)
      exact ⟨hnone, by omega⟩

/-- **The wait for a turn that never completes** goes through the deadlines in increasing order, one for each extension
and the first; it gives up at the expiration of the last one, which is not before its time. -/
theorem wait_gives_up {initial factor : ℚ} (hinitial : 0 < initial) (hfactor : 1 < factor) (n : Nat) :
    let deadlines := computeExtensionDeadlines initial n factor
    deadlines.Pairwise (· < ·) ∧ deadlines.length = n + 1 ∧
      ∀ ps, Meets (WaitLoop.pass deadlines) (NeverDone deadlines) {} ps →
        let w := run (WaitLoop.pass deadlines) {} ps
        (ps.length < n + 1 → w.ended = none ∧ w.attempt = ps.length) ∧
          (n + 1 ≤ ps.length → w.ended = some .timeout ∧ w.attempt = n + 1 ∧ initial * factor ^ n ≤ w.now) := by
  intro deadlines
  have hlen : deadlines.length = n + 1 := length_computeExtensionDeadlines initial n factor
  refine ⟨sorted_computeExtensionDeadlines hinitial hfactor n, hlen, fun ps hm => ?_⟩
  have hlast := getLast?_computeExtensionDeadlines initial n factor
  have hrun := run_waiting hlast rfl (by rw [length_computeExtensionDeadlines]; exact Nat.succ_pos n) hm
  simpa only [length_computeExtensionDeadlines, Nat.zero_add] using hrun

/-- Ten minutes and an extension by a half; the first timer fires after the second deadline. -/
theorem wait_gives_up_late : (run (WaitLoop.pass (computeExtensionDeadlines 600 1 (3 / 2))) {}
    [{ elapsed := 1, awaited := .elapsed, woken := 1000 },
      { elapsed := 1001, awaited := .elapsed, woken := 1001 }]).ended = some .timeout := by
  have hdeadlines : computeExtensionDeadlines 600 1 (3 / 2) = [600, 900] := by norm_num [computeExtensionDeadlines]
  refine (((wait_gives_up (by norm_num) (by norm_num) 1).2.2 _ ?_).2 le_rfl).1
  rw [hdeadlines]
  refine ⟨fun _ => ?_, fun _ => ?_, trivial⟩ <;> norm_num [nextRemaining, WaitLoop.pass]

end Fixus
