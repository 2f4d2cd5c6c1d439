import Fixus.Lib.Holes
import Fixus.Lifecycle.RecentTurns

/-!
# Gaps in a log

The log database looks for numbers that are missing in the log of a task. It reports one number for each hole, and a
turn counts as continuous if none of these lies between its first and its last record.

- `LogdbdStore.detectSeqGaps`, `LogdbdStore.isTurnSeqContinuous`: the two questions;
- `mem_seqGaps`: what is reported is the first number of each hole;
- `gap_between_iff`: between two numbers of the log one is missing exactly if one is reported;
- `turn_continuous_iff`: both questions on a log.
-/

namespace Fixus

open Lib Lib.Eff

/-! ## The questions -/

/-- For each number but the last, the next one if it is missing. -/
def seqGaps (seqs : List Nat) : List Int :=
  let sorted := seqs.insertionSort (· ≤ ·)
  let maxSeq := sorted.getLast?.getD 0
  (sorted.filter (· < maxSeq)).filterMap fun s => if s + 1 ∈ seqs then none else some (wrapI64 (s + 1 : Nat))

/-- The numbers of the records of a turn. -/
def turnSeqs (log : List Record) (turnId : Int) : List Nat :=
  (log.filter fun r => r.metadata.lookup "turn_id" = some (toString turnId)).map Record.seq

namespace LogdbdStore

def detectSeqGaps (taskId : String) : StoreM LogdbdStore (List Int) := do
  let recs ← runQuery taskId fun log => log
  pure (seqGaps (recs.map Record.seq))

/-- Without a record of the turn both bounds are 0. -/
def isTurnSeqContinuous (taskId : String) (turnId : Int) : StoreM LogdbdStore Bool := do
  let gaps ← detectSeqGaps taskId
  let lo ← runQuery taskId fun log => (turnSeqs log turnId).min?
  let hi ← runQuery taskId fun log => (turnSeqs log turnId).max?
  let lo := (lo.map fun n : Nat => wrapI64 n).getD 0
  let hi := (hi.map fun n : Nat => wrapI64 n).getD 0
  pure (!gaps.any fun g => lo ≤ g && g ≤ hi)

end LogdbdStore

/-- All numbers between the first and the last record of the turn are in the log. -/
def TurnContinuous (log : List Record) (turnId : Int) : Prop :=
  ∀ lo hi, (turnSeqs log turnId).min? = some lo → (turnSeqs log turnId).max? = some hi →
    ∀ n, lo ≤ n → n ≤ hi → ∃ r ∈ log, r.seq = n

/-! ## The gaps of a list of numbers -/

section Numbers

variable {seqs : List Nat}

/-- The last of the sorted numbers is the largest. -/
theorem getLast_insertionSort : (seqs.insertionSort (· ≤ ·)).getLast? = seqs.max? := by
  cases hlast : (seqs.insertionSort (· ≤ ·)).getLast? with
  | none =>
    have hnil : seqs.insertionSort (· ≤ ·) = [] := List.getLast?_eq_none_iff.mp hlast
    have hempty : seqs = [] := List.Perm.nil_eq ((hnil ▸ List.perm_insertionSort (· ≤ ·) seqs)) |>.symm
    rw [hempty]
    rfl
  | some last =>
    obtain ⟨init, hinit⟩ := List.getLast?_eq_some_iff.mp hlast
    have hperm := List.perm_insertionSort (· ≤ ·) seqs
    have hsorted : (seqs.insertionSort (· ≤ ·)).Pairwise (· ≤ ·) := List.pairwise_insertionSort _ _
    rw [hinit] at hperm hsorted
    symm
    apply List.max?_eq_some_iff.mpr
    refine ⟨hperm.mem_iff.mp (by simp), fun n hn => ?_⟩
    rcases List.mem_append.mp (hperm.mem_iff.mpr hn) with hn | hn
    · exact (List.pairwise_append.mp hsorted).2.2 n hn last (List.mem_singleton_self last)
    · exact (List.mem_singleton.mp hn).le

/-- **What is reported**: the first missing number of each hole. -/
theorem mem_seqGaps (hseqs : ∀ n ∈ seqs, n < 2 ^ 63) {g : Int} :
    g ∈ seqGaps seqs ↔ ∃ before after, Hole {n | n ∈ seqs} before after ∧ g = before + 1 := by
  have hcast : ∀ s t, t ∈ seqs → s < t → wrapI64 (s + 1 : Nat) = (s : Int) + 1 := by
    intro s t ht hst
    have hlt := hseqs t ht
    unfold wrapI64
    omega
  unfold seqGaps
  dsimp only
  rw [getLast_insertionSort]
  simp only [List.mem_filterMap, List.mem_filter, decide_eq_true_eq, List.mem_insertionSort,
    Option.ite_none_left_eq_some, Option.some.injEq]
  constructor
  · rintro ⟨s, ⟨hs, hlt⟩, hnext, rfl⟩
    obtain ⟨last, hlast⟩ : ∃ last, seqs.max? = some last :=
      Option.isSome_iff_exists.mp (List.isSome_max?_of_mem hs)
    rw [hlast, Option.getD_some] at hlt
    have hmem : last ∈ seqs := (List.max?_eq_some_iff.mp hlast).1
    obtain ⟨after, hhole⟩ := exists_hole_after (S := {n | n ∈ seqs}) hs hmem hlt hnext
    exact ⟨s, after, hhole, hcast s last hmem hlt⟩
  · rintro ⟨s, after, hhole, rfl⟩
    obtain ⟨last, hlast⟩ : ∃ last, seqs.max? = some last :=
      Option.isSome_iff_exists.mp (List.isSome_max?_of_mem hhole.before_mem)
    have hle : after ≤ last := (List.max?_eq_some_iff.mp hlast).2 after hhole.after_mem
    have hlt := hhole.lt
    refine ⟨s, ⟨hhole.before_mem, ?_⟩, hhole.first_missing, hcast s after hhole.after_mem (by omega)⟩
    rw [hlast, Option.getD_some]
    omega

/-- **Between two numbers of the log one is missing exactly if one is reported.** -/
theorem gap_between_iff (hseqs : ∀ n ∈ seqs, n < 2 ^ 63) {lo hi : Nat} (hlo : lo ∈ seqs) (hhi : hi ∈ seqs) :
    (∃ g ∈ seqGaps seqs, (lo : Int) ≤ g ∧ g ≤ hi) ↔ ∃ n, lo ≤ n ∧ n ≤ hi ∧ n ∉ seqs := by
  constructor
  · rintro ⟨g, hg, hlog, hghi⟩
    obtain ⟨before, after, hhole, rfl⟩ := (mem_seqGaps hseqs).mp hg
    exact ⟨before + 1, by omega, by omega, hhole.first_missing⟩
  · rintro ⟨n, hlon, hnhi, hn⟩
    obtain ⟨before, after, hhole, hle, hlt, -, -⟩ := exists_hole_around (S := {n | n ∈ seqs}) hlo hhi hlon hnhi hn
    exact ⟨before + 1, (mem_seqGaps hseqs).mpr ⟨before, after, hhole, rfl⟩, by omega, by omega⟩

end Numbers

/-! ## On the log database -/

variable {log : List Record} {turnId : Int}

theorem mem_of_turnSeqs {n : Nat} (h : n ∈ turnSeqs log turnId) : n ∈ log.map Record.seq := by
  obtain ⟨r, hr, rfl⟩ := List.mem_map.mp h
  exact List.mem_map_of_mem (List.mem_of_mem_filter hr)

/-- The test on the gaps. -/
theorem continuous_test_iff (hseq : ∀ r ∈ log, r.seq < 2 ^ 63) :
    (!(seqGaps (log.map Record.seq)).any fun g =>
      ((turnSeqs log turnId).min?.map fun n : Nat => wrapI64 n).getD 0 ≤ g &&
        g ≤ ((turnSeqs log turnId).max?.map fun n : Nat => wrapI64 n).getD 0) = true ↔ TurnContinuous log turnId := by
  have hseqs : ∀ n ∈ log.map Record.seq, n < 2 ^ 63 := by
    intro n hn
    obtain ⟨r, hr, rfl⟩ := List.mem_map.mp hn
    exact hseq r hr
  have hcast : ∀ n ∈ turnSeqs log turnId, wrapI64 n = n := by
    intro n hn
    have hlt := hseqs n (mem_of_turnSeqs hn)
    unfold wrapI64
    omega
  rw [Bool.not_eq_true', List.any_eq_false]
  simp only [Bool.and_eq_true, decide_eq_true_eq]
  unfold TurnContinuous
  cases hmin : (turnSeqs log turnId).min? with
  | none =>
    -- no record of the turn, and every number that is reported is positive
    have hempty : turnSeqs log turnId = [] := List.min?_eq_none_iff.mp hmin
    rw [hempty]
    refine iff_of_true (fun g hg hbounds => ?_) nofun
    obtain ⟨before, after, -, rfl⟩ := (mem_seqGaps hseqs).mp hg
    have hzero : (before : Int) + 1 ≤ 0 := hbounds.2
    omega
  | some lo =>
    have hlo : lo ∈ turnSeqs log turnId := (List.min?_eq_some_iff.mp hmin).1
    obtain ⟨hi, hmax⟩ : ∃ hi, (turnSeqs log turnId).max? = some hi :=
      Option.isSome_iff_exists.mp (List.isSome_max?_of_mem hlo)
    have hhi : hi ∈ turnSeqs log turnId := (List.max?_eq_some_iff.mp hmax).1
    have hgap := gap_between_iff hseqs (mem_of_turnSeqs hlo) (mem_of_turnSeqs hhi)
    rw [hmax, Option.map_some, Option.map_some, Option.getD_some, Option.getD_some, hcast lo hlo, hcast hi hhi]
    constructor
    · intro hnone lo' hi' heqlo heqhi n hlon hnhi
      obtain rfl := Option.some.inj heqlo
      obtain rfl := Option.some.inj heqhi
      by_contra hn
      obtain ⟨g, hg, hbounds⟩ := hgap.mpr ⟨n, hlon, hnhi, fun hmem => hn (List.mem_map.mp hmem)⟩
      exact hnone g hg hbounds
    · intro hall g hg hbounds
      obtain ⟨n, hlon, hnhi, hn⟩ := hgap.mp ⟨g, hg, hbounds⟩
      obtain ⟨r, hr, rfl⟩ := hall lo hi rfl rfl n hlon hnhi
      exact hn (List.mem_map_of_mem hr)

/-- **A turn is reported as continuous exactly if it is**, on a log whose numbers fit; the gaps that are reported on the
way are the first missing numbers of the holes of the log. -/
theorem turn_continuous_iff (streams : String → List Record) (taskId : String) (turnId : Int)
    (hseq : ∀ r ∈ streams taskId, r.seq < 2 ^ 63) :
    ∃ gaps continuous, (LogdbdStore.detectSeqGaps taskId { streams }).1 = .ok gaps ∧
      (LogdbdStore.isTurnSeqContinuous taskId turnId { streams }).1 = .ok continuous ∧
      (∀ g : Int, g ∈ gaps ↔ ∃ before after, Hole {n | ∃ r ∈ streams taskId, r.seq = n} before after ∧ g = before + 1) ∧
      (continuous = true ↔ TurnContinuous (streams taskId) turnId) := by
  refine ⟨seqGaps ((streams taskId).map Record.seq), _, rfl, rfl, fun g => ?_, continuous_test_iff hseq⟩
  have hset : {n | ∃ r ∈ streams taskId, r.seq = n} = {n | n ∈ (streams taskId).map Record.seq} := by
    simp only [List.mem_map]
  rw [hset]
  refine mem_seqGaps fun n hn => ?_
  obtain ⟨r, hr, rfl⟩ := List.mem_map.mp hn
  exact hseq r hr

/-- Four records of two turns, with a wide hole between them. -/
def holedLog : List Record :=
  [⟨1, "turn_started", .obj [], (∅ : Metadata).insert "turn_id" "1"⟩,
    ⟨2, "turn_completed", .obj [], (∅ : Metadata).insert "turn_id" "1"⟩,
    ⟨7, "turn_started", .obj [], (∅ : Metadata).insert "turn_id" "2"⟩,
    ⟨9, "turn_completed", .obj [], (∅ : Metadata).insert "turn_id" "2"⟩]

theorem turn_continuous_holed : ∃ gaps continuous,
    (LogdbdStore.detectSeqGaps "task_1" { streams := fun _ => holedLog }).1 = .ok gaps ∧
      (LogdbdStore.isTurnSeqContinuous "task_1" 2 { streams := fun _ => holedLog }).1 = .ok continuous ∧
      (∀ g : Int, g ∈ gaps ↔ ∃ before after, Hole {n | ∃ r ∈ holedLog, r.seq = n} before after ∧ g = before + 1) ∧
      (continuous = true ↔ TurnContinuous holedLog 2) :=
  turn_continuous_iff (fun _ => holedLog) "task_1" 2 (by decide)

end Fixus
