import Fixus.Policy.Ceiling

/-!
# Completeness of the intersection

A path that all three parties cover should be covered by the effective policy. The intersection of two lists meets each
scope of the left list with one scope of the right list only, the first that overlaps it.

- `covered_intersectSet₂_iff`: what two intersections in a row cover;
- `intersection_complete_iff`: nothing is lost exactly if no scope of the three lists is, where all of them cover it.
-/

namespace Fixus

open Lib

/-! ## What is kept -/

/-- Some scope of the first list, the first scope of the second list that overlaps it, and the first scope of the third
list that overlaps both contain the path. -/
def KeptPath (a b c : List PathScope) (p : String) : Prop :=
  ∃ s ∈ a, ∃ t k, b.find? (overlap s) = some t ∧ c.find? (fun k => overlap s k && overlap t k) = some k ∧
    pathWithin p s = true ∧ pathWithin p t = true ∧ pathWithin p k = true

/-- **Two intersections in a row cover what is kept.** -/
theorem covered_intersectSet₂_iff {a b c : List PathScope} {p : String} :
    Covered (intersectSet (intersectSet a b) c) p ↔ KeptPath a b c p := by
  have hkept : KeptPath a b c p ↔ ∃ s ∈ a, ∃ n, (narrow b s).bind (narrow c) = some n ∧ pathWithin p n = true := by
    constructor
    · rintro ⟨s, hs, t, k, ht, hk, hps, hpt, hpk⟩
      have hst : overlap s t = true := List.find?_some ht
      have hfind : c.find? (overlap (tighter s t)) = some k := by
        rw [funext (overlap_tighter hst)]
        exact hk
      refine ⟨s, hs, tighter (tighter s t) k, by simp [narrow, ht, hfind], ?_⟩
      exact (pathWithin_tighter (List.find?_some hfind) p).mpr ⟨(pathWithin_tighter hst p).mpr ⟨hps, hpt⟩, hpk⟩
    · rintro ⟨s, hs, n, hn, hp⟩
      obtain ⟨m, hm, hn⟩ := Option.bind_eq_some_iff.mp hn
      obtain ⟨t, ht, rfl⟩ := Option.map_eq_some_iff.mp hm
      obtain ⟨k, hk, rfl⟩ := Option.map_eq_some_iff.mp hn
      have hst : overlap s t = true := List.find?_some ht
      obtain ⟨hpm, hpk⟩ := (pathWithin_tighter (List.find?_some hk) p).mp hp
      obtain ⟨hps, hpt⟩ := (pathWithin_tighter hst p).mp hpm
      rw [funext (overlap_tighter hst)] at hk
      exact ⟨s, hs, t, k, ht, hk, hps, hpt, hpk⟩
  rw [hkept, intersectSet₂_eq]
  constructor
  · rintro ⟨n, hn, hp⟩
    obtain ⟨s, hs, hsn⟩ := List.mem_filterMap.mp (mem_of_mem_firstBy hn)
    exact ⟨s, hs, n, hsn, hp⟩
  · rintro ⟨s, hs, n, hsn, hp⟩
    -- the scope itself or an earlier one with the same path
    have hmem : n ∈ a.filterMap fun sa => (narrow b sa).bind (narrow c) := List.mem_filterMap.mpr ⟨s, hs, hsn⟩
    obtain ⟨e, he, hkey⟩ := exists_firstBy_key (fun e : PathScope => components e.path) hmem
    refine ⟨e, he, ?_⟩
    unfold pathWithin at *
    rw [within_congr_right hkey]
    exact hp

theorem KeptPath.mono {a b c : List PathScope} {p : String} {q : PathScope} (hp : pathWithin p q = true)
    (h : KeptPath a b c q.path) : KeptPath a b c p := by
  obtain ⟨s, hs, t, k, ht, hk, hqs, hqt, hqk⟩ := h
  exact ⟨s, hs, t, k, ht, hk, pathWithin_trans hp hqs, pathWithin_trans hp hqt, pathWithin_trans hp hqk⟩

/-! ## Completeness -/

/-- Every scope of the lists that lies in scopes of all three is kept. -/
def ScopesKept (a b c : List PathScope) : Prop :=
  ∀ q ∈ a ++ b ++ c, Covered a q.path → Covered b q.path → Covered c q.path → KeptPath a b c q.path

/-- A path in three scopes lies in one of them that lies in the two others. -/
theorem exists_narrowest {a b c : List PathScope} {p : String} (ha : Covered a p) (hb : Covered b p)
    (hc : Covered c p) : ∃ q ∈ a ++ b ++ c, pathWithin p q = true ∧ Covered a q.path ∧ Covered b q.path ∧
      Covered c q.path := by
  obtain ⟨sa, hsa, hpa⟩ := ha
  obtain ⟨sb, hsb, hpb⟩ := hb
  obtain ⟨sc, hsc, hpc⟩ := hc
  have hmem : tighter (tighter sa sb) sc = sa ∨ tighter (tighter sa sb) sc = sb ∨ tighter (tighter sa sb) sc = sc := by
    unfold tighter
    repeat' split
    all_goals simp
  have hab := overlap_of_common hpa hpb
  have hpab := (pathWithin_tighter hab p).mpr ⟨hpa, hpb⟩
  have habc := overlap_of_common hpab hpc
  obtain ⟨hqab, hqc⟩ := tighter_within habc
  obtain ⟨hqa, hqb⟩ := (pathWithin_tighter hab _).mp hqab
  refine ⟨tighter (tighter sa sb) sc, ?_, (pathWithin_tighter habc p).mpr ⟨hpab, hpc⟩, ⟨sa, hsa, hqa⟩, ⟨sb, hsb, hqb⟩,
    ⟨sc, hsc, hqc⟩⟩
  rcases hmem with h | h | h <;> rw [h] <;> simp [hsa, hsb, hsc]

/-- Nothing is lost in two intersections exactly if no scope is. -/
theorem intersectSet₂_complete_iff {a b c : List PathScope} :
    (∀ p, Covered a p → Covered b p → Covered c p → Covered (intersectSet (intersectSet a b) c) p) ↔
      ScopesKept a b c := by
  constructor
  · exact fun h q _ ha hb hc => covered_intersectSet₂_iff.mp (h q.path ha hb hc)
  · intro h p ha hb hc
    obtain ⟨q, hq, hp, hqa, hqb, hqc⟩ := exists_narrowest ha hb hc
    exact covered_intersectSet₂_iff.mpr ((h q hq hqa hqb hqc).mono hp)

/-- **The effective policy of an operator covers what all three parties cover exactly if each of their scopes that all
of them cover is kept.** -/
theorem intersection_complete_iff (operator tenant task : CapabilityPolicy) :
    ((∀ p, Covered operator.fs.readPaths p → Covered tenant.fs.readPaths p → Covered task.fs.readPaths p →
        Covered (resolveEffective operator tenant task .operator).fs.readPaths p) ∧
      ∀ p, Covered operator.fs.writePaths p → Covered tenant.fs.writePaths p → Covered task.fs.writePaths p →
        Covered (resolveEffective operator tenant task .operator).fs.writePaths p) ↔
    ScopesKept operator.fs.readPaths tenant.fs.readPaths task.fs.readPaths ∧
      ScopesKept operator.fs.writePaths tenant.fs.writePaths task.fs.writePaths :=
  and_congr intersectSet₂_complete_iff intersectSet₂_complete_iff

/-- A policy that lets read these paths. -/
def readsOnly (paths : List String) : CapabilityPolicy :=
  { fs := { readPaths := paths.map fun path => { path, trust := .host } } }

/-- The second of two tenant scopes in an operator scope is lost. -/
theorem second_scope_lost :
    let operator := readsOnly ["/home"]
    let tenant := readsOnly ["/home/a", "/home/b"]
    let task := readsOnly ["/home"]
    Covered operator.fs.readPaths "/home/b/x" ∧ Covered tenant.fs.readPaths "/home/b/x" ∧
      Covered task.fs.readPaths "/home/b/x" ∧
      ¬ Covered (resolveEffective operator tenant task .operator).fs.readPaths "/home/b/x" := by
  decide +kernel

end Fixus
