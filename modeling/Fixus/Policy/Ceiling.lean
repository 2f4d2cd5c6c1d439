import Fixus.Policy.Resolver

/-!
# The policy ceilings

- `resolveEffective_ceiling`: no combination of policies widens any of the three ceilings, and a reader has no network;
- `overlap_tighter`, `find?_deepest`: of scopes that overlap, which is the narrowest;
- `reader_write_workDir_iff`: the exact condition on the three scope lists under which a reader writes only where the
  operator said `WorkDir`. The resolver keeps the label of the narrower scope, so a tenant or a task can put the label
  on a path that the operator trusts less (`reader_writes_operator_host_path`).
-/

namespace Fixus

open Lib

/-- The path lies in some scope of the list. -/
def Covered (scopes : List PathScope) (p : String) : Prop := ∃ s ∈ scopes, pathWithin p s = true

instance (scopes : List PathScope) (p : String) : Decidable (Covered scopes p) :=
  inferInstanceAs (Decidable (∃ s ∈ scopes, pathWithin p s = true))

/-! ## No ceiling is widened -/

/-- A path covered by an intersection is covered by both sides. -/
theorem covered_intersectSet {a b : List PathScope} {p : String} (h : Covered (intersectSet a b) p) :
    Covered a p ∧ Covered b p := by
  obtain ⟨s, hs, hp⟩ := h
  obtain ⟨⟨sa, ha, hsa⟩, ⟨sb, hb, hsb⟩⟩ := mem_intersectSet hs
  exact ⟨⟨sa, ha, pathWithin_trans hp hsa⟩, ⟨sb, hb, pathWithin_trans hp hsb⟩⟩

/-- A path covered by two intersections in a row is covered by the three lists. -/
theorem covered_intersectSet₂ {a b c : List PathScope} {p : String}
    (h : Covered (intersectSet (intersectSet a b) c) p) : Covered a p ∧ Covered b p ∧ Covered c p := by
  obtain ⟨hab, hc⟩ := covered_intersectSet h
  obtain ⟨ha, hb⟩ := covered_intersectSet hab
  exact ⟨ha, hb, hc⟩

/-- Fewer scopes cover fewer paths. -/
theorem Covered.mono {a b : List PathScope} {p : String} (hab : ∀ s ∈ a, s ∈ b) (h : Covered a p) : Covered b p := by
  obtain ⟨s, hs, hp⟩ := h
  exact ⟨s, hab s hs, hp⟩

/-- Role narrowing does not touch the read scopes, keeps a part of the write scopes and of the rules. -/
theorem roleNarrow_sub (eff : EffectivePolicy) (role : AgentRole) :
    (roleNarrow eff role).fs.readPaths = eff.fs.readPaths ∧
    (∀ s ∈ (roleNarrow eff role).fs.writePaths, s ∈ eff.fs.writePaths) ∧
    ∀ r ∈ (roleNarrow eff role).net.egress, r ∈ eff.net.egress := by
  cases role with
  | operator => exact ⟨rfl, fun _ h => h, fun _ h => h⟩
  | reader =>
    refine ⟨rfl, fun s hs => (List.mem_filter.mp hs).1, fun r hr => ?_⟩
    simp [roleNarrow] at hr

/-- **The effective policy widens no ceiling.** -/
theorem resolveEffective_ceiling (operator tenant task : CapabilityPolicy) (role : AgentRole) :
    (∀ p, Covered (resolveEffective operator tenant task role).fs.readPaths p →
      Covered operator.fs.readPaths p ∧ Covered tenant.fs.readPaths p ∧ Covered task.fs.readPaths p) ∧
    (∀ p, Covered (resolveEffective operator tenant task role).fs.writePaths p →
      Covered operator.fs.writePaths p ∧ Covered tenant.fs.writePaths p ∧ Covered task.fs.writePaths p) ∧
    (∀ r ∈ (resolveEffective operator tenant task role).net.egress,
      r ∈ operator.net.egress ∧ r ∈ tenant.net.egress ∧ r ∈ task.net.egress) ∧
    (resolveEffective operator tenant task .reader).net.egress = [] := by
  obtain ⟨hr, hw, hn⟩ := roleNarrow_sub
    { fs := intersectFs (intersectFs operator.fs tenant.fs) task.fs
      net := intersectNet (intersectNet operator.net tenant.net) task.net
      agentRole := role } role
  refine ⟨fun p hp => ?_, fun p hp => covered_intersectSet₂ (hp.mono hw), fun r hr => ?_, rfl⟩
  · unfold resolveEffective at hp
    rw [hr] at hp
    exact covered_intersectSet₂ hp
  · obtain ⟨hot, hk⟩ := mem_intersectNet.mp (hn r hr)
    obtain ⟨ho, ht⟩ := mem_intersectNet.mp hot
    exact ⟨ho, ht, hk⟩

/-! ## Scopes on one path -/

/-- Two scopes with a path in common overlap: of two that contain it, one contains the other. -/
theorem overlap_of_common {s t : PathScope} {p : String} (hs : pathWithin p s = true) (ht : pathWithin p t = true) :
    overlap s t = true := by
  unfold overlap pathWithin at *
  rw [Bool.or_eq_true, within_iff, within_iff]
  exact (List.prefix_or_prefix_of_prefix (within_iff.mp hs) (within_iff.mp ht)).symm

/-- The narrower of two overlapping scopes contains what both contain. -/
theorem pathWithin_tighter {s t : PathScope} (h : overlap s t = true) (p : String) :
    pathWithin p (tighter s t) = true ↔ pathWithin p s = true ∧ pathWithin p t = true := by
  constructor
  · intro hp
    obtain ⟨hs, ht⟩ := tighter_within h
    exact ⟨pathWithin_trans hp hs, pathWithin_trans hp ht⟩
  · rintro ⟨hs, ht⟩
    unfold tighter
    by_cases hst : pathWithin s.path t = true
    · rw [if_pos hst]
      exact hs
    · rw [if_neg hst]
      exact ht

/-- It overlaps what both overlap. -/
theorem overlap_tighter {s t : PathScope} (h : overlap s t = true) (k : PathScope) :
    overlap (tighter s t) k = (overlap s k && overlap t k) := by
  have hnarrow : ∀ {x y : PathScope}, pathWithin x.path y = true → overlap x k = true → overlap y k = true := by
    intro x y hxy hx
    rcases (Bool.or_eq_true _ _).mp hx with hx | hx
    · exact overlap_of_common hxy hx
    · exact (Bool.or_eq_true _ _).mpr (Or.inr (pathWithin_trans hx hxy))
  unfold tighter
  split
  · rename_i hst
    rw [Bool.eq_iff_iff, Bool.and_eq_true]
    exact ⟨fun hk => ⟨hk, hnarrow hst hk⟩, And.left⟩
  · rename_i hst
    have hts : pathWithin t.path s = true := by simpa [overlap, hst] using h
    rw [Bool.eq_iff_iff, Bool.and_eq_true]
    exact ⟨fun hk => ⟨hnarrow hts hk, hk⟩, And.right⟩

/-! ## Who decides the trust label -/

/-- An operator scope ends at a scope: of it, the first tenant scope that overlaps it, and the first task scope that
overlaps both, the first that lies in all three. -/
def EndsAt (tenant task : List PathScope) (o q : PathScope) : Prop :=
  ∃ t k, tenant.find? (overlap o) = some t ∧ task.find? (fun k => overlap o k && overlap t k) = some k ∧
    [o, t, k].find? (fun s => [o, t, k].all fun x => pathWithin s.path x) = some q

/-- Of three scopes that overlap, the first that lies in all three is the narrower of the narrower two and the third. -/
theorem find?_deepest {o t k : PathScope} (hot : overlap o t = true) (hk : overlap (tighter o t) k = true) :
    [o, t, k].find? (fun s => [o, t, k].all fun x => pathWithin s.path x) = some (tighter (tighter o t) k) := by
  by_cases h : pathWithin o.path t = true
  · have hm : tighter o t = o := if_pos h
    rw [hm] at hk ⊢
    by_cases hok : pathWithin o.path k = true
    · simp [tighter, h, hok]
    · have hko : pathWithin k.path o = true := by simpa [overlap, hok] using hk
      have htk : pathWithin t.path k = false := by simpa using fun htk => hok (pathWithin_trans h htk)
      simp [tighter, hok, htk, hko, pathWithin_trans hko h]
  · have hm : tighter o t = t := if_neg h
    have hto : pathWithin t.path o = true := by simpa [overlap, h] using hot
    rw [hm] at hk ⊢
    by_cases htk : pathWithin t.path k = true
    · simp [tighter, h, htk, hto]
    · have hkt : pathWithin k.path t = true := by simpa [overlap, htk] using hk
      simp [tighter, h, htk, hkt, pathWithin_trans hkt hto]

/-- Where a scope ends is what the resolver narrows it to. -/
theorem endsAt_iff {b c : List PathScope} {o q : PathScope} :
    EndsAt b c o q ↔ (narrow b o).bind (narrow c) = some q := by
  constructor
  · rintro ⟨t, k, ht, hk, hq⟩
    have hot : overlap o t = true := List.find?_some ht
    have hfind : c.find? (overlap (tighter o t)) = some k := by
      rw [funext (overlap_tighter hot)]
      exact hk
    rw [find?_deepest hot (List.find?_some hfind)] at hq
    simp [narrow, ht, hfind, Option.some.inj hq]
  · intro h
    obtain ⟨m, hm, hq⟩ := Option.bind_eq_some_iff.mp h
    obtain ⟨t, ht, rfl⟩ := Option.map_eq_some_iff.mp hm
    obtain ⟨k, hk, rfl⟩ := Option.map_eq_some_iff.mp hq
    have hot : overlap o t = true := List.find?_some ht
    have hdeepest := find?_deepest hot (List.find?_some hk)
    rw [funext (overlap_tighter hot)] at hk
    exact ⟨t, k, ht, hk, hdeepest⟩

/-- A scope ends at itself or at a scope of one of the two lists. -/
theorem EndsAt.mem {b c : List PathScope} {o q : PathScope} (h : EndsAt b c o q) : q = o ∨ q ∈ b ++ c := by
  obtain ⟨t, k, ht, hk, hq⟩ := h
  have hmem := List.mem_of_find?_eq_some hq
  simp only [List.mem_cons, List.not_mem_nil, or_false] at hmem
  rcases hmem with rfl | rfl | rfl
  · exact Or.inl rfl
  · exact Or.inr (List.mem_append_left _ (List.mem_of_find?_eq_some ht))
  · exact Or.inr (List.mem_append_right _ (List.mem_of_find?_eq_some hk))

/-- The narrowing of a scope depends on the components of its path, apart from the label it keeps. -/
theorem narrow_respects (b : List PathScope) :
    RespectsKey (fun e : PathScope => components e.path) (fun e => components e.path) (narrow b) := by
  intro x y h
  have hpx : ∀ s : PathScope, pathWithin x.path s = pathWithin y.path s := fun s => within_congr_left h s.path
  have hxp : ∀ s : PathScope, pathWithin s.path x = pathWithin s.path y := fun s => within_congr_right h s.path
  have hov : overlap x = overlap y := funext fun s => by unfold overlap; rw [hpx, hxp]
  unfold narrow
  rw [hov]
  generalize b.find? (overlap y) = found
  cases found with
  | none => simp only [Option.map_none]
  | some sb =>
    simp only [Option.map_some, Option.some.injEq]
    unfold tighter
    rw [hpx]
    split
    · exact h
    · rfl

/-- Two intersections in a row keep the first narrowing, through both lists, of each path. -/
theorem intersectSet₂_eq (a b c : List PathScope) : intersectSet (intersectSet a b) c =
    firstBy (fun e => components e.path) (a.filterMap fun sa => (narrow b sa).bind (narrow c)) := by
  rw [intersectSet_eq, intersectSet_eq a b, firstBy_filterMap_firstBy (narrow_respects c), List.filterMap_filterMap]

/-- A scope survives both intersections exactly when some scope of the first list ends there and no earlier one ends at
the same path. -/
theorem mem_intersectSet₂ {a b c : List PathScope} {n : PathScope} : n ∈ intersectSet (intersectSet a b) c ↔
    ∃ before o after, a = before ++ o :: after ∧ EndsAt b c o n ∧
      ∀ o' ∈ before, ∀ n', EndsAt b c o' n' → samePath n'.path n.path = false := by
  simp only [endsAt_iff]
  rw [intersectSet₂_eq, mem_firstBy_iff]
  constructor
  · rintro ⟨before, after, heq, hno⟩
    obtain ⟨l₁, l₂, rfl, h₁, h₂⟩ := List.filterMap_eq_append_iff.mp heq
    obtain ⟨l₃, o, l₄, rfl, hnone, ho, -⟩ := List.filterMap_eq_cons_iff.mp h₂
    refine ⟨l₁ ++ l₃, o, l₄, by simp, ho, fun o' ho' n' hn' => ?_⟩
    rcases List.mem_append.mp ho' with ho' | ho'
    · have hmem : n' ∈ before := h₁ ▸ List.mem_filterMap.mpr ⟨o', ho', hn'⟩
      simpa [samePath] using hno n' hmem
    · rw [hnone o' ho'] at hn'; cases hn'
  · rintro ⟨before, o, after, rfl, hn, hno⟩
    refine ⟨before.filterMap fun sa => (narrow b sa).bind (narrow c),
      after.filterMap fun sa => (narrow b sa).bind (narrow c), ?_, ?_⟩
    · rw [List.filterMap_append, List.filterMap_cons, hn]
    · intro e he
      obtain ⟨o', ho', he'⟩ := List.mem_filterMap.mp he
      simpa [samePath] using hno o' ho' e he'

/-- The scope lies in a scope that the operator labels `WorkDir`. -/
def InWorkDir (operator : List PathScope) (q : PathScope) : Prop :=
  ∃ w ∈ operator, w.trust = .workDir ∧ pathWithin q.path w = true

/-- The condition on the scope lists: where the tenant or the task has put the label `WorkDir` on a scope that lies in
no such scope of the operator, no operator scope ends, unless an earlier one ends at the same path. -/
def NoLabelRaised (operator tenant task : List PathScope) : Prop :=
  ∀ q ∈ tenant ++ task, q.trust = .workDir → ¬ InWorkDir operator q →
    ∀ before o after, operator = before ++ o :: after → EndsAt tenant task o q →
      ∃ o' ∈ before, ∃ q', EndsAt tenant task o' q' ∧ samePath q'.path q.path = true

/-- Every write path of the effective policy is one that the operator labels `WorkDir`. -/
def WritesOnlyWorkDir (operator : CapabilityPolicy) (eff : EffectivePolicy) : Prop :=
  ∀ s ∈ eff.fs.writePaths, ∀ p, pathWithin p s = true →
    ∃ w ∈ operator.fs.writePaths, w.trust = .workDir ∧ pathWithin p w = true

/-- **When a reader writes only where the operator says `WorkDir`.** -/
theorem reader_write_workDir_iff {operator tenant task : CapabilityPolicy} {eff : EffectivePolicy}
    (h : resolveAndValidate operator tenant task .reader = .ok eff) : WritesOnlyWorkDir operator eff ↔
      NoLabelRaised operator.fs.writePaths tenant.fs.writePaths task.fs.writePaths := by
  obtain ⟨-, rfl⟩ := resolveAndValidate_ok.mp h
  have hmem : ∀ s, s ∈ (resolveEffective operator tenant task .reader).fs.writePaths ↔
      s ∈ intersectSet (intersectSet operator.fs.writePaths tenant.fs.writePaths) task.fs.writePaths ∧
        s.trust = .workDir := by
    intro s
    simp [resolveEffective, roleNarrow, intersectFs]
  constructor
  · intro hw q _ htrust hnot before o after hop hq
    by_contra hno
    push Not at hno
    have hfirst : ∀ o' ∈ before, ∀ n', EndsAt tenant.fs.writePaths task.fs.writePaths o' n' →
        samePath n'.path q.path = false := fun o' ho' n' hn' => by simpa using hno o' ho' n' hn'
    have hs := (hmem q).mpr ⟨mem_intersectSet₂.mpr ⟨before, o, after, hop, hq, hfirst⟩, htrust⟩
    exact hnot (hw q hs q.path (pathWithin_self q))
  · intro hc s hs p hp
    obtain ⟨hs', htrust⟩ := (hmem s).mp hs
    obtain ⟨before, o, after, hop, hend, hfirst⟩ := mem_intersectSet₂.mp hs'
    have hin : InWorkDir operator.fs.writePaths s := by
      by_contra hnot
      rcases hend.mem with rfl | hlists
      · -- a scope of the operator with the label lies in itself
        exact hnot ⟨s, hop ▸ by simp, htrust, pathWithin_self s⟩
      · obtain ⟨o', ho', q', hq', hsame⟩ := hc s hlists htrust hnot before o after hop hend
        rw [hfirst o' ho' q' hq'] at hsame
        cases hsame
    obtain ⟨w, hw, hwt, hsw⟩ := hin
    exact ⟨w, hw, hwt, pathWithin_trans hp hsw⟩

/-- A policy with one write scope. -/
def oneWriteScope (path : String) (trust : TrustLevel) : CapabilityPolicy :=
  { fs := { writePaths := [{ path, trust }] } }

/-- The effective policy of a reader with one write scope in the work directory. -/
def readerWith (path : String) : EffectivePolicy :=
  { fs := { writePaths := [{ path, trust := .workDir }] }, net := {}, agentRole := .reader }

/-- A tenant that stays within the operator's policy relabels a part of a `Host` path, and the readers among its tasks
may write there. -/
theorem reader_writes_operator_host_path :
    validateSubset (oneWriteScope "/data/x" .workDir) (oneWriteScope "/data" .host) = .ok () ∧
    resolveAndValidate (oneWriteScope "/data" .host) (oneWriteScope "/data/x" .workDir)
      (oneWriteScope "/data/x" .workDir) .reader = .ok (readerWith "/data/x") ∧
    ¬ WritesOnlyWorkDir (oneWriteScope "/data" .host) (readerWith "/data/x") := by
  refine ⟨by decide +kernel, by decide +kernel, fun h => ?_⟩
  have hself := pathWithin_self ⟨"/data/x", .workDir⟩
  obtain ⟨w, hw, htrust, -⟩ := h ⟨"/data/x", .workDir⟩ List.mem_cons_self "/data/x" hself
  cases List.mem_singleton.mp hw
  cases htrust

/-- The condition at a `WorkDir` scope of the operator. -/
theorem reader_write_workDir_iff_home :
    resolveAndValidate (oneWriteScope "/home/x" .workDir) (oneWriteScope "/home/x/p" .workDir)
      (oneWriteScope "/home/x/p/./q" .workDir) .reader = .ok (readerWith "/home/x/p/./q") ∧
    (WritesOnlyWorkDir (oneWriteScope "/home/x" .workDir) (readerWith "/home/x/p/./q") ↔
      NoLabelRaised [⟨"/home/x", .workDir⟩] [⟨"/home/x/p", .workDir⟩] [⟨"/home/x/p/./q", .workDir⟩]) := by
  have h : resolveAndValidate (oneWriteScope "/home/x" .workDir) (oneWriteScope "/home/x/p" .workDir)
      (oneWriteScope "/home/x/p/./q" .workDir) .reader = .ok (readerWith "/home/x/p/./q") := by decide +kernel
  exact ⟨h, reader_write_workDir_iff h⟩

end Fixus
