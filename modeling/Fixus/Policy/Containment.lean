import Fixus.Lib.Prefix
import Fixus.Policy.Resolver
import Mathlib.Algebra.Order.BigOperators.Group.List
import Mathlib.Algebra.Order.Group.Nat

/-!
# Containment and resolution against a base directory

What a path means depends on the base directory that it is resolved against. `path_within` compares paths without one:
`..` drops whatever is on the stack, the root as well, and nothing from an empty stack.

- `lexicalResolve`: the directory that a path denotes, step by step, with `..` staying at the root;
- `residue`: how often a path goes above its start, and the names that are left;
- `pathWithin_correct_iff`: containment agrees with resolution against every base exactly if the two paths start from
  the same place, or their names rule out that it makes a difference.
-/

namespace Fixus

open Lib

/-! ## Resolution -/

/-- One component, from a directory. -/
def resolveStep (names : List String) : Component → List String
  | .rootDir => []
  | .curDir => names
  | .parentDir => names.dropLast
  | .normal n => names ++ [n]

/-- The directory of a path that starts from a directory. -/
def resolveFrom (base : List String) (path : String) : List String := (components path).foldl resolveStep base

/-- `path` starts at the root. -/
def isAbsolute (path : String) : Bool := (components path).head? = some .rootDir

/-- The directory of a path against an absolute base. -/
def lexicalResolve (base path : String) : List String := resolveFrom (resolveFrom [] base) path

/-! ## Climbs and names -/

/-- One component, from a number of climbs above the start and the names below it. -/
def residueStep : Nat × List String → Component → Nat × List String
  | _, .rootDir => (0, [])
  | r, .curDir => r
  | (climbs, names), .parentDir => if names = [] then (climbs + 1, []) else (climbs, names.dropLast)
  | (climbs, names), .normal n => (climbs, names ++ [n])

def residue (path : String) : Nat × List String := (components path).foldl residueStep (0, [])

/-- How often the path goes above its start. -/
def climbs (path : String) : Nat := (residue path).1

/-- The names that are left of the path. -/
def namesOf (path : String) : List String := (residue path).2

/-- The stack of a path with the residue; a root stays as long as the path does not go above it. -/
def stackOf (rooted : Bool) (r : Nat × List String) : List Component :=
  (if rooted && r.1 == 0 then [.rootDir] else []) ++ r.2.map .normal

theorem normalizeStep_stackOf (rooted : Bool) (r : Nat × List String) {c : Component} (hc : c ≠ .rootDir) :
    normalizeStep (stackOf rooted r) c = stackOf rooted (residueStep r c) := by
  obtain ⟨u, names⟩ := r
  cases c with
  | rootDir => exact absurd rfl hc
  | curDir => rfl
  | normal n => simp [normalizeStep, stackOf, residueStep]
  | parentDir =>
    cases names using List.reverseRecOn with
    | nil => by_cases h : (rooted && u == 0) = true <;> simp [normalizeStep, stackOf, residueStep, h]
    | append_singleton names n _ =>
      simp only [normalizeStep, stackOf, residueStep, List.map_append, List.map_singleton, ← List.append_assoc,
        List.dropLast_concat, List.append_eq_nil_iff, List.cons_ne_nil, and_false, if_false]

theorem resolveStep_residue (base : List String) (r : Nat × List String) {c : Component} (hc : c ≠ .rootDir) :
    resolveStep (base.take (base.length - r.1) ++ r.2) c =
      base.take (base.length - (residueStep r c).1) ++ (residueStep r c).2 := by
  obtain ⟨u, names⟩ := r
  cases c with
  | rootDir => exact absurd rfl hc
  | curDir => rfl
  | normal n => simp [resolveStep, residueStep]
  | parentDir =>
    cases names using List.reverseRecOn with
    | nil =>
      simp only [resolveStep, residueStep, List.append_nil, if_true, List.dropLast_eq_take, List.take_take,
        List.length_take]
      congr 1
      omega
    | append_singleton names n _ =>
      simp only [resolveStep, residueStep, ← List.append_assoc, List.dropLast_concat, List.append_eq_nil_iff,
        List.cons_ne_nil, and_false, if_false]

/-- Only the first component can be the root. -/
theorem components_cases (path : String) : ∃ cs : List Component, (∀ c ∈ cs, c ≠ .rootDir) ∧
    components path = (if isAbsolute path then [.rootDir] else []) ++ cs := by
  have hsegment : ∀ {s : String} {c : Component}, segment s = some c → c ≠ .rootDir := by
    intro s c h
    unfold segment at h
    split at h
    · cases h
    · split at h <;> cases h <;> exact Component.noConfusion
  have hrest : ∀ rest : List String, ∀ c ∈ rest.filterMap segment, c ≠ .rootDir := by
    intro rest c hc
    obtain ⟨s, -, hs⟩ := List.mem_filterMap.mp hc
    exact hsegment hs
  unfold isAbsolute components
  cases segments path.toList with
  | nil => exact ⟨[], nofun, by simp [componentsOf]⟩
  | cons first rest =>
    by_cases hroot : first = "" ∧ rest ≠ []
    · exact ⟨rest.filterMap segment, hrest rest, by simp [componentsOf, leading, hroot]⟩
    · -- no component of a relative path is the root
      have hno : ∀ c ∈ componentsOf (first :: rest), c ≠ .rootDir := by
        intro c hc
        rcases List.mem_append.mp hc with hc | hc
        · unfold leading at hc
          split at hc
          · rename_i hf
            have hr : rest = [] := by_contra fun hr => hroot ⟨hf, hr⟩
            rw [if_pos hr] at hc
            cases hc
          · split at hc
            · rw [List.mem_singleton.mp hc]
              exact Component.noConfusion
            · exact hsegment (Option.mem_toList.mp hc)
        · exact hrest rest c hc
      have hhead : (componentsOf (first :: rest)).head? ≠ some .rootDir := fun h =>
        hno _ (List.mem_of_head? h) rfl
      exact ⟨_, hno, by simp [hhead]⟩

/-- **The stack of `normalize_path` is the root, unless the path went above it, and the names that are left.** -/
theorem normalizeParts_eq (path : String) :
    normalizeParts path = stackOf (isAbsolute path) (climbs path, namesOf path) := by
  obtain ⟨cs, hcs, hc⟩ := components_cases path
  have hfold : ∀ (cs : List Component) (r : Nat × List String), (∀ c ∈ cs, c ≠ .rootDir) →
      cs.foldl normalizeStep (stackOf (isAbsolute path) r) = stackOf (isAbsolute path) (cs.foldl residueStep r) := by
    intro cs
    induction cs with
    | nil => exact fun _ _ => rfl
    | cons c cs ih =>
      intro r h
      rw [List.foldl_cons, List.foldl_cons, normalizeStep_stackOf _ _ (h c List.mem_cons_self)]
      exact ih _ fun d hd => h d (List.mem_cons_of_mem _ hd)
  have hstart := hfold cs (0, []) hcs
  unfold normalizeParts climbs namesOf residue
  rw [hc, List.foldl_append, List.foldl_append]
  revert hstart
  cases isAbsolute path <;> exact id

/-- **A path denotes the names that are left, below its start without the climbs.** -/
theorem resolveFrom_eq (base : List String) (path : String) :
    resolveFrom base path =
      (if isAbsolute path then [] else base.take (base.length - climbs path)) ++ namesOf path := by
  obtain ⟨cs, hcs, hc⟩ := components_cases path
  have hfold : ∀ (base : List String) (cs : List Component) (r : Nat × List String), (∀ c ∈ cs, c ≠ .rootDir) →
      cs.foldl resolveStep (base.take (base.length - r.1) ++ r.2) =
        base.take (base.length - (cs.foldl residueStep r).1) ++ (cs.foldl residueStep r).2 := by
    intro base cs
    induction cs with
    | nil => exact fun _ _ => rfl
    | cons c cs ih =>
      intro r h
      rw [List.foldl_cons, List.foldl_cons, resolveStep_residue _ _ (h c List.mem_cons_self)]
      exact ih _ fun d hd => h d (List.mem_cons_of_mem _ hd)
  unfold resolveFrom climbs namesOf residue
  rw [hc, List.foldl_append, List.foldl_append]
  cases isAbsolute path with
  | true => simpa [resolveStep, residueStep] using hfold [] cs (0, []) hcs
  | false => simpa using hfold base cs (0, []) hcs

/-- The names that are left are names. -/
theorem isName_namesOf {path n : String} (h : n ∈ namesOf path) : IsName n := by
  obtain ⟨names, hnames, hparts⟩ := cleanParts_normalizeParts path
  rw [normalizeParts_eq] at hparts
  have hmem : Component.normal n ∈ stackOf (isAbsolute path) (climbs path, namesOf path) :=
    List.mem_append_right _ (List.mem_map_of_mem h)
  have hin : n ∈ names := by
    rcases hparts with hparts | hparts <;> rw [hparts] at hmem <;> simpa using hmem
  exact hnames n hin

/-! ## Bases -/

/-- Every list of names is the directory of some absolute base. -/
theorem exists_base {names : List String} (h : ∀ n ∈ names, IsName n) :
    ∃ base, isAbsolute base = true ∧ resolveFrom [] base = names := by
  have hparts : CleanParts (.rootDir :: names.map .normal) := ⟨names, h, Or.inr rfl⟩
  refine ⟨collectComponents (.rootDir :: names.map .normal), ?_, ?_⟩
  · unfold isAbsolute
    rw [components_collectComponents hparts]
    rfl
  · unfold resolveFrom
    rw [components_collectComponents hparts, List.foldl_cons]
    have hfold : ∀ (names acc : List String), (names.map Component.normal).foldl resolveStep acc = acc ++ names := by
      intro names
      induction names with
      | nil => simp
      | cons n names ih => simp [resolveStep, ih]
    exact hfold names []

/-- The directory of a base consists of names. -/
theorem isName_base {base n : String} (h : n ∈ resolveFrom [] base) : IsName n := by
  rw [resolveFrom_eq] at h
  exact isName_namesOf (by simpa using h)

/-- There are names besides those of any list. -/
theorem hasFresh_isName : HasFresh IsName := by
  intro l
  let long := List.replicate ((l.map fun s => s.toList.length).sum + 3) 'x'
  have hlen : long.length = (l.map fun s => s.toList.length).sum + 3 := List.length_replicate
  -- it is longer than the dot entries and than all names of the list
  have hshort : ∀ s : String, s.toList.length < 3 → String.ofList long ≠ s := by
    rintro s hs rfl
    rw [String.toList_ofList] at hs
    omega
  refine ⟨String.ofList long, ⟨hshort _ (by decide), hshort _ (by decide), hshort _ (by decide), ?_⟩, fun hmem => ?_⟩
  · rw [String.toList_ofList]
    intro h
    exact absurd (List.eq_of_mem_replicate h) (by decide)
  · have hle := List.single_le_sum (l := l.map fun s => s.toList.length) (fun _ _ => Nat.zero_le _) _
      (List.mem_map_of_mem hmem)
    rw [String.toList_ofList] at hle
    omega

/-! ## When containment is correct -/

/-- Containment agrees with resolution whatever the base is. -/
def ContainmentExact (p s : String) : Prop :=
  match isAbsolute p, isAbsolute s with
  -- both start at the root, and neither loses it or both do
  | true, true => (climbs p = 0 ↔ climbs s = 0) ∨ ¬ namesOf s <+: namesOf p ∨ (climbs s ≠ 0 ∧ namesOf s = [])
  -- both start at the base and go above it equally often, or no base brings their names together
  | false, false =>
    if climbs p ≤ climbs s then
      climbs s - climbs p = 0 ∨ namesOf s = [] ∨ ∀ e ≤ climbs s - climbs p, ¬ (namesOf s).drop e <+: namesOf p
    else
      climbs p - climbs s = 0 ∨
        ∀ e ≤ climbs p - climbs s, ¬ (e ≤ (namesOf p).length ∧ namesOf s <+: (namesOf p).drop e)
  | false, true => climbs s ≠ 0 ∧ namesOf s = []
  | true, false => ¬ namesOf s <:+: namesOf p

/-- What containment compares. -/
theorem within_iff_stack {p s : String} : within p s = true ↔
    stackOf (isAbsolute s) (climbs s, namesOf s) <+: stackOf (isAbsolute p) (climbs p, namesOf p) := by
  rw [within_iff, components_normalizePath, components_normalizePath, normalizeParts_eq, normalizeParts_eq]

theorem map_normal_prefix {X Y : List String} : Y.map Component.normal <+: X.map Component.normal ↔ Y <+: X :=
  List.prefix_map_iff_of_injective fun _ _ h => Component.normal.inj h

/-- Below a scope with the root are paths with the root. -/
theorem within_rooted {p s : String} (hs : (isAbsolute s && climbs s == 0) = true) :
    within p s = true ↔ (isAbsolute p && climbs p == 0) = true ∧ namesOf s <+: namesOf p := by
  rw [within_iff_stack]
  unfold stackOf
  rw [if_pos hs]
  by_cases hp : (isAbsolute p && climbs p == 0) = true
  · rw [if_pos hp, List.singleton_append, List.singleton_append, List.cons_prefix_cons, map_normal_prefix]
    exact and_congr_left fun _ => iff_of_true rfl hp
  · rw [if_neg hp, List.nil_append, List.singleton_append]
    refine iff_of_false (fun h => ?_) fun h => hp h.1
    have hmem : Component.rootDir ∈ (namesOf p).map Component.normal := h.subset List.mem_cons_self
    obtain ⟨n, -, hn⟩ := List.mem_map.mp hmem
    cases hn

/-- Below a scope without the root are all paths, if it has no names, and else paths without the root. -/
theorem within_unrooted {p s : String} (hs : (isAbsolute s && climbs s == 0) = false) :
    within p s = true ↔ namesOf s = [] ∨ ((isAbsolute p && climbs p == 0) = false ∧ namesOf s <+: namesOf p) := by
  rw [within_iff_stack]
  unfold stackOf
  rw [hs, if_neg Bool.false_ne_true, List.nil_append]
  by_cases hp : (isAbsolute p && climbs p == 0) = true
  · rw [if_pos hp, hp]
    cases hn : namesOf s with
    | nil => simp
    | cons n names => simp
  · rw [if_neg hp, List.nil_append, map_normal_prefix, Bool.eq_false_iff.mpr hp]
    refine ⟨fun h => Or.inr ⟨rfl, h⟩, ?_⟩
    rintro (h | h)
    · rw [h]
      exact List.nil_prefix
    · exact h.2

/-- What holds for all bases holds for all lists of names. -/
theorem forall_base_iff {Q : List String → Prop} :
    (∀ base, isAbsolute base = true → Q (resolveFrom [] base)) ↔ ∀ B : List String, (∀ n ∈ B, IsName n) → Q B := by
  constructor
  · intro h B hB
    obtain ⟨base, habs, rfl⟩ := exists_base hB
    exact h base habs
  · exact fun h base _ => h _ fun _ => isName_base

/-- A path that starts at the base denotes any directory with its names, for some base. -/
theorem forall_start_iff {Q : List String → Prop} (u : Nat) :
    (∀ B : List String, (∀ n ∈ B, IsName n) → Q (B.take (B.length - u))) ↔
      ∀ C : List String, (∀ n ∈ C, IsName n) → Q C := by
  constructor
  · intro h C hC
    obtain ⟨B, hB, -, hstart⟩ := exists_start hasFresh_isName hC u
    exact hstart ▸ h B hB
  · exact fun h B hB => h _ fun n hn => hB n (List.mem_of_mem_take hn)

/-- The same for what lies between the directories of two such paths. -/
theorem forall_between_iff {Q : List String → Prop} (i j : Nat) :
    (∀ B : List String, (∀ n ∈ B, IsName n) → Q ((B.take (B.length - i)).drop (B.length - j))) ↔
      ∀ Z : List String, (∀ n ∈ Z, IsName n) → Z.length ≤ j - i → Q Z := by
  constructor
  · intro h Z hZ hlen
    obtain ⟨B, hB, hbetween⟩ := exists_between hasFresh_isName hZ hlen
    exact hbetween ▸ h B hB
  · exact fun h B hB => h _ (fun n hn => hB n (List.mem_of_mem_take (List.mem_of_mem_drop hn)))
      (length_between B i j)

/-- **Containment agrees with resolution against every base exactly if both paths start at the same place**, or their
names rule out that it makes a difference. -/
theorem pathWithin_correct_iff (p : String) (scope : PathScope) :
    (∀ base, isAbsolute base = true →
      (pathWithin p scope = true ↔ lexicalResolve base scope.path <+: lexicalResolve base p)) ↔
      ContainmentExact p scope.path := by
  obtain ⟨s, trust⟩ := scope
  have hnames : ∀ q : String, ∀ n ∈ namesOf q, IsName n := fun q n => isName_namesOf
  unfold pathWithin lexicalResolve
  rw [forall_base_iff (Q := fun B => within p s = true ↔ resolveFrom B s <+: resolveFrom B p)]
  simp only [resolveFrom_eq]
  unfold ContainmentExact
  cases hs : isAbsolute s with
  | true =>
    cases hp : isAbsolute p with
    | true =>
      simp only [if_true, List.nil_append]
      have hone : ∀ A : Prop, (∀ B : List String, (∀ n ∈ B, IsName n) → A) ↔ A := fun A =>
        ⟨fun h => h [] nofun, fun h _ _ => h⟩
      rw [hone]
      by_cases hcs : climbs s = 0
      · rw [within_rooted (by simp [hs, hcs])]
        by_cases hcp : climbs p = 0 <;> simp [hp, hcp, hcs]
      · rw [within_unrooted (by simp [hcs])]
        by_cases hcp : climbs p = 0
        · by_cases hn : namesOf s = [] <;> simp [hp, hcp, hcs, hn]
        · by_cases hn : namesOf s = [] <;> simp [hcp, hcs, hn]
    | false =>
      simp only [if_true, List.nil_append, Bool.false_eq_true, if_false]
      rw [forall_start_iff (Q := fun C => within p s = true ↔ namesOf s <+: C ++ namesOf p),
        prefix_append_any_iff hasFresh_isName (hnames s)]
      refine and_congr_left fun hn => ?_
      by_cases hcs : climbs s = 0
      · rw [within_rooted (by simp [hs, hcs])]
        simp [hp, hcs]
      · rw [within_unrooted (by simp [hcs])]
        simp [hn, hcs]
  | false =>
    have hcode := within_unrooted (p := p) (s := s) (by rw [hs]; rfl)
    cases hp : isAbsolute p with
    | true =>
      simp only [if_true, List.nil_append, Bool.false_eq_true, if_false]
      rw [forall_start_iff (Q := fun C => within p s = true ↔ C ++ namesOf s <+: namesOf p),
        append_prefix_any_iff hasFresh_isName (hnames p)]
      refine and_iff_right_of_imp fun hno h => hno ?_
      rcases hcode.mp h with hn | ⟨-, hpre⟩
      · rw [hn]
        exact List.nil_infix
      · exact hpre.isInfix
    | false =>
      simp only [Bool.false_eq_true, if_false]
      -- the root plays no part here
      have hcode' : within p s = true ↔ namesOf s <+: namesOf p := by
        rw [hcode]
        refine ⟨?_, fun h => Or.inr ⟨by rw [hp]; rfl, h⟩⟩
        rintro (h | h)
        · rw [h]
          exact List.nil_prefix
        · exact h.2
      simp only [hcode']
      split
      · rename_i hle
        simp only [take_append_prefix_iff hle]
        rw [forall_between_iff (Q := fun Z => namesOf s <+: namesOf p ↔ namesOf s <+: Z ++ namesOf p),
          ← prefix_append_all_iff hasFresh_isName (hnames s)]
        simp only [Iff.comm]
      · rename_i hlt
        simp only [take_append_prefix_iff' (Nat.le_of_not_le hlt)]
        rw [forall_between_iff (Q := fun Z => namesOf s <+: namesOf p ↔ Z ++ namesOf s <+: namesOf p),
          ← append_prefix_all_iff hasFresh_isName (hnames p)]
        simp only [Iff.comm]

/-- A path above the work directory is contained in it. -/
theorem climbing_path_contained :
    isAbsolute "/work" = true ∧ pathWithin "../secret" { path := ".", trust := .workDir } = true ∧
      lexicalResolve "/work" "../secret" = ["secret"] ∧ lexicalResolve "/work" "." = ["work"] ∧
      ¬ lexicalResolve "/work" "." <+: lexicalResolve "/work" "../secret" := by decide

end Fixus
