import Fixus.Lib.FirstByKey
import Fixus.Policy.Path

/-!
# Capability policies and their resolution

The effective policy of a task is the operator's policy intersected with the tenant's and the task's, then narrowed
by the agent role (`resolveEffective`); the trust boundary first checks that the task asks for no more than the
tenant has (`resolveAndValidate`).

- `intersectSet_eq`: the intersection of two scope lists keeps, for each path, the first narrowing of a scope of the
  left list (`narrow`) through the right one;
- `mem_intersectSet`: a scope of an intersection lies in a scope of each side;
- `validateSubset_ok_iff`: what the subset check accepts.
-/

namespace Fixus

open Lib

/-! ## Policies -/

/-- How far a path is trusted. -/
inductive TrustLevel where
  | workDir | host | remote
  deriving DecidableEq, Repr

/-- A path and the trust put in it. -/
structure PathScope where
  path : String
  trust : TrustLevel
  deriving DecidableEq, Repr

/-- The readable and the writable roots. -/
structure FsPolicy where
  readPaths : List PathScope := []
  writePaths : List PathScope := []
  deriving DecidableEq, Repr

/-- The kinds of network destinations. -/
inductive NetCategory where
  | packageManager | httpsApi | dns | privateLan
  deriving DecidableEq, Repr

/-- One allowed destination. -/
structure EgressRule where
  host : String
  ports : List UInt16 := []
  category : Option NetCategory := none
  deriving DecidableEq, Repr

/-- The allowed destinations; none means no network. -/
structure NetPolicy where
  egress : List EgressRule := []
  deriving DecidableEq, Repr

/-- The policy of one party: operator, tenant or task. -/
structure CapabilityPolicy where
  fs : FsPolicy := {}
  net : NetPolicy := {}
  deriving DecidableEq, Repr

/-- The trust in the agent; the strict one is the default. -/
inductive AgentRole where
  | reader | operator
  deriving DecidableEq, Repr

/-- The resolved policy that goes to the sandbox. -/
structure EffectivePolicy where
  fs : FsPolicy
  net : NetPolicy
  agentRole : AgentRole
  deriving DecidableEq, Repr

/-! ## Resolution -/

/-- `path_within`: the path lies in the scope. -/
def pathWithin (p : String) (scope : PathScope) : Bool := within p scope.path

/-- Two scopes overlap when one contains the other. -/
def overlap (sa sb : PathScope) : Bool := pathWithin sa.path sb || pathWithin sb.path sa

/-- The narrower of two overlapping scopes; the left one of two equal paths. -/
def tighter (sa sb : PathScope) : PathScope := if pathWithin sa.path sb then sa else sb

/-- Push a scope unless one of an equal path is there; paths are equal when their components are. -/
def pushIfNew (out : List PathScope) (s : PathScope) : List PathScope := pushNew (fun e => components e.path) out s

/-- The intersection of two scope lists: for each scope of the first, its first overlap in the second. -/
def intersectSet (a b : List PathScope) : List PathScope :=
  a.foldl (fun out sa =>
    match b.find? (overlap sa) with
    | some sb => pushIfNew out (tighter sa sb)
    | none => out) []

def intersectFs (a b : FsPolicy) : FsPolicy :=
  { readPaths := intersectSet a.readPaths b.readPaths, writePaths := intersectSet a.writePaths b.writePaths }

/-- The rules of the first policy that occur in the second. -/
def intersectNet (a b : NetPolicy) : NetPolicy :=
  { egress := a.egress.filter fun ra => b.egress.any fun rb => decide (rb = ra) }

/-- A reader loses the network and every write scope that is not in the work directory. -/
def roleNarrow (eff : EffectivePolicy) (role : AgentRole) : EffectivePolicy :=
  match role with
  | .operator => { eff with agentRole := role }
  | .reader =>
    { fs := { eff.fs with writePaths := eff.fs.writePaths.filter fun s => decide (s.trust = .workDir) }
      net := { egress := [] }
      agentRole := role }

/-- Operator ∩ tenant ∩ task, narrowed by the role. -/
def resolveEffective (operator tenant task : CapabilityPolicy) (role : AgentRole) : EffectivePolicy :=
  let fs := intersectFs operator.fs tenant.fs
  let fs := intersectFs fs task.fs
  let net := intersectNet operator.net tenant.net
  let net := intersectNet net task.net
  roleNarrow { fs, net, agentRole := role } role

/-- What a child policy asks for beyond its parent. -/
structure SubsetViolation where
  fsReadViolations : List String
  fsWriteViolations : List String
  netViolations : List String
  deriving DecidableEq, Repr

def SubsetViolation.isEmpty (v : SubsetViolation) : Bool :=
  v.fsReadViolations.isEmpty && v.fsWriteViolations.isEmpty && v.netViolations.isEmpty

/-- The normalised paths of the child scopes that lie in no parent scope. -/
def checkPaths (child parent : List PathScope) : List String :=
  (child.filter fun c => !parent.any fun p => pathWithin c.path p).map fun c => normalizePath c.path

/-- `child ⊆ parent`, or the violations. -/
def validateSubset (child parent : CapabilityPolicy) : Except SubsetViolation Unit :=
  let v : SubsetViolation :=
    { fsReadViolations := checkPaths child.fs.readPaths parent.fs.readPaths
      fsWriteViolations := checkPaths child.fs.writePaths parent.fs.writePaths
      netViolations := (child.net.egress.filter fun cr => !parent.net.egress.any fun pr => decide (pr = cr)).map
        EgressRule.host }
  if v.isEmpty then .ok () else .error v

/-- The trust boundary: the task must ask for no more than the tenant has. -/
def resolveAndValidate (operator tenant task : CapabilityPolicy) (role : AgentRole) :
    Except SubsetViolation EffectivePolicy := do
  validateSubset task tenant
  return resolveEffective operator tenant task role

/-! ## Containment in a scope -/

@[simp] theorem pathWithin_self (s : PathScope) : pathWithin s.path s = true := within_refl _

/-- What lies in a scope lies in every scope that contains it. -/
theorem pathWithin_trans {p : String} {s t : PathScope} (h₁ : pathWithin p s = true)
    (h₂ : pathWithin s.path t = true) : pathWithin p t = true := within_trans h₁ h₂

/-! ## Intersections -/

/-- What a scope becomes in the intersection with a list: the narrower of it and its first overlap. -/
def narrow (b : List PathScope) (sa : PathScope) : Option PathScope := (b.find? (overlap sa)).map (tighter sa)

/-- The intersection keeps the first narrowing of each path. -/
theorem intersectSet_eq (a b : List PathScope) :
    intersectSet a b = firstBy (fun e => components e.path) (a.filterMap (narrow b)) := by
  have hgen : ∀ out, a.foldl (fun out sa =>
      match b.find? (overlap sa) with
      | some sb => pushIfNew out (tighter sa sb)
      | none => out) out = (a.filterMap (narrow b)).foldl (pushNew fun e => components e.path) out := by
    induction a with
    | nil => intro out; rfl
    | cons sa a ih =>
      intro out
      rw [List.foldl_cons, ih]
      cases hf : b.find? (overlap sa) with
      | none => simp [narrow, hf]
      | some sb => simp [narrow, hf, pushIfNew]
  exact hgen []

/-- The narrower of two overlapping scopes lies in both. -/
theorem tighter_within {sa sb : PathScope} (h : overlap sa sb = true) :
    pathWithin (tighter sa sb).path sa = true ∧ pathWithin (tighter sa sb).path sb = true := by
  unfold tighter
  by_cases hab : pathWithin sa.path sb = true
  · rw [if_pos hab]; exact ⟨pathWithin_self sa, hab⟩
  · rw [if_neg hab]
    have hba : pathWithin sb.path sa = true := by simpa [overlap, hab] using h
    exact ⟨hba, pathWithin_self sb⟩

/-- A narrowing lies in the scope it comes from and in the scope it met. -/
theorem narrow_eq_some {b : List PathScope} {sa n : PathScope} (h : narrow b sa = some n) :
    pathWithin n.path sa = true ∧ ∃ sb ∈ b, pathWithin n.path sb = true := by
  obtain ⟨sb, hf, rfl⟩ := Option.map_eq_some_iff.mp h
  obtain ⟨ha, hb⟩ := tighter_within (List.find?_some hf)
  exact ⟨ha, sb, List.mem_of_find?_eq_some hf, hb⟩

/-- A scope of an intersection lies in a scope of each side. -/
theorem mem_intersectSet {a b : List PathScope} {s : PathScope} (h : s ∈ intersectSet a b) :
    (∃ sa ∈ a, pathWithin s.path sa = true) ∧ ∃ sb ∈ b, pathWithin s.path sb = true := by
  rw [intersectSet_eq] at h
  obtain ⟨sa, ha, hn⟩ := List.mem_filterMap.mp (mem_of_mem_firstBy h)
  obtain ⟨h₁, h₂⟩ := narrow_eq_some hn
  exact ⟨⟨sa, ha, h₁⟩, h₂⟩

/-- A rule of an intersection occurs in both sides. -/
theorem mem_intersectNet {a b : NetPolicy} {r : EgressRule} :
    r ∈ (intersectNet a b).egress ↔ r ∈ a.egress ∧ r ∈ b.egress := by
  simp [intersectNet]

/-! ## The subset check -/

theorem checkPaths_eq_nil {child parent : List PathScope} :
    checkPaths child parent = [] ↔ ∀ c ∈ child, ∃ p ∈ parent, pathWithin c.path p = true := by
  simp [checkPaths]

/-- The subset check accepts exactly when every scope and every rule of the child is covered. -/
theorem validateSubset_ok_iff {child parent : CapabilityPolicy} : validateSubset child parent = .ok () ↔
    (∀ c ∈ child.fs.readPaths, ∃ p ∈ parent.fs.readPaths, pathWithin c.path p = true) ∧
    (∀ c ∈ child.fs.writePaths, ∃ p ∈ parent.fs.writePaths, pathWithin c.path p = true) ∧
    ∀ r ∈ child.net.egress, r ∈ parent.net.egress := by
  have hnet : (child.net.egress.filter fun cr => !parent.net.egress.any fun pr => decide (pr = cr)) = [] ↔
      ∀ r ∈ child.net.egress, r ∈ parent.net.egress := by simp
  unfold validateSubset
  simp only [SubsetViolation.isEmpty, List.isEmpty_iff, Bool.and_eq_true, List.map_eq_nil_iff, checkPaths_eq_nil, hnet]
  by_cases hc : ((∀ c ∈ child.fs.readPaths, ∃ p ∈ parent.fs.readPaths, pathWithin c.path p = true) ∧
      ∀ c ∈ child.fs.writePaths, ∃ p ∈ parent.fs.writePaths, pathWithin c.path p = true) ∧
      ∀ r ∈ child.net.egress, r ∈ parent.net.egress
  · rw [if_pos hc]
    exact ⟨fun _ => ⟨hc.1.1, hc.1.2, hc.2⟩, fun _ => rfl⟩
  · rw [if_neg hc]
    refine ⟨fun h => ?_, fun h => absurd ⟨⟨h.1, h.2.1⟩, h.2.2⟩ hc⟩
    cases h

/-- An accepted resolution is the effective policy of a task that passed the subset check. -/
theorem resolveAndValidate_ok {operator tenant task : CapabilityPolicy} {role : AgentRole} {eff : EffectivePolicy} :
    resolveAndValidate operator tenant task role = .ok eff ↔
      validateSubset task tenant = .ok () ∧ eff = resolveEffective operator tenant task role := by
  unfold resolveAndValidate
  cases hv : validateSubset task tenant with
  | error v => simp [bind, Except.bind]
  | ok u => simp [bind, Except.bind, pure, Except.pure, eq_comm]

end Fixus
