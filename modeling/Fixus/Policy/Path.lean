import Mathlib.Data.List.Induction

/-!
# Paths and lexical containment

Paths are strings read by their components, as on Unix: repeated separators and inner `.` disappear, a leading `.`
and every `..` stay. `normalizePath` pushes the components on a stack, drops `.` and pops at `..`, and collects the
stack into a path again. Paths compare by components (`samePath`), and a scope contains the paths below it
(`within`).

- `componentsOf_pushComponent`: pushing a name on a path appends one component;
- `components_normalizePath`: the collected path has exactly the components left on the stack;
- `within_refl`, `within_trans`: containment is a preorder, with no assumption on the spelling of the paths;
- `within_congr_left`, `within_congr_right`: it depends on the components only.
-/

namespace Fixus

/-- A component of a path. -/
inductive Component where
  | rootDir
  | curDir
  | parentDir
  | normal (name : String)
  deriving DecidableEq, Repr

/-- The pieces of a path between the separators. -/
def segments (path : List Char) : List String := (path.splitOn '/').map String.ofList

/-- The component of a piece that is not the first one. -/
def segment (s : String) : Option Component :=
  if s = "" ∨ s = "." then none
  else if s = ".." then some .parentDir
  else some (.normal s)

/-- The component of the first piece: an empty one before a separator is the root. -/
def leading (first : String) (rest : List String) : List Component :=
  if first = "" then (if rest = [] then [] else [.rootDir])
  else if first = "." then [.curDir]
  else (segment first).toList

/-- The components of the pieces. -/
def componentsOf : List String → List Component
  | [] => []
  | first :: rest => leading first rest ++ rest.filterMap segment

/-- `Path::components`. -/
def components (path : String) : List Component := componentsOf (segments path.toList)

/-- The text of a component. -/
def Component.text : Component → List Char
  | .rootDir => ['/']
  | .curDir => ['.']
  | .parentDir => ['.', '.']
  | .normal name => name.toList

/-- `PathBuf::push` of one component: the root replaces the path, the others follow a separator. -/
def pushComponent (buf : List Char) (c : Component) : List Char :=
  match c with
  | .rootDir => ['/']
  | c => if buf = [] ∨ buf.getLast? = some '/' then buf ++ c.text else buf ++ '/' :: c.text

/-- Collecting components into a path. -/
def collectComponents (parts : List Component) : String := String.ofList (parts.foldl pushComponent [])

/-- One component on the stack of `normalize_path`. -/
def normalizeStep (parts : List Component) : Component → List Component
  | .curDir => parts
  | .parentDir => parts.dropLast
  | other => parts ++ [other]

/-- The stack that `normalize_path` collects. -/
def normalizeParts (path : String) : List Component := (components path).foldl normalizeStep []

/-- `normalize_path`: the path without `.` and `..`, worked out lexically. -/
def normalizePath (path : String) : String := collectComponents (normalizeParts path)

/-- Equality of paths, component by component. -/
def samePath (p q : String) : Bool := decide (components p = components q)

/-- `Path::starts_with`, component by component. -/
def startsWith (p q : String) : Bool := (components q).isPrefixOf (components p)

/-- The path lies in the scope: equal to it or below it after normalisation. -/
def within (p scope : String) : Bool :=
  samePath (normalizePath p) (normalizePath scope) || startsWith (normalizePath p) (normalizePath scope)

/-! ## Containment is a preorder -/

/-- The stack of a path is a prefix of the stacks of the paths below it. -/
theorem within_iff {p s : String} :
    within p s = true ↔ components (normalizePath s) <+: components (normalizePath p) := by
  unfold within samePath startsWith
  simp only [Bool.or_eq_true, decide_eq_true_eq, List.isPrefixOf_iff_prefix]
  refine ⟨?_, Or.inr⟩
  rintro (h | h)
  · simp only [h, List.prefix_refl]
  · exact h

/-- A path lies in itself. -/
@[simp] theorem within_refl (p : String) : within p p = true := within_iff.mpr (List.prefix_refl _)

/-- Containment is transitive. -/
theorem within_trans {p s t : String} (h₁ : within p s = true) (h₂ : within s t = true) : within p t = true :=
  within_iff.mpr ((within_iff.mp h₂).trans (within_iff.mp h₁))

/-- Paths with the same components normalise to the same path. -/
theorem normalizePath_congr {p q : String} (h : components p = components q) : normalizePath p = normalizePath q := by
  unfold normalizePath normalizeParts
  rw [h]

/-- Containment depends on the components of the path only. -/
theorem within_congr_left {p q : String} (h : components p = components q) (s : String) : within p s = within q s := by
  unfold within
  rw [normalizePath_congr h]

/-- Containment depends on the components of the scope only. -/
theorem within_congr_right {s t : String} (h : components s = components t) (p : String) : within p s = within p t := by
  unfold within
  rw [normalizePath_congr h]

/-! ## The components of a normalised path -/

/-- A name that can be a normal component: not empty, not a dot entry, no separator. -/
def IsName (s : String) : Prop := s ≠ "" ∧ s ≠ "." ∧ s ≠ ".." ∧ '/' ∉ s.toList

/-- Splitting a path in two at a separator. -/
theorem segments_append (a b : List Char) : segments (a ++ '/' :: b) = segments a ++ segments b := by
  unfold segments
  rw [List.splitOn_append_cons_self, List.map_append]

/-- Text without a separator is one piece. -/
theorem segments_of_not_mem {s : List Char} (h : '/' ∉ s) : segments s = [String.ofList s] := by
  unfold segments
  rw [List.splitOn_eq_singleton h, List.map_singleton]

theorem segments_ne_nil (path : List Char) : segments path ≠ [] := by simp [segments]

/-- Only the empty path has a single empty piece. -/
theorem eq_nil_of_segments {path : List Char} (h : segments path = [""]) : path = [] := by
  have hj := congrArg (fun l => ['/'].intercalate (l.map String.toList)) h
  have hid : String.toList ∘ String.ofList = id := funext fun _ => String.toList_ofList
  simpa [segments, hid] using hj

/-- The pieces of a path contain no separator. -/
theorem not_mem_of_mem_segments {path : List Char} {s : String} (h : s ∈ segments path) : '/' ∉ s.toList := by
  induction path generalizing s with
  | nil =>
    have hs : s = "" := by simpa [segments] using h
    simp [hs]
  | cons c cs ih =>
    unfold segments at h ih
    rw [List.splitOn_cons_eq_if_modifyHead] at h
    by_cases hc : c = '/'
    · simp only [hc, beq_self_eq_true, if_true, List.map_cons, List.mem_cons] at h
      rcases h with rfl | h
      · simp
      · exact ih h
    · have hc' : (c == '/') = false := by simpa using hc
      simp only [hc', Bool.false_eq_true, if_false] at h
      cases hsp : cs.splitOn '/' with
      | nil => simp at hsp
      | cons x xs =>
        rw [hsp] at h ih
        simp only [List.modifyHead_cons, List.map_cons, List.mem_cons] at h
        rcases h with rfl | h
        · have hx := ih (s := String.ofList x) (by simp)
          simp only [String.toList_ofList, List.mem_cons, not_or] at hx ⊢
          exact ⟨fun e => hc e.symm, hx⟩
        · exact ih (by simp only [List.map_cons, List.mem_cons]; exact Or.inr h)

theorem segment_name {s : String} (h : IsName s) : segment s = some (.normal s) := by
  obtain ⟨h0, h1, h2, -⟩ := h
  simp [segment, h0, h1, h2]

/-- A piece between separators yields a name or `..`. -/
theorem segment_eq_some {s : String} {c : Component} (hs : '/' ∉ s.toList) (h : segment s = some c) :
    c = .parentDir ∨ ∃ n, c = .normal n ∧ IsName n := by
  unfold segment at h
  split at h
  · cases h
  · rename_i h01
    split at h
    · exact Or.inl (Option.some.inj h).symm
    · rename_i h2
      exact Or.inr ⟨s, (Option.some.inj h).symm, fun e => h01 (Or.inl e), fun e => h01 (Or.inr e), h2, hs⟩

/-- A name after other pieces is one more component, unless those pieces were the empty path. -/
theorem componentsOf_append_name {segs : List String} {s : String} (h : IsName s) (hne : segs ≠ [])
    (hne' : segs ≠ [""]) : componentsOf (segs ++ [s]) = componentsOf segs ++ [.normal s] := by
  cases segs with
  | nil => exact absurd rfl hne
  | cons first rest =>
    have hlead : leading first (rest ++ [s]) = leading first rest := by
      unfold leading
      by_cases hf : first = ""
      · have hr : rest ≠ [] := fun hr => hne' (by rw [hf, hr])
        simp [hf, hr]
      · simp [hf]
    simp [componentsOf, hlead, segment_name h]

/-- A name in place of an empty last piece is one more component. -/
theorem componentsOf_replace_name {segs : List String} {s : String} (h : IsName s) (hne : segs ≠ []) :
    componentsOf (segs ++ [s]) = componentsOf (segs ++ [""]) ++ [.normal s] := by
  cases segs with
  | nil => exact absurd rfl hne
  | cons first rest =>
    have hempty : segment "" = none := by decide
    simp [componentsOf, leading, segment_name h, hempty]

/-- Pushing a name on a path appends one component. -/
theorem componentsOf_pushComponent (buf : List Char) {s : String} (h : IsName s) :
    componentsOf (segments (pushComponent buf (.normal s))) = componentsOf (segments buf) ++ [.normal s] := by
  have hs : segments s.toList = [s] := by rw [segments_of_not_mem h.2.2.2, String.ofList_toList]
  unfold pushComponent
  by_cases hnil : buf = []
  · subst hnil
    have he : componentsOf (segments []) = [] := by decide
    obtain ⟨h0, h1, -, -⟩ := id h
    rw [he, List.nil_append]
    simp [Component.text, hs, componentsOf, leading, segment_name h, h0, h1]
  · by_cases hlast : buf.getLast? = some '/'
    · obtain ⟨b, rfl⟩ := List.getLast?_eq_some_iff.mp hlast
      simp only [hlast, or_true, if_true, Component.text, List.append_assoc, List.singleton_append]
      rw [segments_append, segments_append, hs]
      exact componentsOf_replace_name h (segments_ne_nil b)
    · simp only [hnil, hlast, or_self, if_false, Component.text]
      rw [segments_append, hs]
      exact componentsOf_append_name h (segments_ne_nil buf) fun e => hnil (eq_nil_of_segments e)

/-- The stacks of `normalize_path`: names, possibly after the root. -/
def CleanParts (parts : List Component) : Prop :=
  ∃ names : List String, (∀ n ∈ names, IsName n) ∧
    (parts = names.map .normal ∨ parts = .rootDir :: names.map .normal)

/-- Collecting a clean stack gives a path with exactly these components. -/
theorem components_collectComponents {parts : List Component} (h : CleanParts parts) :
    components (collectComponents parts) = parts := by
  have hfold : ∀ (names : List String) (buf : List Char), (∀ n ∈ names, IsName n) →
      componentsOf (segments ((names.map Component.normal).foldl pushComponent buf)) =
        componentsOf (segments buf) ++ names.map .normal := by
    intro names
    induction names with
    | nil => simp
    | cons n names ih =>
      intro buf hn
      have hn0 : IsName n := hn n List.mem_cons_self
      rw [List.map_cons, List.foldl_cons, ih _ fun m hm => hn m (List.mem_cons_of_mem _ hm),
        componentsOf_pushComponent buf hn0, List.append_assoc, List.singleton_append]
  obtain ⟨names, hnames, rfl | rfl⟩ := h
  · have he : componentsOf (segments []) = [] := by decide
    simp [components, collectComponents, hfold names [] hnames, he]
  · have hr : componentsOf (segments ['/']) = [.rootDir] := by decide
    simp [components, collectComponents, pushComponent, hfold names ['/'] hnames, hr]

/-- Dropping the top of a clean stack keeps it clean. -/
theorem CleanParts.dropLast {parts : List Component} (h : CleanParts parts) : CleanParts parts.dropLast := by
  obtain ⟨names, hnames, rfl | rfl⟩ := h
  · exact ⟨names.dropLast, fun n hn => hnames n (List.dropLast_subset _ hn), Or.inl List.map_dropLast.symm⟩
  · cases names using List.reverseRecOn with
    | nil => exact ⟨[], by simp, Or.inl rfl⟩
    | append_singleton names n _ =>
      refine ⟨names, fun m hm => hnames m (List.mem_append_left _ hm), Or.inr ?_⟩
      rw [List.map_append, List.map_singleton, ← List.cons_append, List.dropLast_concat]

/-- Pushing a name keeps a stack clean. -/
theorem CleanParts.push {parts : List Component} (h : CleanParts parts) {n : String} (hn : IsName n) :
    CleanParts (parts ++ [.normal n]) := by
  obtain ⟨names, hnames, h⟩ := h
  refine ⟨names ++ [n], ?_, ?_⟩
  · intro m hm
    rcases List.mem_append.mp hm with hm | hm
    · exact hnames m hm
    · rw [List.mem_singleton.mp hm]; exact hn
  · rcases h with rfl | rfl <;> simp

/-- The components after the first one are names and `..`, so the stack stays clean. -/
theorem cleanParts_foldl {cs : List Component}
    (hcs : ∀ c ∈ cs, c = .curDir ∨ c = .parentDir ∨ ∃ n, c = .normal n ∧ IsName n) :
    ∀ {parts : List Component}, CleanParts parts → CleanParts (cs.foldl normalizeStep parts) := by
  induction cs with
  | nil => exact fun h => h
  | cons c cs ih =>
    intro parts h
    rw [List.foldl_cons]
    refine ih (fun d hd => hcs d (List.mem_cons_of_mem _ hd)) ?_
    rcases hcs c List.mem_cons_self with rfl | rfl | ⟨n, rfl, hn⟩
    · exact h
    · exact h.dropLast
    · exact h.push hn

/-- The stack of every path is clean. -/
theorem cleanParts_normalizeParts (path : String) : CleanParts (normalizeParts path) := by
  have hnil : CleanParts [] := ⟨[], by simp, Or.inl rfl⟩
  have hroot : CleanParts [.rootDir] := ⟨[], by simp, Or.inr rfl⟩
  unfold normalizeParts components
  cases hsegs : segments path.toList with
  | nil => exact absurd hsegs (segments_ne_nil _)
  | cons first rest =>
    have hno : ∀ s ∈ first :: rest, '/' ∉ s.toList := fun s hs => not_mem_of_mem_segments (hsegs ▸ hs)
    have hrest : ∀ c ∈ rest.filterMap segment,
        c = .curDir ∨ c = .parentDir ∨ ∃ n, c = .normal n ∧ IsName n := by
      intro c hc
      obtain ⟨s, hs, hsc⟩ := List.mem_filterMap.mp hc
      exact Or.inr (segment_eq_some (hno s (List.mem_cons_of_mem _ hs)) hsc)
    rw [componentsOf, List.foldl_append]
    refine cleanParts_foldl hrest ?_
    unfold leading
    split
    · split
      · exact hnil
      · exact hroot
    · split
      · exact hnil
      · cases hseg : segment first with
        | none => exact hnil
        | some c =>
          refine cleanParts_foldl ?_ hnil
          intro d hd
          cases List.mem_singleton.mp hd
          exact Or.inr (segment_eq_some (hno first List.mem_cons_self) hseg)

/-- A normalised path has exactly the components left on the stack. -/
theorem components_normalizePath (path : String) : components (normalizePath path) = normalizeParts path :=
  components_collectComponents (cleanParts_normalizeParts path)

example : normalizePath "/a/b/../c" = "/a/c" := by decide

end Fixus
