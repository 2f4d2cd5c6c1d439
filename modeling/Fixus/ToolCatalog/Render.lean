import Fixus.ToolCatalog.Argv

/-!
# Rendered command lines

A template is rendered part by part; a literal and an argument give one element each, a flag gives its fixed text or
nothing.

- `renderArgv`: the loop over the parts;
- `partError`, `pushes`, `elementText`: what one part does, taken by itself;
- `renderArgv_ok_iff`, `renderArgv_error_iff`: the command line is made of the elements of the parts, and the error is
  that of the first part that fails;
- `renderArgv_shape`: arguments that are no flags change the texts of their own elements and nothing else.
-/

namespace Fixus.ToolCatalog

inductive RenderError where
  | missingArg (name : String)
  | argTypeMismatch (name : String)
  deriving DecidableEq, Repr

variable (serde : SerdeJson)

/-- What one part adds to the command line. -/
def pushPart (args : Json) : ArgvPart → Except RenderError (List String)
  | .literal s => .ok [s]
  | .arg name =>
    match args.get name with
    | none | some .null => .error (.missingArg name)
    | some (.str s) => .ok [s]
    | some (.int n) => .ok [serde.toString (.int n)]
    | some (.float bits) => .ok [serde.toString (.float bits)]
    | some (.bool b) => .ok [toString b]
    | some (.arr _) | some (.obj _) => .error (.argTypeMismatch name)
  | .flag name value =>
    match args.get name with
    | none | some .null | some (.bool false) => .ok []
    | some (.bool true) => .ok [value]
    | some (.int _) | some (.float _) | some (.str _) | some (.arr _) | some (.obj _) => .error (.argTypeMismatch name)

/-- The loop: the first error ends it. -/
def renderParts (args : Json) : List ArgvPart → List String → Except RenderError (List String)
  | [], out => .ok out
  | part :: argv, out =>
    match pushPart serde args part with
    | .ok elements => renderParts args argv (out ++ elements)
    | .error err => .error err

def renderArgv (argv : List ArgvPart) (args : Json) : Except RenderError (List String) := renderParts serde args argv []

/-! ## One part -/

/-- Why a part cannot be rendered. -/
def partError (args : Json) : ArgvPart → Option RenderError
  | .literal _ => none
  | .arg name =>
    match args.get name with
    | none | some .null => some (.missingArg name)
    | some (.arr _) | some (.obj _) => some (.argTypeMismatch name)
    | _ => none
  | .flag name _ =>
    match args.get name with
    | none | some .null | some (.bool _) => none
    | _ => some (.argTypeMismatch name)

/-- Only a flag may give no element. -/
def pushes (args : Json) : ArgvPart → Bool
  | .literal _ | .arg _ => true
  | .flag name _ =>
    match args.get name with
    | some (.bool true) => true
    | _ => false

/-- The text of a scalar. -/
def scalarText : Option Json → String
  | some (.str s) => s
  | some (.bool b) => toString b
  | some v => serde.toString v
  | none => ""

/-- The element of a part, if there is one. -/
def elementText (args : Json) : ArgvPart → String
  | .literal s => s
  | .arg name => scalarText serde (args.get name)
  | .flag _ value => value

/-- The parts with an element, and where they stand in the template. -/
def origins (args : Json) (argv : List ArgvPart) : List (ArgvPart × Nat) := argv.zipIdx.filter fun q => pushes args q.1

variable {serde}

theorem pushPart_eq (args : Json) (p : ArgvPart) : pushPart serde args p =
    match partError args p with
    | some err => .error err
    | none => .ok (if pushes args p then [elementText serde args p] else []) := by
  cases p with
  | literal s => rfl
  | arg name =>
    simp only [pushPart, partError, pushes, elementText]
    cases args.get name with
    | none => rfl
    | some v => cases v <;> rfl
  | flag name value =>
    cases hv : args.get name with
    | none => simp [pushPart, partError, pushes, hv]
    | some v =>
      cases v with
      | bool b => cases b <;> simp [pushPart, partError, pushes, elementText, hv]
      | _ => simp [pushPart, partError, pushes, hv]

/-! ## The whole template -/

theorem renderParts_ok_iff {args : Json} {argv : List ArgvPart} {out result : List String} :
    renderParts serde args argv out = .ok result ↔ (∀ p ∈ argv, partError args p = none) ∧
      result = out ++ (argv.filter (pushes args)).map (elementText serde args) := by
  induction argv generalizing out with
  | nil => simp [renderParts, eq_comm]
  | cons p argv ih =>
    unfold renderParts
    rw [pushPart_eq]
    cases hp : partError args p with
    | some err =>
      refine iff_of_false nofun ?_
      rintro ⟨hall, -⟩
      rw [hall p List.mem_cons_self] at hp
      cases hp
    | none =>
      have helements : ((p :: argv).filter (pushes args)).map (elementText serde args) =
          (if pushes args p then [elementText serde args p] else []) ++
            (argv.filter (pushes args)).map (elementText serde args) := by
        by_cases hpush : pushes args p = true
        · rw [List.filter_cons_of_pos hpush, if_pos hpush]
          rfl
        · rw [List.filter_cons_of_neg hpush, if_neg hpush]
          rfl
      simp only [ih, helements, List.append_assoc, List.forall_mem_cons, hp, true_and]

theorem renderParts_error_iff {args : Json} {argv : List ArgvPart} {out : List String} {err : RenderError} :
    renderParts serde args argv out = .error err ↔ ∃ pre p post, argv = pre ++ p :: post ∧
      (∀ q ∈ pre, partError args q = none) ∧ partError args p = some err := by
  induction argv generalizing out with
  | nil => simp [renderParts]
  | cons p argv ih =>
    unfold renderParts
    rw [pushPart_eq]
    cases hp : partError args p with
    | some err' =>
      constructor
      · intro h
        obtain rfl := Except.error.inj h
        exact ⟨[], p, argv, rfl, List.forall_mem_nil _, hp⟩
      · rintro ⟨pre, q, post, heq, hpre, hq⟩
        cases pre with
        | nil =>
          obtain ⟨rfl, -⟩ := List.cons.inj heq
          rw [hp] at hq
          rw [Option.some.inj hq]
        | cons q' pre =>
          -- no part before the first failing one fails
          obtain ⟨rfl, -⟩ := List.cons.inj heq
          rw [hpre p List.mem_cons_self] at hp
          cases hp
    | none =>
      simp only [ih]
      constructor
      · rintro ⟨pre, q, post, rfl, hpre, hq⟩
        exact ⟨p :: pre, q, post, rfl, List.forall_mem_cons.mpr ⟨hp, hpre⟩, hq⟩
      · rintro ⟨pre, q, post, heq, hpre, hq⟩
        cases pre with
        | nil =>
          obtain ⟨rfl, -⟩ := List.cons.inj heq
          rw [hp] at hq
          cases hq
        | cons q' pre =>
          obtain ⟨rfl, rfl⟩ := List.cons.inj heq
          exact ⟨pre, q, post, rfl, (List.forall_mem_cons.mp hpre).2, hq⟩

theorem map_origins (args : Json) (argv : List ArgvPart) :
    (origins args argv).map (fun q => elementText serde args q.1) =
      (argv.filter (pushes args)).map (elementText serde args) := by
  have hfst : (origins args argv).map Prod.fst = argv.filter (pushes args) := by
    conv_rhs => rw [← List.zipIdx_map_fst 0 argv]
    rw [List.filter_map]
    rfl
  rw [← hfst, List.map_map]
  rfl

/-- **A template is rendered exactly if no part fails**, each element from its part, in order. -/
theorem renderArgv_ok_iff {args : Json} {argv : List ArgvPart} {out : List String} :
    renderArgv serde argv args = .ok out ↔ (∀ p ∈ argv, partError args p = none) ∧
      out = (origins args argv).map fun q => elementText serde args q.1 := by
  unfold renderArgv
  rw [renderParts_ok_iff, map_origins, List.nil_append]

/-- **The error is that of the first part that fails.** -/
theorem renderArgv_error_iff {args : Json} {argv : List ArgvPart} {err : RenderError} :
    renderArgv serde argv args = .error err ↔ ∃ pre p post, argv = pre ++ p :: post ∧
      (∀ q ∈ pre, partError args q = none) ∧ partError args p = some err := renderParts_error_iff

/-! ## Two runs -/

/-- The two objects have the same values for all flags of the template. -/
def SameFlags (argv : List ArgvPart) (args args' : Json) : Prop :=
  ∀ name value, .flag name value ∈ argv → args.get name = args'.get name

/-- The parts with an element are the same for the same flags. -/
theorem origins_congr {argv : List ArgvPart} {args args' : Json} (h : SameFlags argv args args') :
    origins args argv = origins args' argv := by
  refine List.filter_congr fun q hq => ?_
  have hmem := List.fst_mem_of_mem_zipIdx hq
  cases hp : q.1 with
  | literal s => rfl
  | arg name => rfl
  | flag name value =>
    rw [hp] at hmem
    simp only [pushes, h name value hmem]

/-- One argument that is no flag changes its own elements only. -/
theorem elementText_congr {args args' : Json} {x : String} (hargs : ∀ name, name ≠ x → args.get name = args'.get name)
    {p : ArgvPart} (hp : p ≠ .arg x) : elementText serde args p = elementText serde args' p := by
  cases p with
  | literal s => rfl
  | arg name =>
    have hne : name ≠ x := fun heq => hp (heq ▸ rfl)
    simp only [elementText, hargs name hne]
  | flag name value => rfl

/-- **A command line keeps its shape.** The elements come from the parts in order, one for each literal and each
argument, and the fixed text of each flag that is set; which parts have one depends on the flags only, and another value
of one argument is seen at its own elements only. -/
theorem renderArgv_shape (serde : SerdeJson) (argv : List ArgvPart) :
    (∀ args, (∃ out, renderArgv serde argv args = .ok out) ↔ ∀ p ∈ argv, partError args p = none) ∧
      (∀ args out, renderArgv serde argv args = .ok out →
        out = (origins args argv).map fun q => elementText serde args q.1) ∧
      (∀ args err, renderArgv serde argv args = .error err ↔ ∃ pre p post, argv = pre ++ p :: post ∧
        (∀ q ∈ pre, partError args q = none) ∧ partError args p = some err) ∧
      (∀ args args' out out', renderArgv serde argv args = .ok out → renderArgv serde argv args' = .ok out' →
        SameFlags argv args args' → origins args argv = origins args' argv ∧ out.length = out'.length) ∧
      (∀ args args' out out' x, renderArgv serde argv args = .ok out → renderArgv serde argv args' = .ok out' →
        (∀ name, name ≠ x → args.get name = args'.get name) → (∀ value, ArgvPart.flag x value ∉ argv) →
        origins args argv = origins args' argv ∧ out.length = out'.length ∧
          ∀ k : Nat, out[k]? ≠ out'[k]? → ∃ i, (origins args argv)[k]? = some (.arg x, i)) := by
  refine ⟨fun args => ?_, fun args out h => (renderArgv_ok_iff.mp h).2, fun args err => renderArgv_error_iff, ?_, ?_⟩
  · constructor
    · rintro ⟨out, h⟩
      exact (renderArgv_ok_iff.mp h).1
    · exact fun h => ⟨_, renderArgv_ok_iff.mpr ⟨h, rfl⟩⟩
  · intro args args' out out' h h' hflags
    obtain ⟨-, rfl⟩ := renderArgv_ok_iff.mp h
    obtain ⟨-, rfl⟩ := renderArgv_ok_iff.mp h'
    have horigins := origins_congr hflags
    exact ⟨horigins, by rw [List.length_map, List.length_map, horigins]⟩
  · intro args args' out out' x h h' hargs hx
    obtain ⟨-, rfl⟩ := renderArgv_ok_iff.mp h
    obtain ⟨-, rfl⟩ := renderArgv_ok_iff.mp h'
    have horigins : origins args argv = origins args' argv := by
      refine origins_congr fun name value hmem => hargs name ?_
      rintro rfl
      exact hx value hmem
    refine ⟨horigins, by rw [List.length_map, List.length_map, horigins], fun k hne => ?_⟩
    rw [← horigins, List.getElem?_map, List.getElem?_map] at hne
    cases hk : (origins args argv)[k]? with
    | none => rw [hk] at hne; exact absurd rfl hne
    | some q =>
      obtain ⟨p, i⟩ := q
      rw [hk] at hne
      by_cases hp : p = .arg x
      · exact ⟨i, by rw [hp]⟩
      · exact absurd (congrArg some (elementText_congr hargs hp)) hne

end Fixus.ToolCatalog
