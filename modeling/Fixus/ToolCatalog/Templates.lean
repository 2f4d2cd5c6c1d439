import Fixus.ToolCatalog.Catalog

/-!
# Templates of extra tools

What the catalog does not check of a template: that its first element is the program, and that its arguments are those
that the schema requires.

- `StartsWith`: the first element of every command line is the program; `flags_of_not_startsWith` gives flags that show
  another one where it fails;
- `extra_program_iff`: the program of an extra tool cannot be chosen, exactly if its template starts with it;
- `Supplied`: every argument that the loop reaches is required;
- `missing_arg_iff`: required arguments are enough for a command line, exactly if the template asks for no others.
-/

namespace Fixus.ToolCatalog

variable {serde : SerdeJson}

/-! ## Command lines with flags only -/

/-- The elements of a template. -/
def elements (serde : SerdeJson) (args : Json) (argv : List ArgvPart) : List String :=
  (argv.filter (pushes args)).map (elementText serde args)

theorem elements_cons (args : Json) (p : ArgvPart) (argv : List ArgvPart) : elements serde args (p :: argv) =
    if pushes args p then elementText serde args p :: elements serde args argv else elements serde args argv := by
  unfold elements
  rw [List.filter_cons]
  split <;> rfl

theorem elements_arg_bool {args : Json} {name : String} {b : Bool} (hv : args.get name = some (.bool b))
    (argv : List ArgvPart) : (elements serde args (.arg name :: argv))[0]? = some (toString b) := by
  simp [elements_cons, pushes, elementText, scalarText, hv]

theorem renderArgv_eq_ok_iff {args : Json} {argv : List ArgvPart} {out : List String} :
    renderArgv serde argv args = .ok out ↔ (∀ p ∈ argv, partError args p = none) ∧ out = elements serde args argv := by
  unfold renderArgv
  rw [renderParts_ok_iff, List.nil_append]
  rfl

/-- The argument that a part reads. -/
def ArgvPart.reads : ArgvPart → Option String
  | .literal _ => none
  | .arg name | .flag name _ => some name

/-- An object with a truth value for each name of the template. -/
def boolArgs (values : String → Bool) (argv : List ArgvPart) : List (String × Json) :=
  (argv.filterMap ArgvPart.reads).dedup.map fun name => (name, .bool (values name))

theorem boolArgs_keys (values : String → Bool) (argv : List ArgvPart) :
    (boolArgs values argv).map Prod.fst = (argv.filterMap ArgvPart.reads).dedup := by
  unfold boolArgs
  rw [List.map_map]
  exact List.map_id _

theorem proper_boolArgs (values : String → Bool) (argv : List ArgvPart) : (Json.obj (boolArgs values argv)).Proper := by
  refine .obj (by rw [boolArgs_keys]; exact List.nodup_dedup _) fun f hf => ?_
  obtain ⟨name, -, rfl⟩ := List.mem_map.mp hf
  exact .bool _

theorem get_boolArgs (values : String → Bool) {argv : List ArgvPart} {p : ArgvPart} (hp : p ∈ argv) {name : String}
    (hname : p.reads = some name) : (Json.obj (boolArgs values argv)).get name = some (.bool (values name)) := by
  have hnodup : ((boolArgs values argv).map Prod.fst).Nodup := by
    rw [boolArgs_keys]
    exact List.nodup_dedup _
  apply (Json.getField_eq_some_iff hnodup).mpr
  exact List.mem_map.mpr ⟨name, List.mem_dedup.mpr (List.mem_filterMap.mpr ⟨p, hp, hname⟩), rfl⟩

/-! ## The program -/

/-- The first element is `binary`; `unset` are the flags before, none of which is set. -/
def StartsWith (binary : String) : List ArgvPart → List String → Prop
  | [], _ => False
  | .literal s :: _, _ => s = binary
  | .arg name :: _, unset => name ∈ unset ∧ binary = "false"
  | .flag name value :: argv, unset => (name ∈ unset ∨ value = binary) ∧ StartsWith binary argv (name :: unset)

instance StartsWith.decidable (binary : String) : ∀ argv unset, Decidable (StartsWith binary argv unset)
  | [], _ => inferInstanceAs (Decidable False)
  | .literal _ :: _, _ => inferInstanceAs (Decidable (_ = _))
  | .arg _ :: _, _ => inferInstanceAs (Decidable (_ ∧ _))
  | .flag name _ :: argv, unset =>
    have := StartsWith.decidable binary argv (name :: unset)
    inferInstanceAs (Decidable (_ ∧ _))

/-- A flag without an element, in arguments that can be rendered. -/
def Unset (args : Json) (name : String) : Prop :=
  args.get name = none ∨ args.get name = some .null ∨ args.get name = some (.bool false)

theorem unset_of_not_pushes {args : Json} {name value : String} (herr : partError args (.flag name value) = none)
    (hpush : ¬ pushes args (.flag name value) = true) : Unset args name := by
  unfold Unset
  cases hv : args.get name with
  | none => exact Or.inl rfl
  | some v =>
    cases v with
    | null => exact Or.inr (Or.inl rfl)
    | bool b =>
      cases b with
      | false => exact Or.inr (Or.inr rfl)
      | true => exact absurd (by simp [pushes, hv]) hpush
    | _ => simp [partError, hv] at herr

/-- An argument that was read as a flag before is false. -/
theorem get_eq_false {args : Json} {name : String} (h : Unset args name) (herr : partError args (.arg name) = none) :
    args.get name = some (.bool false) := by
  rcases h with hv | hv | hv
  · simp [partError, hv] at herr
  · simp [partError, hv] at herr
  · exact hv

theorem head_elements {binary : String} {args : Json} {argv : List ArgvPart} {unset : List String}
    (h : StartsWith binary argv unset) (hunset : ∀ name ∈ unset, Unset args name)
    (herr : ∀ p ∈ argv, partError args p = none) : (elements serde args argv)[0]? = some binary := by
  induction argv generalizing unset with
  | nil => exact absurd h id
  | cons p argv ih =>
    have hp := herr p List.mem_cons_self
    cases p with
    | literal s => exact congrArg some h
    | arg name =>
      obtain ⟨hname, rfl⟩ := h
      exact elements_arg_bool (get_eq_false (hunset name hname) hp) argv
    | flag name value =>
      obtain ⟨hset, hrest⟩ := h
      rw [elements_cons]
      by_cases hpush : pushes args (.flag name value) = true
      · rw [if_pos hpush]
        rcases hset with hname | rfl
        · rcases hunset name hname with hv | hv | hv <;> simp [pushes, hv] at hpush
        · rfl
      · rw [if_neg hpush]
        have hunset' : ∀ n ∈ name :: unset, Unset args n :=
          List.forall_mem_cons.mpr ⟨unset_of_not_pushes hp hpush, hunset⟩
        exact ih hrest hunset' fun q hq => herr q (List.mem_cons_of_mem _ hq)

/-- **Flags that show another program**, where the template does not start with it. -/
theorem flags_of_not_startsWith (serde : SerdeJson) {binary : String} {argv : List ArgvPart} {unset : List String}
    (h : ¬ StartsWith binary argv unset) : ∃ values : String → Bool, (∀ name ∈ unset, values name = false) ∧
      ∀ args : Json, (∀ p ∈ argv, ∀ name, p.reads = some name → args.get name = some (.bool (values name))) →
        (elements serde args argv)[0]? ≠ some binary := by
  induction argv generalizing unset with
  | nil => exact ⟨fun _ => false, fun _ _ => rfl, fun args _ => nofun⟩
  | cons p argv ih =>
    cases p with
    | literal s => exact ⟨fun _ => false, fun _ _ => rfl, fun args _ heq => h (Option.some.inj heq)⟩
    | arg name =>
      -- an argument that is free is chosen not to be the program, one that is false is not
      have hchoice : ∃ values : String → Bool, (∀ n ∈ unset, values n = false) ∧ toString (values name) ≠ binary := by
        by_cases hfree : name ∉ unset ∧ binary = "false"
        · refine ⟨fun n => decide (n = name), fun n hn => decide_eq_false fun heq => hfree.1 (heq ▸ hn), ?_⟩
          have hset : decide (name = name) = true := decide_eq_true rfl
          rw [hfree.2]
          show toString (decide (name = name)) ≠ "false"
          rw [hset]
          decide
        · refine ⟨fun _ => false, fun _ _ => rfl, fun heq => ?_⟩
          by_cases hname : name ∈ unset
          · exact h ⟨hname, heq.symm⟩
          · exact hfree ⟨hname, heq.symm⟩
      obtain ⟨values, hunset, hne⟩ := hchoice
      refine ⟨values, hunset, fun args hargs heq => hne ?_⟩
      have hv := hargs (.arg name) List.mem_cons_self name rfl
      rw [elements_arg_bool hv] at heq
      exact Option.some.inj heq
    | flag name value =>
      by_cases hset : name ∈ unset ∨ value = binary
      · have hrest : ¬ StartsWith binary argv (name :: unset) := fun hrest => h ⟨hset, hrest⟩
        obtain ⟨values, hunset, hvalues⟩ := ih hrest
        refine ⟨values, fun n hn => hunset n (List.mem_cons_of_mem _ hn), fun args hargs => ?_⟩
        have hv := hargs (.flag name value) List.mem_cons_self name rfl
        rw [hunset name List.mem_cons_self] at hv
        have hpush : ¬ pushes args (.flag name value) = true := by simp [pushes, hv]
        rw [elements_cons, if_neg hpush]
        exact hvalues args fun q hq => hargs q (List.mem_cons_of_mem _ hq)
      · obtain ⟨hname, hne⟩ := not_or.mp hset
        refine ⟨fun n => decide (n = name), fun n hn => decide_eq_false fun heq => hname (heq ▸ hn), ?_⟩
        intro args hargs heq
        have hv := hargs (.flag name value) List.mem_cons_self name rfl
        have hpush : pushes args (.flag name value) = true := by simp [pushes, hv]
        rw [elements_cons, if_pos hpush] at heq
        exact hne (Option.some.inj heq)

/-- Any two command lines begin with the declared program. -/
def KeepsProgram (serde : SerdeJson) (bin : BinSpec) : Prop :=
  ∀ fields fields' out out', (Json.obj fields).Proper → (Json.obj fields').Proper →
    renderArgv serde bin.argv (.obj fields) = .ok out → renderArgv serde bin.argv (.obj fields') = .ok out' →
    out[0]? = out'[0]? ∧ out[0]? = some bin.binary

theorem keepsProgram_iff (bin : BinSpec) : KeepsProgram serde bin ↔ StartsWith bin.binary bin.argv [] := by
  constructor
  · intro h
    by_contra hnot
    obtain ⟨values, -, hvalues⟩ := flags_of_not_startsWith serde hnot
    have hget : ∀ p ∈ bin.argv, ∀ name, p.reads = some name →
        (Json.obj (boolArgs values bin.argv)).get name = some (.bool (values name)) :=
      fun p hp name hname => get_boolArgs values hp hname
    have hok : renderArgv serde bin.argv (.obj (boolArgs values bin.argv)) =
        .ok (elements serde (.obj (boolArgs values bin.argv)) bin.argv) := by
      refine renderArgv_eq_ok_iff.mpr ⟨fun p hp => ?_, rfl⟩
      cases p with
      | literal s => rfl
      | arg name => simp [partError, hget _ hp name rfl]
      | flag name value => simp [partError, hget _ hp name rfl]
    have hproper := proper_boolArgs values bin.argv
    exact hvalues _ hget (h _ _ _ _ hproper hproper hok hok).2
  · intro h fields fields' out out' _ _ hout hout'
    obtain ⟨herr, rfl⟩ := renderArgv_eq_ok_iff.mp hout
    obtain ⟨herr', rfl⟩ := renderArgv_eq_ok_iff.mp hout'
    rw [head_elements h (List.forall_mem_nil _) herr, head_elements h (List.forall_mem_nil _) herr']
    exact ⟨rfl, rfl⟩

/-- An extra is an external program. -/
theorem exists_bin {isWhitespace : Char → Bool} {fromStr : String → Except String (List ExtraToolRaw)}
    {tomlStr : String} {extras : List ToolSpec} (h : parseExtraCatalog isWhitespace fromStr tomlStr = .ok extras)
    {spec : ToolSpec} (hspec : spec ∈ extras) : ∃ bin, spec.executor = .bin bin := by
  obtain ⟨raw, hraw⟩ := exists_parseTool h hspec
  obtain ⟨-, -, -, bin, hbin, -⟩ := parseTool_ok hraw
  exact ⟨bin, hbin⟩

/-- **The program of an extra tool cannot be chosen, exactly if its template starts with it**: the first element is the
program itself, after flags none of which stands for anything else. -/
theorem extra_program_iff {isWhitespace : Char → Bool} {fromStr : String → Except String (List ExtraToolRaw)}
    {tomlStr : String} {extras : List ToolSpec} (h : parseExtraCatalog isWhitespace fromStr tomlStr = .ok extras)
    {spec : ToolSpec} (hspec : spec ∈ extras) : ∃ bin, spec.executor = .bin bin ∧
      (KeepsProgram serde bin ↔ StartsWith bin.binary bin.argv []) := by
  obtain ⟨bin, hbin⟩ := exists_bin h hspec
  exact ⟨bin, hbin, keepsProgram_iff bin⟩

theorem extra_program_cat : ∃ bin, catSpec.executor = .bin bin ∧
    (KeepsProgram .withFloats bin ↔ StartsWith bin.binary bin.argv []) :=
  extra_program_iff parseExtraCatalog_cat List.mem_cons_self

/-- The caller chooses the program of an accepted tool. -/
theorem extra_program_chosen : ¬ ∀ isWhitespace fromStr tomlStr extras,
    parseExtraCatalog isWhitespace fromStr tomlStr = .ok extras → ∀ spec ∈ extras, ∀ bin, spec.executor = .bin bin →
      ∀ serde, KeepsProgram serde bin := by
  intro hall
  have hkeeps := hall _ _ _ _ parseExtraCatalog_cat catSpec List.mem_cons_self _ rfl SerdeJson.withFloats
  have hproper : (Json.obj [("file", .str "/bin/rm")]).Proper := by
    refine .obj (by decide) fun f hf => ?_
    obtain rfl := List.mem_singleton.mp hf
    exact .str _
  have hrm : renderArgv SerdeJson.withFloats [.arg "file"] (.obj [("file", .str "/bin/rm")]) = .ok ["/bin/rm"] := rfl
  have hhead := (hkeeps _ _ _ _ hproper hproper hrm hrm).2
  exact absurd hhead (by decide)

/-! ## Required arguments -/

/-- The names that a schema requires. -/
def requiredNames (schema : Json) : List String :=
  match schema.get "required" with
  | some (.arr names) => names.filterMap Json.asStr
  | _ => []

/-- Every argument that the loop reaches is required; a required flag ends the loop, as a string is no truth value. -/
def Supplied (required : List String) : List ArgvPart → Prop
  | [] => True
  | .literal _ :: argv => Supplied required argv
  | .arg name :: argv => name ∈ required ∧ Supplied required argv
  | .flag name _ :: argv => name ∈ required ∨ Supplied required argv

instance Supplied.decidable (required : List String) : ∀ argv, Decidable (Supplied required argv)
  | [] => inferInstanceAs (Decidable True)
  | .literal _ :: argv => Supplied.decidable required argv
  | .arg _ :: argv =>
    have := Supplied.decidable required argv
    inferInstanceAs (Decidable (_ ∧ _))
  | .flag _ _ :: argv =>
    have := Supplied.decidable required argv
    inferInstanceAs (Decidable (_ ∨ _))

/-- An object with a string for each required name has all the arguments. -/
def NeverMissing (serde : SerdeJson) (schema : Json) (argv : List ArgvPart) : Prop :=
  ∀ fields, (Json.obj fields).Proper →
    (∀ name ∈ requiredNames schema, ∃ s, (Json.obj fields).get name = some (.str s)) →
    ∀ name, renderArgv serde argv (.obj fields) ≠ .error (.missingArg name)

theorem pushPart_arg_str {args : Json} {name s : String} (hv : args.get name = some (.str s)) :
    pushPart serde args (.arg name) = .ok [s] := by
  simp only [pushPart, hv]

theorem pushPart_flag_str {args : Json} {name value s : String} (hv : args.get name = some (.str s)) :
    pushPart serde args (.flag name value) = .error (.argTypeMismatch name) := by
  simp only [pushPart, hv]

/-- A flag fails by its type only. -/
theorem pushPart_flag_ne {args : Json} {name value name' : String} :
    pushPart serde args (.flag name value) ≠ .error (.missingArg name') := by
  simp only [pushPart]
  split <;> simp

theorem not_missing {required : List String} {args : Json} {argv : List ArgvPart} {out : List String}
    (h : Supplied required argv) (hargs : ∀ name ∈ required, ∃ s, args.get name = some (.str s)) (name : String) :
    renderParts serde args argv out ≠ .error (.missingArg name) := by
  induction argv generalizing out with
  | nil => exact nofun
  | cons p argv ih =>
    unfold renderParts
    cases p with
    | literal s => exact ih h
    | arg x =>
      obtain ⟨hx, hrest⟩ := h
      obtain ⟨s, hs⟩ := hargs x hx
      rw [pushPart_arg_str hs]
      exact ih hrest
    | flag x value =>
      rcases h with hx | hrest
      · obtain ⟨s, hs⟩ := hargs x hx
        rw [pushPart_flag_str hs]
        simp
      · split
        · exact ih hrest
        · rename_i err herr
          intro heq
          obtain rfl := Except.error.inj heq
          exact pushPart_flag_ne herr

/-- The least object with a string for each required name. -/
def requiredArgs (required : List String) : List (String × Json) := required.dedup.map fun name => (name, .str "")

theorem requiredArgs_keys (required : List String) : (requiredArgs required).map Prod.fst = required.dedup := by
  unfold requiredArgs
  rw [List.map_map]
  exact List.map_id _

theorem proper_requiredArgs (required : List String) : (Json.obj (requiredArgs required)).Proper := by
  refine .obj (by rw [requiredArgs_keys]; exact List.nodup_dedup _) fun f hf => ?_
  obtain ⟨name, -, rfl⟩ := List.mem_map.mp hf
  exact .str _

theorem get_requiredArgs {required : List String} {name : String} (hname : name ∈ required) :
    (Json.obj (requiredArgs required)).get name = some (.str "") := by
  have hnodup : ((requiredArgs required).map Prod.fst).Nodup := by
    rw [requiredArgs_keys]
    exact List.nodup_dedup _
  exact (Json.getField_eq_some_iff hnodup).mpr (List.mem_map.mpr ⟨name, List.mem_dedup.mpr hname, rfl⟩)

theorem get_requiredArgs_of_not_mem {required : List String} {name : String} (hname : name ∉ required) :
    (Json.obj (requiredArgs required)).get name = none := by
  apply Option.not_isSome_iff_eq_none.mp
  intro hsome
  have hkey := Json.getField_isSome.mp hsome
  rw [requiredArgs_keys] at hkey
  exact hname (List.mem_dedup.mp hkey)

/-- **An argument is missed**, where the template asks for one that is not required. -/
theorem exists_missing (serde : SerdeJson) {required : List String} {argv : List ArgvPart}
    (h : ¬ Supplied required argv) (out : List String) :
    ∃ name, renderParts serde (.obj (requiredArgs required)) argv out = .error (.missingArg name) := by
  induction argv generalizing out with
  | nil => exact absurd trivial h
  | cons p argv ih =>
    unfold renderParts
    cases p with
    | literal s => exact ih h _
    | arg x =>
      by_cases hx : x ∈ required
      · rw [pushPart_arg_str (get_requiredArgs hx)]
        exact ih (fun hrest => h ⟨hx, hrest⟩) _
      · have hv := get_requiredArgs_of_not_mem hx
        exact ⟨x, by simp only [pushPart, hv]⟩
    | flag x value =>
      obtain ⟨hx, hrest⟩ := not_or.mp h
      have hv := get_requiredArgs_of_not_mem hx
      simp only [pushPart, hv]
      exact ih hrest _

theorem neverMissing_iff (schema : Json) (argv : List ArgvPart) :
    NeverMissing serde schema argv ↔ Supplied (requiredNames schema) argv := by
  constructor
  · intro h
    by_contra hnot
    obtain ⟨name, hname⟩ := exists_missing serde hnot []
    exact h _ (proper_requiredArgs _) (fun x hx => ⟨_, get_requiredArgs hx⟩) name hname
  · exact fun h fields _ hargs name => not_missing h hargs name

/-- **Required arguments are enough, exactly if the template reaches no others**, for the tools that come with the
program and for the extra ones. -/
theorem missing_arg_iff {isWhitespace : Char → Bool} {fromStr : String → Except String (List ExtraToolRaw)}
    {tomlStr : String} {extras : List ToolSpec} (h : parseExtraCatalog isWhitespace fromStr tomlStr = .ok extras) :
    (∀ spec ∈ builtins, ∀ bin, spec.executor = .bin bin →
      (NeverMissing serde spec.inputSchema bin.argv ↔ Supplied (requiredNames spec.inputSchema) bin.argv)) ∧
      ∀ spec ∈ extras, ∃ bin, spec.executor = .bin bin ∧
        (NeverMissing serde spec.inputSchema bin.argv ↔ Supplied (requiredNames spec.inputSchema) bin.argv) := by
  refine ⟨fun spec _ bin _ => neverMissing_iff _ _, fun spec hspec => ?_⟩
  obtain ⟨bin, hbin⟩ := exists_bin h hspec
  exact ⟨bin, hbin, neverMissing_iff _ _⟩

theorem missing_arg_cat : ∃ bin, catSpec.executor = .bin bin ∧
    (NeverMissing .withFloats catSpec.inputSchema bin.argv ↔ Supplied (requiredNames catSpec.inputSchema) bin.argv) :=
  (missing_arg_iff parseExtraCatalog_cat).2 catSpec List.mem_cons_self

/-- The search tool of the program requires a pattern only, and misses the path. -/
theorem missing_path : ¬ ∀ spec ∈ builtins, ∀ bin, spec.executor = .bin bin →
    ∀ serde, NeverMissing serde spec.inputSchema bin.argv := by
  intro hall
  have hrg : builtins[7].executor = .bin
      { binary := "rg", argv := [.literal "rg", .arg "pattern", .arg "path"], io := .read, pathArgs := ["path"] } := rfl
  have hnever := hall builtins[7] (List.getElem_mem (by decide)) _ hrg SerdeJson.withFloats
  have hproper : (Json.obj [("pattern", .str "TODO")]).Proper := by
    refine .obj (by decide) fun f hf => ?_
    obtain rfl := List.mem_singleton.mp hf
    exact .str _
  have hrequired : ∀ name ∈ requiredNames builtins[7].inputSchema,
      ∃ s, (Json.obj [("pattern", .str "TODO")]).get name = some (.str s) := by
    intro name hname
    obtain rfl : name = "pattern" := List.mem_singleton.mp hname
    exact ⟨"TODO", rfl⟩
  exact hnever _ hproper hrequired "path" rfl

end Fixus.ToolCatalog
