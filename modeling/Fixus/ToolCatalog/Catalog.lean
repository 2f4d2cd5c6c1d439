import Fixus.ToolCatalog.Render
import Fixus.ToolsBank.CanonicalJson
import Mathlib.Data.Finset.Basic

/-!
# The tool catalog

The tools that come with the program, and those of an operator's file. The reader of the file format is a parameter; it
gives the entries of the file, and the names of an entry that may be missing have defaults.

- `builtins`, `parseExtraCatalog`, `filterCollisions`: the catalog;
- `parseTools_ok`: what an accepted file is made of;
- `merged_catalog`: in the merged catalog every tool is found by its name.
-/

namespace Fixus.ToolCatalog

/-! ## Tools -/

inductive BinIo where
  | read | write | none
  deriving DecidableEq, Repr

/-- An external program. -/
structure BinSpec where
  binary : String
  argv : List ArgvPart
  io : BinIo
  pathArgs : List String

inductive ExecutorKind where
  | bash | fileRead | fileWrite | fileEdit | glob | grep
  | bin (spec : BinSpec)

structure ToolSpec where
  name : String
  description : String
  inputSchema : Json
  defaultTimeoutSecs : Nat
  executor : ExecutorKind

/-- A described property of a schema. -/
def described (type_ description : String) : Json := .obj [("type", .str type_), ("description", .str description)]

/-- A property with a type only. -/
def typed (type_ : String) : Json := .obj [("type", .str type_)]

def objectSchema (properties : List (String × Json)) (required : List String) : Json :=
  .obj [("type", .str "object"), ("properties", .obj properties), ("required", .arr (required.map .str))]

def scopedPath : Json := described "string" "Path to file (relative or absolute, scoped to workspace)"

def builtins : List ToolSpec :=
  [{ name := "fixus_bash"
     description := "Execute a shell command (via fixus sandbox)"
     inputSchema := objectSchema
       [("command", described "string" "The command to execute"),
        ("description", described "string" "Brief description")]
       ["command"]
     defaultTimeoutSecs := 30
     executor := .bash },
   { name := "fixus_read"
     description := "Read a file (via fixus sandbox)"
     inputSchema := objectSchema
       [("file_path", scopedPath), ("offset", described "integer" "Line number to start reading from"),
        ("limit", described "integer" "Number of lines to read")]
       ["file_path"]
     defaultTimeoutSecs := 15
     executor := .fileRead },
   { name := "fixus_write"
     description := "Write to a file (via fixus sandbox)"
     inputSchema := objectSchema
       [("file_path", scopedPath), ("content", described "string" "Content to write")]
       ["file_path", "content"]
     defaultTimeoutSecs := 15
     executor := .fileWrite },
   { name := "fixus_edit"
     description := "Edit a file by replacing a string (via fixus sandbox)"
     inputSchema := objectSchema
       [("file_path", scopedPath), ("old_string", described "string" "String to replace"),
        ("new_string", described "string" "Replacement string")]
       ["file_path", "old_string", "new_string"]
     defaultTimeoutSecs := 15
     executor := .fileEdit },
   { name := "fixus_glob"
     description := "Find files matching a pattern (via fixus sandbox)"
     inputSchema := objectSchema [("pattern", described "string" "Glob pattern (e.g. *.rs)")] ["pattern"]
     defaultTimeoutSecs := 15
     executor := .glob },
   { name := "fixus_grep"
     description := "Search for a pattern in files (via fixus sandbox)"
     inputSchema := objectSchema
       [("pattern", described "string" "Pattern to search for"),
        ("path", described "string" "Directory or file to search in")]
       ["pattern"]
     defaultTimeoutSecs := 15
     executor := .grep },
   { name := "fixus_jq"
     description := "Run jq (JSON query) on a file"
     inputSchema := objectSchema [("filter", typed "string"), ("file", typed "string"), ("raw", typed "boolean")]
       ["filter", "file"]
     defaultTimeoutSecs := 15
     executor := .bin
       { binary := "jq"
         argv := [.literal "jq", .flag "raw" "-r", .arg "filter", .arg "file"]
         io := .read
         pathArgs := ["file"] } },
   { name := "fixus_rg"
     description := "Recursively search file contents (ripgrep)"
     inputSchema := objectSchema [("pattern", typed "string"), ("path", typed "string")] ["pattern"]
     defaultTimeoutSecs := 15
     executor := .bin
       { binary := "rg"
         argv := [.literal "rg", .arg "pattern", .arg "path"]
         io := .read
         pathArgs := ["path"] } }]

/-- The tool of a name. -/
def find (all : List ToolSpec) (fullName : String) : Option ToolSpec := all.find? fun s => s.name = fullName

/-! ## The operator's file -/

/-- A value of the file format; tables have distinct keys. -/
inductive Toml where
  | string (s : String)
  | integer (n : Int)
  | float (bits : UInt64)
  | boolean (b : Bool)
  | array (vs : List Toml)
  | table (fields : List (String × Toml))
  | datetime (text : String)

mutual

def tomlToJson : Toml → Json
  | .string s => .str s
  | .integer n => .int n
  | .float bits => if Json.finiteFloat bits then .float bits else .null
  | .boolean b => .bool b
  | .array vs => .arr (tomlListToJson vs)
  | .table fields => .obj ((tomlFieldsToJson fields).foldl (fun o (k, v) => Json.insertField k v o) [])
  | .datetime text => .str text

def tomlListToJson : List Toml → List Json
  | [] => []
  | v :: vs => tomlToJson v :: tomlListToJson vs

def tomlFieldsToJson : List (String × Toml) → List (String × Json)
  | [] => []
  | (k, v) :: fields => (k, tomlToJson v) :: tomlFieldsToJson fields

end

/-- An entry of the file. -/
structure ExtraToolRaw where
  name : String
  description : String
  binary : String
  argv : List String
  io : Option String := none
  pathArgs : Option (List String) := none
  timeoutSecs : Option Nat := none
  inputSchema : Toml

def defaultIo : String := "none"

def defaultTimeout : Nat := 30

def parseBinIo : String → Except CatalogError BinIo
  | "read" => .ok .read
  | "write" => .ok .write
  | "none" => .ok .none
  | other => .error (.malformed
      ("unknown io value: " ++ debugStr other ++ " (expected \"read\" | \"write\" | \"none\")"))

/-- The parts of a template, up to the first element that is refused. -/
def parseArgv : List String → Except CatalogError (List ArgvPart)
  | [] => .ok []
  | elem :: elems =>
    match parseArgvElement elem with
    | .error err => .error err
    | .ok part =>
      match parseArgv elems with
      | .error err => .error err
      | .ok parts => .ok (part :: parts)

/-- The tool of an entry. -/
def parseTool (raw : ExtraToolRaw) : Except CatalogError ToolSpec :=
  if raw.argv = [] then
    .error (.malformed ("tool " ++ raw.name ++ " has empty argv (need at least the binary name as argv[0])"))
  else
    match parseArgv raw.argv with
    | .error err => .error err
    | .ok argv =>
      match parseBinIo (raw.io.getD defaultIo) with
      | .error err => .error err
      | .ok io =>
        .ok { name := raw.name
              description := raw.description
              inputSchema := tomlToJson raw.inputSchema
              defaultTimeoutSecs := raw.timeoutSecs.getD defaultTimeout
              executor := .bin { binary := raw.binary, argv, io, pathArgs := raw.pathArgs.getD [] } }

/-- The loop over the entries; `seen` are the names so far. -/
def parseTools : List ExtraToolRaw → Finset String → List ToolSpec → Except CatalogError (List ToolSpec)
  | [], _, specs => .ok specs
  | raw :: file, seen, specs =>
    if raw.name ∈ seen then .error (.duplicateName raw.name)
    else
      match parseTool raw with
      | .error err => .error err
      | .ok spec => parseTools file (insert raw.name seen) (specs ++ [spec])

/-- A text of white space only has no tools. -/
def parseExtraCatalog (isWhitespace : Char → Bool) (fromStr : String → Except String (List ExtraToolRaw))
    (tomlStr : String) : Except CatalogError (List ToolSpec) :=
  if tomlStr.toList.all isWhitespace then .ok []
  else
    match fromStr tomlStr with
    | .error msg => .error (.malformed msg)
    | .ok file => parseTools file ∅ []

/-- The extras whose names are not reserved. -/
def filterCollisions (extras reserved : List ToolSpec) : List ToolSpec :=
  extras.filter fun e => e.name ∉ reserved.map ToolSpec.name

/-! ## What is accepted -/

theorem parseArgv_length {elems : List String} {parts : List ArgvPart} (h : parseArgv elems = .ok parts) :
    parts.length = elems.length := by
  induction elems generalizing parts with
  | nil =>
    obtain rfl := Except.ok.inj h
    rfl
  | cons elem elems ih =>
    unfold parseArgv at h
    split at h
    · cases h
    · split at h
      · cases h
      · rename_i parts' hparts
        obtain rfl := Except.ok.inj h
        rw [List.length_cons, List.length_cons, ih hparts]

/-- An accepted entry keeps its name, and its tool has a template. -/
theorem parseTool_ok {raw : ExtraToolRaw} {spec : ToolSpec} (h : parseTool raw = .ok spec) :
    spec.name = raw.name ∧ spec.defaultTimeoutSecs = raw.timeoutSecs.getD defaultTimeout ∧
      spec.inputSchema = tomlToJson raw.inputSchema ∧
      ∃ bin, spec.executor = .bin bin ∧ bin.binary = raw.binary ∧ bin.argv ≠ [] ∧
        parseArgv raw.argv = .ok bin.argv := by
  unfold parseTool at h
  split at h
  · cases h
  · rename_i hne
    split at h
    · cases h
    · rename_i argv hargv
      split at h
      · cases h
      · obtain rfl := Except.ok.inj h
        refine ⟨rfl, rfl, rfl, _, rfl, rfl, fun hnil => hne ?_, hargv⟩
        have hlen := parseArgv_length hargv
        rw [show argv = [] from hnil] at hlen
        exact List.length_eq_zero_iff.mp hlen.symm

/-- **The tools of an accepted file are those of its entries**, whose names differ. -/
theorem parseTools_ok {file : List ExtraToolRaw} {seen : Finset String} {specs result : List ToolSpec}
    (h : parseTools file seen specs = .ok result) :
    (file.map ExtraToolRaw.name).Nodup ∧ (∀ raw ∈ file, raw.name ∉ seen) ∧
      ∃ tools, result = specs ++ tools ∧ List.Forall₂ (fun raw spec => parseTool raw = .ok spec) file tools := by
  induction file generalizing seen specs with
  | nil =>
    obtain rfl := Except.ok.inj h
    exact ⟨List.nodup_nil, List.forall_mem_nil _, [], (List.append_nil _).symm, .nil⟩
  | cons raw file ih =>
    unfold parseTools at h
    split at h
    · cases h
    · rename_i hseen
      split at h
      · cases h
      · rename_i spec hspec
        obtain ⟨hnodup, hnew, tools, rfl, htools⟩ := ih h
        refine ⟨?_, List.forall_mem_cons.mpr ⟨hseen, fun raw' hraw' hmem => ?_⟩, spec :: tools, ?_,
          .cons hspec htools⟩
        · refine List.nodup_cons.mpr ⟨fun hmem => ?_, hnodup⟩
          obtain ⟨raw', hraw', heq⟩ := List.mem_map.mp hmem
          exact hnew raw' hraw' (heq ▸ Finset.mem_insert_self _ _)
        · exact hnew raw' hraw' (Finset.mem_insert_of_mem hmem)
        · rw [List.append_assoc, List.singleton_append]

section Accepted

variable {isWhitespace : Char → Bool} {fromStr : String → Except String (List ExtraToolRaw)} {tomlStr : String}
  {extras : List ToolSpec}

/-- The extras are the tools of entries with different names. -/
theorem exists_file (h : parseExtraCatalog isWhitespace fromStr tomlStr = .ok extras) :
    ∃ file : List ExtraToolRaw, (file.map ExtraToolRaw.name).Nodup ∧
      List.Forall₂ (fun raw spec => parseTool raw = .ok spec) file extras := by
  unfold parseExtraCatalog at h
  split at h
  · obtain rfl := Except.ok.inj h
    exact ⟨[], List.nodup_nil, .nil⟩
  · split at h
    · cases h
    · rename_i file hfile
      obtain ⟨hnodup, -, tools, rfl, htools⟩ := parseTools_ok h
      exact ⟨file, hnodup, htools⟩

/-- The names of the extras differ. -/
theorem nodup_extras (h : parseExtraCatalog isWhitespace fromStr tomlStr = .ok extras) :
    (extras.map ToolSpec.name).Nodup := by
  obtain ⟨file, hnodup, htools⟩ := exists_file h
  have hnames : file.map ExtraToolRaw.name = extras.map ToolSpec.name := by
    rw [← List.forall₂_eq_eq_eq, List.forall₂_map_left_iff, List.forall₂_map_right_iff]
    exact htools.imp fun raw spec hspec => (parseTool_ok hspec).1.symm
  rw [← hnames]
  exact hnodup

/-- Each extra is the tool of an entry. -/
theorem exists_parseTool (h : parseExtraCatalog isWhitespace fromStr tomlStr = .ok extras) {spec : ToolSpec}
    (hspec : spec ∈ extras) : ∃ raw, parseTool raw = .ok spec := by
  obtain ⟨file, -, htools⟩ := exists_file h
  obtain ⟨i, hi, rfl⟩ := List.getElem_of_mem hspec
  exact ⟨_, htools.get (htools.length_eq ▸ hi) hi⟩

/-! ## The merged catalog -/

theorem nodup_builtins : (builtins.map ToolSpec.name).Nodup := by decide

/-- A tool is found by its name where names differ. -/
theorem find_of_nodup {all : List ToolSpec} (hnodup : (all.map ToolSpec.name).Nodup) {spec : ToolSpec}
    (hspec : spec ∈ all) : find all spec.name = some spec := by
  induction all with
  | nil => cases hspec
  | cons s all ih =>
    obtain ⟨hs, hall⟩ := List.nodup_cons.mp hnodup
    unfold find
    rcases List.mem_cons.mp hspec with rfl | hmem
    · exact List.find?_cons_of_pos (decide_eq_true rfl)
    · have hne : s.name ≠ spec.name := fun heq => hs (heq ▸ List.mem_map_of_mem hmem)
      rw [List.find?_cons_of_neg (by simpa using hne)]
      exact ih hall hmem

/-- The tools of the program with a program of their own have a template. -/
theorem argv_builtins : ∀ spec ∈ builtins, ∀ bin, spec.executor = .bin bin → bin.argv ≠ [] := by
  have hall : ∀ e ∈ builtins.map ToolSpec.executor, ∀ bin, e = .bin bin → bin.argv ≠ [] := by
    simp [builtins]
  exact fun spec hspec => hall _ (List.mem_map_of_mem hspec)

theorem mem_filterCollisions {reserved : List ToolSpec} {spec : ToolSpec} : spec ∈ filterCollisions extras reserved ↔
    spec ∈ extras ∧ spec.name ∉ reserved.map ToolSpec.name := by
  simp only [filterCollisions, List.mem_filter, decide_eq_true_eq]

/-- All names of the merged catalog differ. -/
theorem nodup_catalog (h : parseExtraCatalog isWhitespace fromStr tomlStr = .ok extras) :
    ((builtins ++ filterCollisions extras builtins).map ToolSpec.name).Nodup := by
  rw [List.map_append]
  refine nodup_builtins.append ((List.filter_sublist.map _).nodup (nodup_extras h)) ?_
  intro name hbuiltin hmem
  obtain ⟨spec, hspec, rfl⟩ := List.mem_map.mp hmem
  exact (mem_filterCollisions.mp hspec).2 hbuiltin

/-- **The merged catalog**: the names of all tools differ, the tools of the program come first and as they are, then the
extras that do not collide with them, in their order; every template has an element, and every tool is found by its
name. -/
theorem merged_catalog (h : parseExtraCatalog isWhitespace fromStr tomlStr = .ok extras) :
    let kept := filterCollisions extras builtins
    let catalog := builtins ++ kept
    (catalog.map ToolSpec.name).Nodup ∧ (∀ spec ∈ builtins, spec ∈ catalog) ∧ kept.Sublist extras ∧
      (∀ spec ∈ extras, spec ∈ kept ↔ spec.name ∉ builtins.map ToolSpec.name) ∧
      (∀ spec ∈ catalog, ∀ bin, spec.executor = .bin bin → bin.argv ≠ []) ∧
      ∀ spec ∈ catalog, find catalog spec.name = some spec := by
  intro kept catalog
  have hnodup := nodup_catalog h
  refine ⟨hnodup, fun spec hspec => List.mem_append_left _ hspec, List.filter_sublist, fun spec hspec => ?_,
    fun spec hspec bin hbin => ?_, fun spec hspec => find_of_nodup hnodup hspec⟩
  · rw [mem_filterCollisions, and_iff_right hspec]
  · rcases List.mem_append.mp hspec with hspec | hspec
    · exact argv_builtins spec hspec bin hbin
    · obtain ⟨raw, hraw⟩ := exists_parseTool h (mem_filterCollisions.mp hspec).1
      obtain ⟨-, -, -, bin', hbin', -, hargv, -⟩ := parseTool_ok hraw
      rw [hbin'] at hbin
      obtain rfl := ExecutorKind.bin.inj hbin
      exact hargv

end Accepted

/-! ## A file -/

/-- A file with one tool, whose template begins with an argument. -/
def catToml : String :=
  "[[tool]]\nname = \"fixus_cat\"\ndescription = \"Print a file\"\nbinary = \"cat\"\n" ++
    "argv = [\"\x7bfile\x7d\"]\nio = \"read\"\ntimeout_secs = 5\n[tool.input_schema]\n" ++
    "type = \"object\"\nrequired = [\"file\"]\n"

/-- Its entry. -/
def catRaw : ExtraToolRaw where
  name := "fixus_cat"
  description := "Print a file"
  binary := "cat"
  argv := ["\x7bfile\x7d"]
  io := some "read"
  timeoutSecs := some 5
  inputSchema := .table [("type", .string "object"), ("required", .array [.string "file"])]

/-- Its tool. -/
def catSpec : ToolSpec where
  name := "fixus_cat"
  description := "Print a file"
  inputSchema := tomlToJson catRaw.inputSchema
  defaultTimeoutSecs := 5
  executor := .bin { binary := "cat", argv := [.arg "file"], io := .read, pathArgs := [] }

/-- A reader that knows this file. -/
def readCat (text : String) : Except String (List ExtraToolRaw) :=
  if text = catToml then .ok [catRaw] else .error "unknown file"

theorem parseExtraCatalog_cat : parseExtraCatalog Char.isWhitespace readCat catToml = .ok [catSpec] := by
  have htext : catToml.toList.all Char.isWhitespace = false := by decide +kernel
  have hread : readCat catToml = .ok [catRaw] := if_pos rfl
  unfold parseExtraCatalog
  rw [if_neg (by rw [htext]; exact Bool.false_ne_true), hread]
  rfl

theorem merged_catalog_cat : find (builtins ++ filterCollisions [catSpec] builtins) "fixus_cat" = some catSpec := by
  have hkept : catSpec ∈ filterCollisions [catSpec] builtins := List.mem_filter.mpr ⟨by simp, by decide⟩
  exact (merged_catalog parseExtraCatalog_cat).2.2.2.2.2 catSpec (List.mem_append_right _ hkept)

end Fixus.ToolCatalog
