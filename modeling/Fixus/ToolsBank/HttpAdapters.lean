import Fixus.Data.Int64
import Fixus.Lib.Delimited
import Fixus.ToolsBank.ToolRegistry

/-!
# Adapters for tools behind HTTP

An operator lists the adapters in one line of text: entries between semicolons, the fields of an entry between bars, the
tools between commas, and options behind them. Entries that make no sense are skipped.

- `parseHttpAdapters`: the reader;
- `HttpAdapterConfig.WellFormed`: the configurations that the text can express;
- `wellFormed_of_parse`: only such configurations are read;
- `parse_render`: each list of them is read back from what is written for it;
- `http_adapters_round_trip`: both, and entries are read independently.
-/

namespace Fixus

open Lib

/-! ## Reading -/

/-- `char::is_whitespace`. -/
def isWhitespace (c : Char) : Bool :=
  let n := c.toNat
  (0x9 ≤ n ∧ n ≤ 0xD) ∨ n = 0x20 ∨ n = 0x85 ∨ n = 0xA0 ∨ n = 0x1680 ∨ (0x2000 ≤ n ∧ n ≤ 0x200A) ∨ n = 0x2028 ∨
    n = 0x2029 ∨ n = 0x202F ∨ n = 0x205F ∨ n = 0x3000

/-- `str::split`, with `str::trim` on each piece. -/
def splitTrim (sep : Char) (s : String) : List String := (pieces isWhitespace sep s.toList).map String.ofList

/-- `str::strip_prefix`. -/
def stripPrefix (pre s : String) : Option String :=
  if pre.toList <+: s.toList then some (String.ofList (s.toList.drop pre.toList.length)) else none

/-- Without a plus sign in front. -/
def dropPlus : List Char → List Char
  | '+' :: ds => ds
  | ds => ds

/-- `str::parse::<u64>`. -/
def parseU64 (s : String) : Option Nat := (parseNat (dropPlus s.toList)).filter fun n => n < 2 ^ 64

structure ToolAdapterTool where
  name : String
  description : String
  deriving DecidableEq, Repr

structure HttpAdapterConfig where
  name : String
  baseUrl : String
  authHeader : Option String := none
  timeoutSecs : Nat := 15
  tools : List ToolAdapterTool
  deriving DecidableEq, Repr

/-- A tool of the adapter at the address. -/
def externalTool (baseUrl name : String) : ToolAdapterTool :=
  ⟨name, "External tool " ++ name ++ " via " ++ baseUrl⟩

/-- One field behind the tools; a later one replaces an earlier one of its kind. -/
def applyOption (options : Option String × Nat) (p : String) : Option String × Nat :=
  match stripPrefix "auth=" p with
  | some v => (some v, options.2)
  | none =>
    match stripPrefix "timeout=" p with
    | some v => (options.1, (parseU64 v).getD 15)
    | none => options

def parseOneHttpAdapter (entry : String) : Option HttpAdapterConfig :=
  match splitTrim '|' entry with
  | name :: baseUrl :: names :: rest =>
    if name = "" ∨ baseUrl = "" then none
    else
      let tools := ((splitTrim ',' names).filter fun t => t ≠ "").map (externalTool baseUrl)
      if tools = [] then none
      else
        let options := rest.foldl applyOption (none, 15)
        some { name, baseUrl, authHeader := options.1, timeoutSecs := options.2, tools }
  | _ => none

def parseHttpAdapters (s : String) : List HttpAdapterConfig :=
  ((splitTrim ';' s).filter fun e => e ≠ "").filterMap parseOneHttpAdapter

/-! ## Writing

The format as the comment over the reader gives it; the program only reads. -/

def joinWith (sep : Char) (parts : List String) : String :=
  String.ofList ([sep].intercalate (parts.map String.toList))

/-- The fields that a configuration is written with. -/
def HttpAdapterConfig.parts (c : HttpAdapterConfig) : List String :=
  [c.name, c.baseUrl, joinWith ',' (c.tools.map ToolAdapterTool.name)] ++
    ((c.authHeader.map fun v => "auth=" ++ v).toList ++ ["timeout=" ++ c.timeoutSecs.repr])

def HttpAdapterConfig.render (c : HttpAdapterConfig) : String := joinWith '|' c.parts

def renderHttpAdapters (cfgs : List HttpAdapterConfig) : String := joinWith ';' (cfgs.map HttpAdapterConfig.render)

/-- A text that can stand as a field between the separators. -/
structure Field (seps : List Char) (s : String) : Prop where
  trimmed : Trimmed isWhitespace s.toList
  free : ∀ sep ∈ seps, sep ∉ s.toList

/-- What can stand behind `auth=`. -/
structure AuthValue (v : String) : Prop where
  trimmed : ∀ a ∈ v.toList.getLast?, isWhitespace a = false
  free : ∀ sep ∈ [';', '|'], sep ∉ v.toList

/-- A configuration that the text can express. -/
structure HttpAdapterConfig.WellFormed (c : HttpAdapterConfig) : Prop where
  name : Field [';', '|'] c.name ∧ c.name ≠ ""
  baseUrl : Field [';', '|'] c.baseUrl ∧ c.baseUrl ≠ ""
  tools : c.tools ≠ [] ∧ ∀ t ∈ c.tools, Field [';', '|', ','] t.name ∧ t.name ≠ "" ∧ t = externalTool c.baseUrl t.name
  auth : ∀ v ∈ c.authHeader, AuthValue v
  timeout : c.timeoutSecs < 2 ^ 64

/-! ## Texts -/

variable {s p v : String} {sep : Char} {parts : List String} {c : HttpAdapterConfig}

@[simp] theorem stripPrefix_eq_some {pre : String} : stripPrefix pre s = some v ↔ s = pre ++ v := by
  unfold stripPrefix
  constructor
  · intro h
    split at h
    · rename_i hpre
      obtain ⟨rest, hrest⟩ := hpre
      obtain rfl := Option.some.inj h
      rw [← String.toList_inj, String.toList_append, String.toList_ofList, ← hrest, List.drop_left]
    · cases h
  · rintro rfl
    rw [String.toList_append, if_pos (List.prefix_append _ _), List.drop_left,
      String.ofList_toList]

theorem mem_splitTrim (h : p ∈ splitTrim sep s) :
    Trimmed isWhitespace p.toList ∧ sep ∉ p.toList ∧ p.toList ⊆ s.toList := by
  obtain ⟨f, hf, rfl⟩ := List.mem_map.mp h
  rw [String.toList_ofList]
  exact mem_pieces hf

theorem splitTrim_joinWith (hne : parts ≠ []) (h : ∀ p ∈ parts, Trimmed isWhitespace p.toList ∧ sep ∉ p.toList) :
    splitTrim sep (joinWith sep parts) = parts := by
  unfold splitTrim joinWith
  rw [String.toList_ofList, pieces_intercalate (by simpa using hne) (List.forall_mem_map.mpr h), List.map_map]
  exact List.map_id'' (fun p => String.ofList_toList) parts

/-- Fields that are written between separators are a field for other separators. -/
theorem field_joinWith {seps : List Char} (hsep : sep ∉ seps) (h : ∀ p ∈ parts, Field seps p ∧ p ≠ "") :
    Field seps (joinWith sep parts) := by
  unfold joinWith
  constructor
  · rw [String.toList_ofList]
    refine trimmed_intercalate (List.forall_mem_map.mpr fun p hp => ⟨?_, (h p hp).1.trimmed⟩)
    exact fun hnil => (h p hp).2 (String.toList_eq_nil_iff.mp hnil)
  · rw [String.toList_ofList]
    intro other hother hmem
    rcases mem_intercalate hmem with rfl | ⟨f, hf, hmem⟩
    · exact hsep hother
    · obtain ⟨p, hp, rfl⟩ := List.mem_map.mp hf
      exact (h p hp).1.free other hother hmem

theorem joinWith_ne (hne : parts ≠ []) (h : ∀ p ∈ parts, p ≠ "") : joinWith sep parts ≠ "" := by
  intro hnil
  have hlist : [sep].intercalate (parts.map String.toList) = [] := by
    have hchars := congrArg String.toList hnil
    rwa [joinWith, String.toList_ofList] at hchars
  refine intercalate_ne_nil (by simpa using hne) (List.forall_mem_map.mpr fun p hp hp' => ?_) hlist
  exact h p hp (String.toList_eq_nil_iff.mp hp')

/-! ## What is read -/

/-- What the options can be. -/
structure OptionsOk (options : Option String × Nat) : Prop where
  auth : ∀ v ∈ options.1, AuthValue v
  timeout : options.2 < 2 ^ 64

theorem authValue_of_field (h : Field [';', '|'] ("auth=" ++ v)) : AuthValue v where
  trimmed a ha := by
    refine h.trimmed.2 a ?_
    rw [String.toList_append, Option.mem_def, List.getLast?_append, ha]
    rfl
  free sep hsep hmem := h.free sep hsep (by rw [String.toList_append]; exact List.mem_append_right _ hmem)

theorem parseU64_lt (s : String) : (parseU64 s).getD 15 < 2 ^ 64 := by
  cases h : parseU64 s with
  | none => decide
  | some n => simpa using (Option.mem_filter_iff.mp h).2

theorem OptionsOk.apply {options : Option String × Nat} (h : OptionsOk options) (hp : Field [';', '|'] p) :
    OptionsOk (applyOption options p) := by
  unfold applyOption
  cases ha : stripPrefix "auth=" p with
  | some v =>
    obtain rfl := stripPrefix_eq_some.mp ha
    refine ⟨fun v' hv' => ?_, h.timeout⟩
    obtain rfl := Option.some.inj hv'
    exact authValue_of_field hp
  | none =>
    dsimp only
    cases ht : stripPrefix "timeout=" p with
    | some v => exact ⟨h.auth, parseU64_lt v⟩
    | none => exact h

theorem wellFormed_of_parseOne {entry : String} (hentry : ';' ∉ entry.toList)
    (h : parseOneHttpAdapter entry = some c) : c.WellFormed := by
  unfold parseOneHttpAdapter at h
  split at h
  · rename_i name baseUrl names rest hparts
    have hfield : ∀ p ∈ splitTrim '|' entry, Field [';', '|'] p := by
      intro p hp
      obtain ⟨htrimmed, hbar, hsub⟩ := mem_splitTrim hp
      refine ⟨htrimmed, fun sep hsep hmem => ?_⟩
      simp only [List.mem_cons, List.not_mem_nil, or_false] at hsep
      rcases hsep with rfl | rfl
      · exact hentry (hsub hmem)
      · exact hbar hmem
    rw [hparts] at hfield
    split at h
    · cases h
    · rename_i hnames
      obtain ⟨hname, hurl⟩ := not_or.mp hnames
      dsimp only at h
      split at h
      · cases h
      · rename_i htools
        obtain rfl := Option.some.inj h
        have hoptions : OptionsOk (rest.foldl applyOption (none, 15)) := by
          refine List.foldlRecOn rest applyOption ⟨by simp, by decide⟩ fun options hok p hp => ?_
          exact hok.apply (hfield p (by simp [hp]))
        refine ⟨⟨hfield name (by simp), hname⟩, ⟨hfield baseUrl (by simp), hurl⟩, ⟨htools, fun t ht => ?_⟩,
          hoptions.auth, hoptions.timeout⟩
        obtain ⟨toolName, hmem, rfl⟩ := List.mem_map.mp ht
        obtain ⟨hmem, hne⟩ := List.mem_filter.mp hmem
        obtain ⟨htrimmed, hcomma, hsub⟩ := mem_splitTrim hmem
        refine ⟨⟨htrimmed, fun sep hsep hin => ?_⟩, by simpa [externalTool] using hne, rfl⟩
        have hnamesField := hfield names (by simp)
        simp only [List.mem_cons, List.not_mem_nil, or_false] at hsep
        rcases hsep with rfl | rfl | rfl
        · exact hnamesField.free _ (by simp) (hsub hin)
        · exact hnamesField.free _ (by simp) (hsub hin)
        · exact hcomma hin
  · cases h

/-- **Only well formed configurations are read.** -/
theorem wellFormed_of_parse (h : c ∈ parseHttpAdapters s) : c.WellFormed := by
  obtain ⟨entry, hentry, hparse⟩ := List.mem_filterMap.mp h
  exact wellFormed_of_parseOne (mem_splitTrim (List.mem_of_mem_filter hentry)).2.1 hparse

-- entries that make no sense are skipped, a last option wins, and a timeout that is no number is the default
example : parseHttpAdapters "bad|only-two;lark|http://b:9001|b1; a|u|x, y|timeout=+7|timeout=x |auth=a|auth=b" =
    [⟨"lark", "http://b:9001", none, 15, [externalTool "http://b:9001" "b1"]⟩,
      ⟨"a", "u", some "b", 15, [externalTool "u" "x", externalTool "u" "y"]⟩] := by decide +kernel

/-! ## What is written is read -/

/-- A text without blanks and separators. -/
theorem field_of_forall {seps : List Char} (h : ∀ c ∈ s.toList, isWhitespace c = false ∧ c ∉ seps) : Field seps s where
  trimmed := ⟨fun a ha => (h a (List.mem_of_mem_head? ha)).1, fun a ha => (h a (List.mem_of_mem_getLast? ha)).1⟩
  free sep hsep hmem := (h sep hmem).2 hsep

theorem field_timeout (n : Nat) : Field [';', '|'] ("timeout=" ++ n.repr) := by
  have hpre : ∀ c ∈ "timeout=".toList, isWhitespace c = false ∧ c ∉ [';', '|'] := by simp [isWhitespace]
  have hdigit : ∀ c : Char, c.isDigit = true → isWhitespace c = false ∧ c ∉ [';', '|'] := by
    intro c hc
    obtain ⟨hlo, hhi⟩ : 48 ≤ c.toNat ∧ c.toNat ≤ 57 := by simpa [Char.isDigit, UInt32.le_iff_toNat_le] using hc
    refine ⟨by simp only [isWhitespace, decide_eq_false_iff_not]; omega, fun hmem => ?_⟩
    simp only [List.mem_cons, List.not_mem_nil, or_false] at hmem
    rcases hmem with rfl | rfl <;> revert hlo hhi <;> decide
  refine field_of_forall fun c hc => ?_
  rw [String.toList_append] at hc
  rcases List.mem_append.mp hc with hc | hc
  · exact hpre c hc
  · rw [Nat.toList_repr] at hc
    exact hdigit c (Nat.isDigit_of_mem_toDigits (by decide) (by decide) hc)

theorem field_auth (h : AuthValue v) : Field [';', '|'] ("auth=" ++ v) := by
  have hpre : ∀ sep ∈ [';', '|'], sep ∉ "auth=".toList := by simp
  constructor
  · rw [String.toList_append]
    constructor
    · intro a ha
      obtain rfl : 'a' = a := Option.some.inj ha
      decide
    · intro a ha
      rw [Option.mem_def, List.getLast?_append] at ha
      cases hl : v.toList.getLast? with
      | some b =>
        rw [hl] at ha
        exact h.trimmed a (hl.trans ha)
      | none =>
        rw [hl] at ha
        obtain rfl : '=' = a := Option.some.inj ha
        decide
  · intro sep hsep hmem
    rw [String.toList_append] at hmem
    rcases List.mem_append.mp hmem with hmem | hmem
    · exact hpre sep hsep hmem
    · exact h.free sep hsep hmem

/-- A text of digits has no sign. -/
theorem dropPlus_of_parseNat {cs : List Char} {n : Nat} (h : parseNat cs = some n) : dropPlus cs = cs := by
  unfold dropPlus
  split
  · simp [parseNat] at h
  · rfl

theorem parseU64_repr {n : Nat} (h : n < 2 ^ 64) : parseU64 n.repr = some n := by
  have hparse := parseNat_toList_repr n
  unfold parseU64
  rw [dropPlus_of_parseNat hparse, hparse]
  simpa using h

namespace HttpAdapterConfig.WellFormed

theorem parts_field (h : c.WellFormed) : ∀ p ∈ c.parts, Field [';', '|'] p ∧ p ≠ "" := by
  have htools : Field [';', '|'] (joinWith ',' (c.tools.map ToolAdapterTool.name)) := by
    refine field_joinWith (by decide) (List.forall_mem_map.mpr fun t ht => ?_)
    obtain ⟨hfield, hne, -⟩ := h.tools.2 t ht
    exact ⟨⟨hfield.trimmed, fun sep hsep => hfield.free sep (by simp at hsep ⊢; tauto)⟩, hne⟩
  have hnames : joinWith ',' (c.tools.map ToolAdapterTool.name) ≠ "" := by
    refine joinWith_ne (by simpa using h.tools.1) (List.forall_mem_map.mpr fun t ht => (h.tools.2 t ht).2.1)
  intro p hp
  unfold HttpAdapterConfig.parts at hp
  simp only [List.cons_append, List.nil_append, List.mem_cons, List.mem_append, Option.mem_toList,
    Option.map_eq_some_iff, List.not_mem_nil, or_false] at hp
  rcases hp with rfl | rfl | rfl | ⟨v, hv, rfl⟩ | rfl
  · exact h.name
  · exact h.baseUrl
  · exact ⟨htools, hnames⟩
  · exact ⟨field_auth (h.auth v hv), by simp⟩
  · exact ⟨field_timeout _, by simp⟩

/-- The options that are written are read back. -/
theorem options (h : c.WellFormed) :
    ((c.authHeader.map fun v => "auth=" ++ v).toList ++ ["timeout=" ++ c.timeoutSecs.repr]).foldl applyOption
      (none, 15) = (c.authHeader, c.timeoutSecs) := by
  have hauth : ∀ o v, applyOption o ("auth=" ++ v) = (some v, o.2) := by
    intro o v
    have hstrip : stripPrefix "auth=" ("auth=" ++ v) = some v := stripPrefix_eq_some.mpr rfl
    unfold applyOption
    rw [hstrip]
  have htimeout : ∀ o, applyOption o ("timeout=" ++ c.timeoutSecs.repr) = (o.1, c.timeoutSecs) := by
    intro o
    have hstrip : stripPrefix "timeout=" ("timeout=" ++ c.timeoutSecs.repr) = some c.timeoutSecs.repr :=
      stripPrefix_eq_some.mpr rfl
    have hnone : stripPrefix "auth=" ("timeout=" ++ c.timeoutSecs.repr) = none := by
      unfold stripPrefix
      rw [String.toList_append, if_neg (by simp)]
    unfold applyOption
    rw [hnone, hstrip]
    dsimp only
    rw [parseU64_repr h.timeout]
    rfl
  cases c.authHeader with
  | none => exact htimeout _
  | some v =>
    show applyOption (applyOption (none, 15) ("auth=" ++ v)) _ = _
    rw [hauth, htimeout]

theorem parse_render (h : c.WellFormed) : parseOneHttpAdapter c.render = some c := by
  have hparts : splitTrim '|' c.render = c.parts :=
    splitTrim_joinWith (by simp [HttpAdapterConfig.parts]) fun p hp =>
      ⟨(h.parts_field p hp).1.trimmed, (h.parts_field p hp).1.free '|' (by simp)⟩
  have hnames : splitTrim ',' (joinWith ',' (c.tools.map ToolAdapterTool.name)) = c.tools.map ToolAdapterTool.name := by
    refine splitTrim_joinWith (by simpa using h.tools.1) (List.forall_mem_map.mpr fun t ht => ?_)
    exact ⟨(h.tools.2 t ht).1.trimmed, (h.tools.2 t ht).1.free ',' (by simp)⟩
  have htools : ((c.tools.map ToolAdapterTool.name).filter fun t => t ≠ "").map (externalTool c.baseUrl) = c.tools := by
    have hall : ((c.tools.map ToolAdapterTool.name).filter fun t => t ≠ "") = c.tools.map ToolAdapterTool.name :=
      List.filter_eq_self.mpr (List.forall_mem_map.mpr fun t ht => decide_eq_true (h.tools.2 t ht).2.1)
    rw [hall, List.map_map]
    exact (List.map_congr_left fun t ht => ((h.tools.2 t ht).2.2).symm).trans (List.map_id c.tools)
  unfold parseOneHttpAdapter
  rw [hparts]
  unfold HttpAdapterConfig.parts
  dsimp only [List.cons_append, List.nil_append]
  rw [if_neg (not_or.mpr ⟨h.name.2, h.baseUrl.2⟩), hnames, htools, if_neg h.tools.1, h.options]

end HttpAdapterConfig.WellFormed

/-- **Well formed configurations are read back.** -/
theorem parse_render {cfgs : List HttpAdapterConfig} (h : ∀ c ∈ cfgs, c.WellFormed) :
    parseHttpAdapters (renderHttpAdapters cfgs) = cfgs := by
  by_cases hnil : cfgs = []
  · rw [hnil]
    decide
  · have hentry : ∀ e ∈ cfgs.map HttpAdapterConfig.render, Field [';'] e ∧ e ≠ "" := by
      refine List.forall_mem_map.mpr fun c hc => ⟨?_, ?_⟩
      · refine field_joinWith (by decide) fun p hp => ?_
        obtain ⟨hfield, hne⟩ := (h c hc).parts_field p hp
        exact ⟨⟨hfield.trimmed, fun sep hsep => hfield.free sep (by simp at hsep ⊢; tauto)⟩, hne⟩
      · exact joinWith_ne (by simp [HttpAdapterConfig.parts]) fun p hp => ((h c hc).parts_field p hp).2
    have hsplit : splitTrim ';' (renderHttpAdapters cfgs) = cfgs.map HttpAdapterConfig.render :=
      splitTrim_joinWith (by simpa using hnil) fun e he => ⟨(hentry e he).1.trimmed, (hentry e he).1.free ';' (by simp)⟩
    have hall : (cfgs.map HttpAdapterConfig.render).filter (fun e => e ≠ "") = cfgs.map HttpAdapterConfig.render :=
      List.filter_eq_self.mpr fun e he => decide_eq_true (hentry e he).2
    have hread : cfgs.filterMap (parseOneHttpAdapter ∘ HttpAdapterConfig.render) = cfgs.filterMap some := by
      refine List.filterMap_congr fun c hc => ?_
      rw [Function.comp_apply, (h c hc).parse_render]
    unfold parseHttpAdapters
    rw [hsplit, hall, List.filterMap_map, hread, List.filterMap_some]

/-- Entries are read one by one, whatever stands before and behind them. -/
theorem parseHttpAdapters_append (s t : String) :
    parseHttpAdapters (s ++ ";" ++ t) = parseHttpAdapters s ++ parseHttpAdapters t := by
  have hlist : (s ++ ";" ++ t).toList = s.toList ++ ';' :: t.toList := by
    rw [String.toList_append, String.toList_append, List.append_assoc]
    rfl
  have hsplit : splitTrim ';' (s ++ ";" ++ t) = splitTrim ';' s ++ splitTrim ';' t := by
    unfold splitTrim
    rw [hlist, pieces_append, List.map_append]
  unfold parseHttpAdapters
  rw [hsplit, List.filter_append, List.filterMap_append]

/-- **The format of the adapters.** A list of configurations is read back from what is written for it exactly if all of
them are well formed; no others are ever read; and an entry is read the same whatever the other entries are. -/
theorem http_adapters_round_trip :
    (∀ cfgs, parseHttpAdapters (renderHttpAdapters cfgs) = cfgs ↔ ∀ c ∈ cfgs, c.WellFormed) ∧
      (∀ s, ∀ c ∈ parseHttpAdapters s, c.WellFormed) ∧
      ∀ s t, parseHttpAdapters (s ++ ";" ++ t) = parseHttpAdapters s ++ parseHttpAdapters t :=
  ⟨fun _ => ⟨fun h _ hc => wellFormed_of_parse (h ▸ hc), parse_render⟩, fun _ _ hc => wellFormed_of_parse hc,
    parseHttpAdapters_append⟩

end Fixus
