import Fixus.ToolCatalog.Catalog
import Fixus.ToolsBank.PendingCalls

/-!
# Nested timeouts

The sandbox gets a shorter timeout than the caller waits, by a margin and not below a floor.

- `Nested`: both are computed without overflow and the sandbox ends first;
- `nested_iff`: for which timeouts of a tool this is so;
- `timeouts_nested_iff`: for the tools of the catalog, whose timeouts the adapter finds by name.
-/

namespace Fixus.ToolCatalog

/-- A tool as the adapter looks its timeout up. -/
def ToolSpec.timed (spec : ToolSpec) : Fixus.ToolSpec where
  name := spec.name
  defaultTimeoutSecs := spec.defaultTimeoutSecs

/-- How long a call waits for its result, in milliseconds. -/
def waitMs (timeoutSecs : Nat) : Nat := timeoutSecs * 1000

/-- The timeout of the sandbox in arithmetic without bound, in milliseconds. -/
def sandboxTimeoutMs (timeoutSecs : Nat) : Nat := max (timeoutSecs - 5) 5 * 1000

/-- Nothing overflows, and the timeout of the message is shorter than the wait. -/
def Nested (timeoutSecs : Nat) : Prop :=
  timeoutSecs < 2 ^ 64 ∧ sandboxTimeoutMs timeoutSecs < 2 ^ 64 ∧
    ∀ taskId toolName toolCallId args key, ∃ ms : Nat,
      (sandboxPayload taskId toolName toolCallId args key timeoutSecs).get "timeout_ms" = some (.int ms) ∧
        ms < waitMs timeoutSecs

theorem get_timeout_ms (taskId toolName toolCallId : String) (args : Json) (key : String) (timeoutSecs : Nat) :
    (sandboxPayload taskId toolName toolCallId args key timeoutSecs).get "timeout_ms" =
      some (.int ((sandboxTimeoutMs timeoutSecs % 2 ^ 64 : Nat) : Int)) := by
  simp [sandboxPayload, Json.get, Json.getField, sandboxTimeoutMs]

/-- **From 6 seconds on the margin is left**, up to the largest timeout whose milliseconds fit. -/
theorem nested_iff (timeoutSecs : Nat) : Nested timeoutSecs ↔ 6 ≤ timeoutSecs ∧ timeoutSecs ≤ 18446744073709556 := by
  constructor
  · rintro ⟨-, hfits, hall⟩
    obtain ⟨ms, hms, hlt⟩ := hall "" "" "" .null ""
    rw [get_timeout_ms, Nat.mod_eq_of_lt hfits] at hms
    have heq : sandboxTimeoutMs timeoutSecs = ms := Int.ofNat_inj.mp (Json.int.inj (Option.some.inj hms))
    unfold sandboxTimeoutMs waitMs at *
    omega
  · rintro ⟨hmin, hmax⟩
    have hfits : sandboxTimeoutMs timeoutSecs < 2 ^ 64 := by
      unfold sandboxTimeoutMs
      omega
    refine ⟨by omega, hfits, fun taskId toolName toolCallId args key => ?_⟩
    refine ⟨sandboxTimeoutMs timeoutSecs, ?_, ?_⟩
    · rw [get_timeout_ms, Nat.mod_eq_of_lt hfits]
    · unfold sandboxTimeoutMs waitMs
      omega

theorem nested_builtins : ∀ spec ∈ builtins, Nested spec.defaultTimeoutSecs := by
  have hall : ∀ t ∈ builtins.map ToolSpec.defaultTimeoutSecs, 6 ≤ t ∧ t ≤ 18446744073709556 := by decide
  exact fun spec hspec => (nested_iff _).mpr (hall _ (List.mem_map_of_mem hspec))

/-- The adapter finds the timeout of a tool that is found. -/
theorem defaultTimeout_timed {all : List ToolSpec} {name : String} {spec : ToolSpec} (h : find all name = some spec) :
    Fixus.defaultTimeout name (all.map ToolSpec.timed) = spec.defaultTimeoutSecs := by
  have hfind : (all.map ToolSpec.timed).find? (fun s => s.name = name) = some spec.timed := by
    rw [List.find?_map]
    exact congrArg (Option.map ToolSpec.timed) h
  unfold Fixus.defaultTimeout
  rw [hfind]
  rfl

/-- **The timeouts of a tool are nested, exactly if its own is at least 6 seconds and its milliseconds fit**; and the
adapter uses the timeout of the tool, for every tool of the merged catalog. -/
theorem timeouts_nested_iff {isWhitespace : Char → Bool} {fromStr : String → Except String (List ExtraToolRaw)}
    {tomlStr : String} {extras : List ToolSpec} (h : parseExtraCatalog isWhitespace fromStr tomlStr = .ok extras) :
    (∀ spec ∈ builtins ++ extras,
      Nested spec.defaultTimeoutSecs ↔ 6 ≤ spec.defaultTimeoutSecs ∧ spec.defaultTimeoutSecs ≤ 18446744073709556) ∧
      ∀ spec ∈ builtins ++ filterCollisions extras builtins,
        Fixus.defaultTimeout spec.name ((builtins ++ filterCollisions extras builtins).map ToolSpec.timed) =
          spec.defaultTimeoutSecs :=
  ⟨fun _ _ => nested_iff _, fun _ hspec => defaultTimeout_timed (find_of_nodup (nodup_catalog h) hspec)⟩

theorem timeouts_nested_cat :
    (∀ spec ∈ builtins ++ [catSpec],
      Nested spec.defaultTimeoutSecs ↔ 6 ≤ spec.defaultTimeoutSecs ∧ spec.defaultTimeoutSecs ≤ 18446744073709556) ∧
      ∀ spec ∈ builtins ++ filterCollisions [catSpec] builtins,
        Fixus.defaultTimeout spec.name ((builtins ++ filterCollisions [catSpec] builtins).map ToolSpec.timed) =
          spec.defaultTimeoutSecs :=
  timeouts_nested_iff parseExtraCatalog_cat

/-- A tool with a timeout of 5 seconds is accepted; the sandbox then has all the time of the wait. -/
theorem timeouts_not_nested : ¬ ∀ isWhitespace fromStr tomlStr extras,
    parseExtraCatalog isWhitespace fromStr tomlStr = .ok extras →
      ∀ spec ∈ builtins ++ extras, Nested spec.defaultTimeoutSecs := by
  intro hall
  have hnested : Nested 5 := hall _ _ _ _ parseExtraCatalog_cat catSpec (by simp)
  exact absurd ((nested_iff 5).mp hnested).1 (by decide)

end Fixus.ToolCatalog
