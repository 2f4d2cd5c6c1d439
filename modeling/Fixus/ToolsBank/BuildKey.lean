import Fixus.ToolsBank.CanonicalJson

/-!
# Keys of tool calls

The key under which a call is known, from the task, the tool and a hash of the arguments.

- `buildKey`: the key; the hash is a parameter;
- `Shifted`: the separator is also found in the task or in the tool;
- `buildKey_inj_iff`: calls with one key are the same call, exactly if the separator is not shifted between them;
- `buildKey_collision`: two tasks with one key.
-/

namespace Fixus

open Lib.Separated Json

/-- The first digits of the hash of the arguments. -/
def argsHash (sha256Hex : String → String) (serde : SerdeJson) (args : Json) : String :=
  String.ofList ((sha256Hex (canonicalJson serde args)).toList.take 16)

def buildKey (sha256Hex : String → String) (serde : SerdeJson) (taskId toolName : String) (args : Json) : String :=
  taskId ++ ":bank:" ++ toolName ++ ":" ++ argsHash sha256Hex serde args

/-- A part of the tool has gone to the task, with a separator; or a separator and a half are read from either end. -/
def Shifted (taskId toolName taskId' toolName' : String) : Prop :=
  (∃ part, taskId' = taskId ++ ":bank:" ++ part ∧ toolName = part ++ ":bank:" ++ toolName') ∨
    (taskId' = taskId ++ ":bank" ∧ toolName = "bank:" ++ toolName')

/-- The separator overlaps itself in the colon only. -/
theorem overlap_bank {w u v : List Char} (hw : w ≠ []) (hu : u ≠ []) (hwu : ":bank:".toList = w ++ u)
    (huv : ":bank:".toList = u ++ v) : w = ":bank".toList ∧ v = "bank:".toList := by
  have hpos := List.length_pos_iff.mpr hw
  have hpos' := List.length_pos_iff.mpr hu
  have hlen : w.length + u.length = 6 := by rw [← List.length_append, ← hwu]; rfl
  have hborder : ∀ k < 6, 0 < k → ":bank:".toList.drop k = ":bank:".toList.take (6 - k) → k = 5 := by decide
  have hk : w.length = 5 := by
    apply hborder w.length (by omega) hpos
    rw [hwu, List.drop_left, ← hwu, huv]
    have hsix : 6 - w.length = u.length := by omega
    rw [hsix, List.take_left]
  have hone : u.length = 1 := by omega
  constructor
  · have htake := congrArg (List.take 5) hwu
    rw [← hk, List.take_left, hk] at htake
    exact htake.symm
  · have hdrop := congrArg (List.drop 1) huv
    rw [← hone, List.drop_left, hone] at hdrop
    exact hdrop.symm

theorem moved_iff_shifted {t n t' n' : String} :
    Moved ":bank:".toList t.toList n.toList t'.toList n'.toList ↔ Shifted t n t' n' := by
  constructor
  · rintro (⟨z, ht, hn⟩ | ⟨w, u, v, hw, hu, hwu, huv, ht, hn⟩)
    · refine Or.inl ⟨String.ofList z, ?_, ?_⟩
      · apply String.toList_inj.mp
        rw [ht]
        simp
      · apply String.toList_inj.mp
        rw [hn]
        simp
    · obtain ⟨rfl, rfl⟩ := overlap_bank hw hu hwu huv
      refine Or.inr ⟨?_, ?_⟩
      · apply String.toList_inj.mp
        rw [ht, String.toList_append]
      · apply String.toList_inj.mp
        rw [hn, String.toList_append]
  · rintro (⟨part, rfl, rfl⟩ | ⟨rfl, rfl⟩)
    · exact Or.inl ⟨part.toList, by simp, by simp⟩
    · exact Or.inr ⟨":bank".toList, [':'], "bank:".toList, by decide, by decide, rfl, rfl, by simp, by simp⟩

/-- Task and tool with a separator between them. -/
theorem namespace_eq_iff {t n t' n' : String} : t ++ ":bank:" ++ n = t' ++ ":bank:" ++ n' ↔
    (t = t' ∧ n = n') ∨ Shifted t n t' n' ∨ Shifted t' n' t n := by
  have htext : t ++ ":bank:" ++ n = t' ++ ":bank:" ++ n' ↔
      t.toList ++ ":bank:".toList ++ n.toList = t'.toList ++ ":bank:".toList ++ n'.toList := by
    rw [← String.toList_inj]
    simp only [String.toList_append]
  rw [htext, append_sep_eq_iff, moved_iff_shifted, moved_iff_shifted, String.toList_inj, String.toList_inj]

section Keys

variable {sha256Hex : String → String} {serde : SerdeJson} {t t' n n' : String} {a b : Json}

/-- The hash is the last part, of a fixed length. -/
theorem buildKey_eq_iff (hlen : ∀ s, 16 ≤ (sha256Hex s).length) : buildKey sha256Hex serde t n a =
    buildKey sha256Hex serde t' n' b ↔
      t ++ ":bank:" ++ n = t' ++ ":bank:" ++ n' ∧ argsHash sha256Hex serde a = argsHash sha256Hex serde b := by
  have hhash : ∀ v, (argsHash sha256Hex serde v).toList.length = 16 := by
    intro v
    unfold argsHash
    rw [String.toList_ofList, List.length_take, String.length_toList]
    exact Nat.min_eq_left (hlen _)
  constructor
  · intro h
    have htext : ∀ s v, (s ++ ":" ++ argsHash sha256Hex serde v).toList =
        s.toList ++ [':'] ++ (argsHash sha256Hex serde v).toList := by simp
    have hl := congrArg String.toList h
    unfold buildKey at hl
    rw [htext, htext] at hl
    obtain ⟨hpre, hsuf⟩ := List.append_inj' hl ((hhash a).trans (hhash b).symm)
    rw [← String.toList_inj, ← String.toList_inj]
    exact ⟨List.append_cancel_right hpre, hsuf⟩
  · rintro ⟨hnamespace, hhash⟩
    unfold buildKey
    rw [hnamespace, hhash]

/-- A shift makes the task longer. -/
theorem Shifted.length_lt (h : Shifted t n t' n') : t.length < t'.length := by
  rcases h with ⟨part, rfl, -⟩ | ⟨rfl, -⟩
  · simp only [String.length_append]
    have hsep : ":bank:".length = 6 := rfl
    omega
  · simp only [String.length_append]
    have hsep : ":bank".length = 5 := rfl
    omega

/-- **Calls with one key are the same call exactly if there is no shift between them**, for calls whose arguments have
different hashes unless they have the same text. -/
theorem buildKey_inj_iff (hf : serde.WritesFloats) (hlen : ∀ s, 16 ≤ (sha256Hex s).length) (ha : Proper a)
    (hb : Proper b) (hinj : argsHash sha256Hex serde a = argsHash sha256Hex serde b →
      canonicalJson serde a = canonicalJson serde b) :
    (buildKey sha256Hex serde t n a = buildKey sha256Hex serde t' n' b → t = t' ∧ n = n' ∧ EqUpToOrder a b) ↔
      ¬ (EqUpToOrder a b ∧ (Shifted t n t' n' ∨ Shifted t' n' t n)) := by
  rw [buildKey_eq_iff hlen, namespace_eq_iff]
  constructor
  · rintro h ⟨hargs, hshift⟩
    have hhash : argsHash sha256Hex serde a = argsHash sha256Hex serde b := by
      unfold argsHash
      rw [canonicalJson_congr hargs ha hb]
    obtain ⟨rfl, rfl, -⟩ := h ⟨Or.inr hshift, hhash⟩
    rcases hshift with hshift | hshift <;> exact lt_irrefl _ hshift.length_lt
  · rintro hno ⟨hnamespace, hhash⟩
    have hargs := eqUpToOrder_of_canonicalJson hf ha hb (hinj hhash)
    rcases hnamespace with ⟨ht, hn⟩ | hshift
    · exact ⟨ht, hn, hargs⟩
    · exact absurd ⟨hargs, hshift⟩ hno

end Keys

/-- A hash for short texts: the text, filled up to the length. -/
def paddedHash (s : String) : String := s ++ String.ofList (List.replicate 64 '0')

theorem paddedHash_length (s : String) : 16 ≤ (paddedHash s).length := by
  unfold paddedHash
  rw [String.length_append, String.length_ofList, List.length_replicate]
  omega

/-- Two tasks without a separator in their names. -/
theorem buildKey_inj_two_tasks :
    (buildKey paddedHash .withFloats "t1" "fixus_bash" .null = buildKey paddedHash .withFloats "t2" "fixus_bash" .null →
      "t1" = "t2" ∧ "fixus_bash" = "fixus_bash" ∧ EqUpToOrder .null .null) ↔
    ¬ (EqUpToOrder .null .null ∧ (Shifted "t1" "fixus_bash" "t2" "fixus_bash" ∨
      Shifted "t2" "fixus_bash" "t1" "fixus_bash")) :=
  buildKey_inj_iff withFloats_writesFloats paddedHash_length .null .null fun _ => rfl

/-- The task of one call ends in a part of the tool of the other. -/
theorem buildKey_collision : ¬ ∀ t n t' n' : String,
    buildKey paddedHash .withFloats t n .null = buildKey paddedHash .withFloats t' n' .null →
      t = t' ∧ n = n' ∧ EqUpToOrder .null .null := by
  intro h
  have hkey : buildKey paddedHash .withFloats "task-1" "bank:fetch" .null =
      buildKey paddedHash .withFloats "task-1:bank" "fetch" .null := by
    refine (buildKey_eq_iff paddedHash_length).mpr ⟨?_, rfl⟩
    decide
  exact absurd (h _ _ _ _ hkey).1 (by decide)

end Fixus
