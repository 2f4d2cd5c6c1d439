import Fixus.Lib.Separated
import Mathlib.Data.List.DropRight

/-!
# Trimmed fields between separators

A text whose fields stand between separators; blanks at the ends of a field do not count.

- `trim`, `Trimmed`: a text without the blanks at its ends;
- `pieces`: the trimmed fields between the separators;
- `pieces_intercalate`: fields that are written with separators between them are read back;
- `mem_pieces`: no other field is ever read;
- `pieces_append`: what stands before a separator and what stands behind it are read apart;
- `append_sep_inj`: a text has one part before its last separator, and one behind it.
-/

namespace Lib

variable {α : Type*} {blank : α → Bool} {l f : List α} {fs : List (List α)}

/-! ## Blanks at the ends -/

/-- Neither the first nor the last one is blank. -/
def Trimmed (blank : α → Bool) (l : List α) : Prop :=
  (∀ a ∈ l.head?, blank a = false) ∧ ∀ a ∈ l.getLast?, blank a = false

instance Trimmed.decidable : Decidable (Trimmed blank l) :=
  inferInstanceAs (Decidable ((∀ a ∈ l.head?, blank a = false) ∧ ∀ a ∈ l.getLast?, blank a = false))

/-- Without the blanks at both ends. -/
def trim (blank : α → Bool) (l : List α) : List α := (l.dropWhile blank).rdropWhile blank

theorem Trimmed.trim_eq (h : Trimmed blank l) : trim blank l = l := by
  have hleft : l.dropWhile blank = l := by
    cases l with
    | nil => rfl
    | cons a l => exact List.dropWhile_cons_of_neg (by simp [h.1 a rfl])
  have hright : l.rdropWhile blank = l :=
    List.rdropWhile_eq_self_iff.mpr fun hl => by simp [h.2 _ (List.getLast?_eq_getLast_of_ne_nil hl)]
  rw [trim, hleft, hright]

theorem trimmed_trim (blank : α → Bool) (l : List α) : Trimmed blank (trim blank l) := by
  constructor
  · intro a ha
    obtain ⟨rest, hrest⟩ : ∃ rest, trim blank l = a :: rest := by
      cases ht : trim blank l with
      | nil => rw [ht] at ha; cases ha
      | cons b rest =>
        rw [ht] at ha
        exact ⟨rest, by rw [Option.some.inj ha]⟩
    -- what is left begins as the part from the first one that is not blank
    obtain ⟨tail, htail⟩ : a :: rest <+: l.dropWhile blank := hrest ▸ List.rdropWhile_prefix blank _
    have hhead : (l.dropWhile blank).head? = some a := by rw [← htail]; rfl
    have hnot := List.head?_dropWhile_not blank l
    rw [hhead] at hnot
    simpa using hnot
  · intro a ha
    have hne : trim blank l ≠ [] := by
      intro hnil
      rw [hnil] at ha
      cases ha
    have hlast := List.rdropWhile_last_not blank (l.dropWhile blank) hne
    rw [List.getLast?_eq_getLast_of_ne_nil hne] at ha
    rw [← Option.some.inj ha]
    exact Bool.eq_false_iff.mpr hlast

/-- All of a trimmed text was there. -/
theorem mem_of_mem_trim {a : α} (h : a ∈ trim blank l) : a ∈ l := by
  have hleft : a ∈ l.dropWhile blank := (List.rdropWhile_prefix blank _).subset h
  exact (List.dropWhile_sublist blank).subset hleft

/-! ## Fields -/

variable [DecidableEq α] {sep : α}

/-- The trimmed fields between the separators. -/
def pieces (blank : α → Bool) (sep : α) (l : List α) : List (List α) := (l.splitOn sep).map (trim blank)

/-- No piece has a separator in it, and all of it was there. -/
theorem mem_of_mem_splitOn (h : f ∈ l.splitOn sep) : sep ∉ f ∧ f ⊆ l := by
  induction l generalizing f with
  | nil =>
    rw [List.splitOn_nil, List.mem_singleton] at h
    simp [h]
  | cons a l ih =>
    rw [List.splitOn_cons_eq_if_modifyHead] at h
    split at h
    · rcases List.mem_cons.mp h with rfl | h
      · simp
      · exact ⟨(ih h).1, List.subset_cons_of_subset a (ih h).2⟩
    · rename_i ha
      obtain ⟨first, rest, hsplit⟩ := List.exists_cons_of_ne_nil (List.splitOn_ne_nil sep l)
      rw [hsplit, List.modifyHead_cons] at h
      rw [hsplit] at ih
      rcases List.mem_cons.mp h with rfl | h
      · obtain ⟨hsep, hsub⟩ := ih List.mem_cons_self
        refine ⟨fun hmem => ?_, List.cons_subset_cons a hsub⟩
        rcases List.mem_cons.mp hmem with rfl | hmem
        · simp at ha
        · exact hsep hmem
      · obtain ⟨hsep, hsub⟩ := ih (List.mem_cons_of_mem _ h)
        exact ⟨hsep, List.subset_cons_of_subset a hsub⟩

/-- A field is trimmed, has no separator in it, and all of it was there. -/
theorem mem_pieces (h : f ∈ pieces blank sep l) : Trimmed blank f ∧ sep ∉ f ∧ f ⊆ l := by
  obtain ⟨piece, hpiece, rfl⟩ := List.mem_map.mp h
  obtain ⟨hsep, hsub⟩ := mem_of_mem_splitOn hpiece
  exact ⟨trimmed_trim blank piece, fun hmem => hsep (mem_of_mem_trim hmem), fun a ha => hsub (mem_of_mem_trim ha)⟩

/-- **Fields with separators between them are read back.** -/
theorem pieces_intercalate (hne : fs ≠ []) (hfs : ∀ f ∈ fs, Trimmed blank f ∧ sep ∉ f) :
    pieces blank sep ([sep].intercalate fs) = fs := by
  rw [pieces, List.splitOn_intercalate sep (fun f hf => (hfs f hf).2) hne]
  exact (List.map_congr_left fun f hf => (hfs f hf).1.trim_eq).trans (List.map_id fs)

theorem pieces_append (l r : List α) : pieces blank sep (l ++ sep :: r) = pieces blank sep l ++ pieces blank sep r := by
  rw [pieces, List.splitOn_append_cons_self, List.map_append]
  rfl

/-! ## What is written -/

omit [DecidableEq α]

/-- A text has one part before its last separator, and one behind it. -/
theorem append_sep_inj {l l' r r' : List α} (hr : sep ∉ r) (hr' : sep ∉ r')
    (h : l ++ sep :: r = l' ++ sep :: r') : l = l' ∧ r = r' := by
  rcases List.append_eq_append_iff.mp h with ⟨m, rfl, hm⟩ | ⟨m, rfl, hm⟩
  · cases m with
    | nil => exact ⟨(List.append_nil l).symm, (List.cons.inj hm).2⟩
    | cons a m =>
      obtain ⟨-, hmid⟩ := List.cons.inj hm
      exact absurd (by rw [hmid]; simp) hr
  · cases m with
    | nil => exact ⟨List.append_nil l', ((List.cons.inj hm).2).symm⟩
    | cons a m =>
      obtain ⟨-, hmid⟩ := List.cons.inj hm
      exact absurd (by rw [hmid]; simp) hr'

theorem mem_intercalate {a : α} (h : a ∈ [sep].intercalate fs) : a = sep ∨ ∃ f ∈ fs, a ∈ f := by
  cases fs with
  | nil => cases h
  | cons f fs =>
    rw [Separated.intercalate_cons, List.mem_append, List.mem_flatMap] at h
    rcases h with h | ⟨g, hg, h⟩
    · exact Or.inr ⟨f, List.mem_cons_self, h⟩
    · rcases List.mem_cons.mp h with h | h
      · exact Or.inl h
      · exact Or.inr ⟨g, List.mem_cons_of_mem _ hg, h⟩

theorem intercalate_ne_nil (hne : fs ≠ []) (hfs : ∀ f ∈ fs, f ≠ []) : [sep].intercalate fs ≠ [] := by
  obtain ⟨f, fs, rfl⟩ := List.exists_cons_of_ne_nil hne
  rw [Separated.intercalate_cons]
  exact List.append_ne_nil_of_left_ne_nil (hfs f List.mem_cons_self) _

/-- Trimmed fields leave the whole trimmed. -/
theorem trimmed_intercalate (hfs : ∀ f ∈ fs, f ≠ [] ∧ Trimmed blank f) : Trimmed blank ([sep].intercalate fs) := by
  constructor
  · cases fs with
    | nil => simp
    | cons f fs =>
      obtain ⟨hne, htrimmed⟩ := hfs f List.mem_cons_self
      rw [Separated.intercalate_cons, List.head?_append_of_ne_nil _ hne]
      exact htrimmed.1
  · induction fs with
    | nil => simp
    | cons f fs ih =>
      have hrest := ih fun g hg => hfs g (List.mem_cons_of_mem _ hg)
      by_cases hnil : fs = []
      · rw [hnil, List.intercalate_singleton]
        exact (hfs f List.mem_cons_self).2.2
      · have hne : [sep].intercalate fs ≠ [] :=
          intercalate_ne_nil hnil fun g hg => (hfs g (List.mem_cons_of_mem _ hg)).1
        rw [List.intercalate_cons_of_ne_nil hnil, List.getLast?_append_of_ne_nil _ hne]
        exact hrest

end Lib
