import Mathlib.Data.List.Perm.Basic
import Mathlib.Data.List.Nodup

/-!
# What has begun and not ended

Two ways to ask a list of events what is open. One reads the events in order: a key is open if the last event that
begins or ends it begins it. The other knows no order: it takes the events that begin something and have no event
anywhere that ends the same, an anti-join. An event without a key ends nothing.

- `Open`, `unended`: the answers;
- `open_snoc`: what is open after one more event;
- `open_of_unended`: what has no end is open;
- `unended_perm_iff`: the answers are the same exactly if each open key began once and has never ended.
-/

namespace Lib.Unended

variable {ε κ β : Type*} [DecidableEq κ] (key : ε → Option κ) (begins ends : ε → Bool)

/-- The last event that begins or ends the key begins it. -/
def Open (events : List ε) (k : κ) : Prop :=
  ∃ e, (events.filter fun e => key e = some k && (begins e || ends e)).getLast? = some e ∧ begins e = true

/-- Some event ends the key. -/
def endedIn (events : List ε) (k : κ) : Bool := events.any fun e => ends e && key e = some k

/-- The events that begin something which no event ends. -/
def unended (events : List ε) : List ε :=
  events.filter fun e => begins e && !(key e).any (endedIn key ends events)

/-- The events that begin the key. -/
def beginsOf (events : List ε) (k : κ) : List ε := events.filter fun e => begins e && key e = some k

variable {key begins ends} {events : List ε} {keys : List κ} {k : κ}

theorem mem_unended {e : ε} (hk : key e = some k) :
    e ∈ unended key begins ends events ↔ e ∈ events ∧ begins e = true ∧ endedIn key ends events k = false := by
  simp [unended, hk]

theorem endedIn_eq_false : endedIn key ends events k = false ↔ ∀ e ∈ events, key e = some k → ends e = false := by
  unfold endedIn
  rw [List.any_eq_false]
  refine forall₂_congr fun e _ => ?_
  cases ends e <;> simp

/-- **What has no end is open.** -/
theorem open_of_unended {e : ε} (h : e ∈ unended key begins ends events) (hk : key e = some k) :
    Open key begins ends events k := by
  obtain ⟨hmem, hbegins, hend⟩ := (mem_unended hk).mp h
  have hmark : e ∈ events.filter fun e => key e = some k && (begins e || ends e) :=
    List.mem_filter.mpr ⟨hmem, by simp [hk, hbegins]⟩
  obtain ⟨last, hlast⟩ := Option.isSome_iff_exists.mp (List.getLast?_isSome.mpr (List.ne_nil_of_mem hmark))
  obtain ⟨hin, hlk⟩ := List.mem_filter.mp (List.mem_of_getLast? hlast)
  have hnot := endedIn_eq_false.mp hend last hin (by simp_all)
  exact ⟨last, hlast, by simp_all⟩

/-- What is open after one more event. -/
theorem open_snoc {e : ε} : Open key begins ends (events ++ [e]) k ↔
    if key e = some k ∧ (begins e = true ∨ ends e = true) then begins e = true else Open key begins ends events k := by
  unfold Open
  rw [List.filter_append]
  by_cases he : key e = some k ∧ (begins e = true ∨ ends e = true)
  · have hmark : [e].filter (fun e => key e = some k && (begins e || ends e)) = [e] := by simp [he.1, he.2]
    rw [hmark, List.getLast?_concat, if_pos he]
    exact ⟨fun ⟨e', heq, hb⟩ => Option.some.inj heq ▸ hb, fun hb => ⟨e, rfl, hb⟩⟩
  · have hmark : [e].filter (fun e => key e = some k && (begins e || ends e)) = [] := by simpa using he
    rw [hmark, List.append_nil, if_neg he]

/-- Without an end, what begins the key has no end. -/
theorem filter_unended (h : endedIn key ends events k = false) :
    ((unended key begins ends events).filter fun e => key e = some k) = beginsOf key begins events k := by
  unfold unended beginsOf
  rw [List.filter_filter]
  refine List.filter_congr fun e _ => ?_
  by_cases hk : key e = some k <;> simp [hk, h]

section Answers

variable {g : κ → Option β} {h : ε → β} (keyOf : β → κ)

/-- Of different keys one has the answer for `k`. -/
theorem filter_answers (hkeys : keys.Nodup) (hg : ∀ k ∈ keys, ∃ b, g k = some b ∧ keyOf b = k) (hk : k ∈ keys) {b : β}
    (hb : g k = some b) : ((keys.filterMap g).filter fun b => keyOf b = k) = [b] := by
  have hsame : ((keys.filterMap g).filter fun b => keyOf b = k) = (keys.filter (· = k)).filterMap g := by
    rw [List.filter_filterMap, List.filterMap_filter]
    refine List.filterMap_congr fun k' hk' => ?_
    obtain ⟨b', hb', hof⟩ := hg k' hk'
    rw [hb']
    by_cases heq : k' = k <;> simp [hof, heq]
  rw [hsame, List.filter_eq, List.count_eq_one_of_mem hkeys hk]
  simp [hb]

/-- **The answers are the same exactly if each open key began once and has never ended**, and the answer for it is that
of its beginning. -/
theorem unended_perm_iff (hkeys : keys.Nodup) (hopen : ∀ k, k ∈ keys ↔ Open key begins ends events k)
    (hg : ∀ k ∈ keys, ∃ b, g k = some b ∧ keyOf b = k)
    (hh : ∀ e ∈ events, begins e = true → key e = some (keyOf (h e))) :
    (keys.filterMap g).Perm ((unended key begins ends events).map h) ↔
      ∀ k ∈ keys, endedIn key ends events k = false ∧ ∃ e, beginsOf key begins events k = [e] ∧ g k = some (h e) := by
  have hkey : ∀ e ∈ unended key begins ends events, key e = some (keyOf (h e)) := by
    intro e he
    obtain ⟨hmem, hbegins⟩ := List.mem_filter.mp he
    exact hh e hmem (by simp_all)
  constructor
  · intro hperm k hk
    obtain ⟨b, hb, hof⟩ := hg k hk
    -- the answer for the key is that of an event without an end
    obtain ⟨e, he, rfl⟩ := List.mem_map.mp (hperm.mem_iff.mp (List.mem_filterMap.mpr ⟨k, hk, hb⟩))
    have hek : key e = some k := hof ▸ hkey e he
    have hend := ((mem_unended hek).mp he).2.2
    refine ⟨hend, ?_⟩
    have hone : (beginsOf key begins events k).map h = [h e] := by
      have hfilter := hperm.filter fun b => keyOf b = k
      rw [filter_answers keyOf hkeys hg hk hb, List.filter_map] at hfilter
      have hsame : ((unended key begins ends events).filter ((fun b => decide (keyOf b = k)) ∘ h)) =
          beginsOf key begins events k := by
        rw [← filter_unended hend]
        refine List.filter_congr fun e' he' => ?_
        simp [hkey e' he']
      rw [hsame] at hfilter
      exact List.perm_singleton.mp hfilter.symm
    obtain ⟨e', hbegins, heq⟩ := List.map_eq_singleton_iff.mp hone
    exact ⟨e', hbegins, by rw [hb, heq]⟩
  · intro hall
    have hanswers : (unended key begins ends events).map h =
        ((unended key begins ends events).filterMap key).filterMap g := by
      rw [List.filterMap_filterMap, ← List.filterMap_eq_map]
      refine List.filterMap_congr fun e he => ?_
      have hek := hkey e he
      obtain ⟨-, e', hbegins, hge⟩ := hall _ ((hopen _).mpr (open_of_unended he hek))
      obtain ⟨hmem, hb, -⟩ := (mem_unended hek).mp he
      have hin : e ∈ beginsOf key begins events (keyOf (h e)) := List.mem_filter.mpr ⟨hmem, by simp [hb, hek]⟩
      rw [hbegins] at hin
      rw [hek, Option.bind_some, hge, List.mem_singleton.mp hin, Function.comp]
    rw [hanswers]
    refine List.Perm.filterMap g (List.perm_iff_count.mpr fun k => ?_)
    rw [List.count_filterMap, List.countP_eq_length_filter]
    have hbeq : (fun e => key e == some k) = fun e => decide (key e = some k) := by
      funext e
      exact beq_eq_decide _ _
    rw [hbeq]
    by_cases hk : k ∈ keys
    · obtain ⟨hend, e, hbegins, -⟩ := hall k hk
      rw [filter_unended hend, hbegins, List.count_eq_one_of_mem hkeys hk]
      rfl
    · rw [List.count_eq_zero_of_not_mem hk, eq_comm, List.length_eq_zero_iff, List.filter_eq_nil_iff]
      intro e he hek
      exact hk ((hopen k).mpr (open_of_unended he (of_decide_eq_true hek)))

end Answers

end Lib.Unended
