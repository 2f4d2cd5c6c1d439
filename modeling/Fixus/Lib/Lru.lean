import Fixus.Lib.Table

/-!
# Caches that evict the least recently used key

A map with an order of use, the least recently used key first. A value is loaded in two phases: `enter` puts it into the
map, `finish` gives its key a place in the order and evicts what is too much. Keys between the two phases are busy.

- `evict_eq`, `mem_finish`: what is evicted is the front of the order;
- `Ok`: the invariant, with one rule for each operation; `Ok.atRest` is what it says when no key is busy;
- `Recent`: the order follows the last uses, so `Recent.evicted` was not used since any key that stays.
-/

namespace Lib

/-- A map with a capacity and an order of use. -/
structure Lru (κ ν : Type*) [DecidableEq κ] where
  map : Finmap fun _ : κ => ν := ∅
  order : List κ := []
  cap : Nat

namespace Lru

variable {κ ν : Type*} [DecidableEq κ]

/-- A hit moves the key to the back of the order. -/
def get (c : Lru κ ν) (k : κ) : Option ν × Lru κ ν :=
  match c.map.lookup k with
  | some v => (some v, { c with order := c.order.filter (· ≠ k) ++ [k] })
  | none => (none, c)

/-- The first phase of a load: a new entry, unless there is one. -/
def enter (c : Lru κ ν) (k : κ) (v : ν) : Lru κ ν :=
  match c.map.lookup k with
  | some _ => c
  | none => { c with map := c.map.insert k v }

def invalidate (c : Lru κ ν) (k : κ) : Lru κ ν :=
  { c with map := c.map.erase k, order := c.order.filter (· ≠ k) }

/-- Drop keys from the front of the order until no more than the capacity are left. -/
def evict (cap : Nat) : List κ → (Finmap fun _ : κ => ν) → List κ × Finmap fun _ : κ => ν
  | [], map => ([], map)
  | old :: rest, map => if (old :: rest).length > cap then evict cap rest (map.erase old) else (old :: rest, map)

/-- The second phase of a load: the key is the most recently used one. -/
def finish (c : Lru κ ν) (k : κ) : Lru κ ν :=
  let (order, map) := evict c.cap (c.order ++ [k]) c.map
  { c with order, map }

/-- The keys that the second phase evicts. -/
def victims (c : Lru κ ν) (k : κ) : List κ := (c.order ++ [k]).take (c.order.length + 1 - c.cap)

variable {c : Lru κ ν} {k k' : κ} {v v' : ν} {busy : κ → Prop}

/-! ## What the operations do -/

theorem get_eq (c : Lru κ ν) (k : κ) : (c.get k).1 = c.map.lookup k ∧ (c.get k).2.map = c.map ∧
    (c.get k).2.cap = c.cap ∧
    (c.get k).2.order = if (c.map.lookup k).isSome then c.order.filter (· ≠ k) ++ [k] else c.order := by
  unfold get
  cases c.map.lookup k <;> simp

@[simp] theorem get_map : (c.get k).2.map = c.map := (get_eq c k).2.1

@[simp] theorem get_cap : (c.get k).2.cap = c.cap := (get_eq c k).2.2.1

@[simp] theorem get_value : (c.get k).1 = c.map.lookup k := (get_eq c k).1

/-- Entering a key makes it present and leaves the others alone. -/
theorem mem_enter : k' ∈ (c.enter k v).map ↔ k' = k ∨ k' ∈ c.map := by
  unfold enter
  cases hl : c.map.lookup k with
  | none => exact Finmap.mem_insert
  | some w =>
    have hk : k ∈ c.map := Finmap.mem_of_lookup_eq_some hl
    exact ⟨Or.inr, fun h => h.elim (fun h => h ▸ hk) id⟩

/-- Entering a key leaves the values that are there alone. -/
theorem lookup_enter (h : c.map.lookup k' = some v') : (c.enter k v).map.lookup k' = some v' := by
  unfold enter
  cases hl : c.map.lookup k with
  | some w => exact h
  | none =>
    have hne : k' ≠ k := fun he => by
      rw [he, hl] at h
      cases h
    exact (Finmap.lookup_insert_of_ne _ hne).trans h

theorem mem_invalidate : k' ∈ (c.invalidate k).map ↔ k' ≠ k ∧ k' ∈ c.map := Finmap.mem_erase

/-- What is evicted is the front of the order. -/
theorem evict_eq (cap : Nat) (order : List κ) (map : Finmap fun _ : κ => ν) : evict cap order map =
    (order.drop (order.length - cap), (order.take (order.length - cap)).foldl (fun m k => m.erase k) map) := by
  induction order generalizing map with
  | nil => simp [evict]
  | cons old rest ih =>
    unfold evict
    by_cases hlen : (old :: rest).length > cap
    · have hsub : (old :: rest).length - cap = (rest.length - cap) + 1 := by
        simp only [List.length_cons] at hlen ⊢
        omega
      rw [if_pos hlen, ih, hsub]
      rfl
    · have hsub : (old :: rest).length - cap = 0 := by omega
      rw [if_neg hlen, hsub]
      rfl

theorem lookup_foldl_erase (ks : List κ) (map : Finmap fun _ : κ => ν) :
    (ks.foldl (fun m k => m.erase k) map).lookup k = if k ∈ ks then none else map.lookup k := by
  induction ks generalizing map with
  | nil => simp
  | cons a ks ih =>
    rw [List.foldl_cons, ih]
    by_cases hk : k ∈ ks
    · simp [hk]
    · by_cases ha : k = a
      · subst ha; simp
      · simp [hk, ha, Finmap.lookup_erase_ne ha]

theorem finish_eq (c : Lru κ ν) (k : κ) : (c.finish k).order = (c.order ++ [k]).drop (c.order.length + 1 - c.cap) ∧
    (c.finish k).map = (c.victims k).foldl (fun m k => m.erase k) c.map ∧ (c.finish k).cap = c.cap := by
  unfold finish victims
  rw [evict_eq, List.length_append, List.length_singleton]
  exact ⟨rfl, rfl, rfl⟩

/-- The entries after a load but for the evicted ones are those before. -/
theorem lookup_finish : (c.finish k).map.lookup k' = if k' ∈ c.victims k then none else c.map.lookup k' := by
  rw [(finish_eq c k).2.1, lookup_foldl_erase]

theorem mem_finish : k' ∈ (c.finish k).map ↔ k' ∉ c.victims k ∧ k' ∈ c.map := by
  rw [← Finmap.lookup_isSome, lookup_finish, ← Finmap.lookup_isSome]
  by_cases h : k' ∈ c.victims k <;> simp [h]

/-! ## The invariant -/

/-- Every key has one place in the order, but for the busy ones; and the order fits. -/
structure Ok (c : Lru κ ν) (busy : κ → Prop) : Prop where
  nodup : c.order.Nodup
  mem_order : ∀ k, k ∈ c.order ↔ k ∈ c.map ∧ ¬ busy k
  busy_mem : ∀ k, busy k → k ∈ c.map
  length : c.order.length ≤ c.cap

namespace Ok

theorem congr {busy' : κ → Prop} (h : c.Ok busy) (hb : ∀ k, busy' k ↔ busy k) : c.Ok busy' :=
  ⟨h.nodup, fun k => by rw [hb]; exact h.mem_order k, fun k hk => h.busy_mem k ((hb k).mp hk), h.length⟩

/-- A hit on a key that is not busy. -/
theorem get (h : c.Ok busy) (hk : k ∈ c.map → ¬ busy k) : (c.get k).2.Ok busy := by
  unfold Lru.get
  cases hl : c.map.lookup k with
  | none => exact h
  | some v =>
    have hmem : k ∈ c.map := Finmap.mem_of_lookup_eq_some hl
    have hin : k ∈ c.order := (h.mem_order k).mpr ⟨hmem, hk hmem⟩
    have hnew : k ∉ c.order.filter (· ≠ k) := by simp
    refine ⟨(h.nodup.filter _).append (List.nodup_singleton k) (List.disjoint_singleton.mpr hnew), fun k' => ?_,
      h.busy_mem, ?_⟩
    · rw [← h.mem_order k']
      by_cases hk' : k' = k <;> simp_all
    · have hlt : (c.order.filter (· ≠ k)).length < c.order.length :=
        List.length_filter_lt_length_iff_exists.mpr ⟨k, hin, by simp⟩
      have := h.length
      simp only [List.length_append, List.length_singleton]
      omega

/-- The first phase of a load of a key that is not there. -/
theorem enter (h : c.Ok busy) (hk : k ∉ c.map) (v : ν) : (c.enter k v).Ok fun k' => k' = k ∨ busy k' := by
  have hnone : c.map.lookup k = none := Finmap.lookup_eq_none.mpr hk
  unfold Lru.enter
  rw [hnone]
  refine ⟨h.nodup, fun k' => ?_, fun k' hk' => ?_, h.length⟩
  · rw [h.mem_order k', Finmap.mem_insert]
    by_cases he : k' = k
    · subst he; simp [hk]
    · simp [he]
  · exact Finmap.mem_insert.mpr (hk'.imp id (h.busy_mem k'))

theorem invalidate (h : c.Ok busy) (hk : k ∈ c.map → ¬ busy k) : (c.invalidate k).Ok busy := by
  have hb : ¬ busy k := fun hb => hk (h.busy_mem k hb) hb
  refine ⟨h.nodup.filter _, fun k' => ?_, fun k' hk' => ?_, (List.length_filter_le _ _).trans h.length⟩
  · have hm := h.mem_order k'
    unfold Lru.invalidate
    simp only [List.mem_filter, decide_eq_true_eq, Finmap.mem_erase]
    rw [hm]
    tauto
  · exact mem_invalidate.mpr ⟨fun e => hb (e ▸ hk'), h.busy_mem k' hk'⟩

/-- The second phase of a load. -/
theorem finish (h : c.Ok busy) (hk : busy k) : (c.finish k).Ok fun k' => busy k' ∧ k' ≠ k := by
  have hnot : k ∉ c.order := fun hm => ((h.mem_order k).mp hm).2 hk
  have hnodup : (c.order ++ [k]).Nodup :=
    h.nodup.append (List.nodup_singleton k) (List.disjoint_singleton.mpr hnot)
  have hsplit : c.victims k ++ (c.order ++ [k]).drop (c.order.length + 1 - c.cap) = c.order ++ [k] :=
    List.take_append_drop _ _
  have hdisj : ∀ a ∈ c.victims k, a ∉ (c.order ++ [k]).drop (c.order.length + 1 - c.cap) := by
    rw [← hsplit] at hnodup
    exact fun a ha hd => (List.disjoint_of_nodup_append hnodup) ha hd
  have hmem : ∀ a, a ∈ c.order ++ [k] ↔ a ∈ c.map ∧ ¬ (busy a ∧ a ≠ k) := by
    intro a
    rw [List.mem_append, List.mem_singleton, h.mem_order]
    by_cases ha : a = k
    · subst ha; simp [h.busy_mem a hk]
    · simp [ha]
  refine ⟨?_, fun a => ?_, fun a ha => ?_, ?_⟩
  · rw [(finish_eq c k).1]
    exact hnodup.sublist (List.drop_sublist _ _)
  · rw [(finish_eq c k).1, mem_finish]
    constructor
    · intro ha
      obtain ⟨hm, hb⟩ := (hmem a).mp (List.mem_of_mem_drop ha)
      exact ⟨⟨fun hv => hdisj a hv ha, hm⟩, hb⟩
    · rintro ⟨⟨hv, hm⟩, hb⟩
      have hin := (hmem a).mpr ⟨hm, hb⟩
      rw [← hsplit] at hin
      exact (List.mem_append.mp hin).resolve_left hv
  · refine mem_finish.mpr ⟨fun hv => ?_, h.busy_mem a ha.1⟩
    exact ((hmem a).mp (List.mem_of_mem_take hv)).2 ha
  · rw [(finish_eq c k).1, (finish_eq c k).2.2, List.length_drop, List.length_append, List.length_singleton]
    omega

/-- **With no busy key the order lists the keys of the map, each once, and the map is within its capacity.** -/
theorem atRest (h : c.Ok busy) (hrest : ∀ k, ¬ busy k) :
    c.order.Nodup ∧ c.order.toFinset = c.map.keys ∧ c.map.keys.card ≤ c.cap := by
  have hset : c.order.toFinset = c.map.keys := by
    ext k
    rw [List.mem_toFinset, Finmap.mem_keys, h.mem_order]
    exact and_iff_left (hrest k)
  refine ⟨h.nodup, hset, ?_⟩
  rw [← hset, List.toFinset_card_of_nodup h.nodup]
  exact h.length

end Ok

/-! ## Recency -/

/-- The order of use follows the last uses, the most recent use coming first in `uses`. -/
structure Recent (uses order : List κ) : Prop where
  pairwise : order.Pairwise fun a b => uses.idxOf b < uses.idxOf a
  mem : ∀ a ∈ order, a ∈ uses

namespace Recent

variable {uses order : List κ}

/-- A key that is used moves to the back. -/
theorem use (h : Recent uses order) (k : κ) : Recent (k :: uses) (order.filter (· ≠ k) ++ [k]) := by
  have hne : ∀ a ∈ order.filter (· ≠ k), (k :: uses).idxOf a = uses.idxOf a + 1 := by
    intro a ha
    have hak : a ≠ k := by simpa using (List.mem_filter.mp ha).2
    exact List.idxOf_cons_ne _ (Ne.symm hak)
  constructor
  · rw [List.pairwise_append]
    refine ⟨?_, List.pairwise_singleton _ _, fun a ha b hb => ?_⟩
    · refine (h.pairwise.filter _).imp_of_mem fun {a b} ha hb hlt => ?_
      rw [hne a ha, hne b hb]
      omega
    · rw [List.mem_singleton.mp hb, hne a ha, List.idxOf_cons_self]
      omega
  · intro a ha
    rcases List.mem_append.mp ha with ha | ha
    · exact List.mem_cons_of_mem _ (h.mem a (List.mem_of_mem_filter ha))
    · rw [List.mem_singleton.mp ha]
      exact List.mem_cons_self

theorem sublist {order' : List κ} (h : Recent uses order) (hs : order'.Sublist order) : Recent uses order' :=
  ⟨h.pairwise.sublist hs, fun a ha => h.mem a (hs.subset ha)⟩

/-- A key without a place in the order gets the last one. -/
theorem push (h : Recent uses order) (hk : k ∉ order) : Recent (k :: uses) (order ++ [k]) := by
  have hfilter : order.filter (· ≠ k) = order :=
    List.filter_eq_self.mpr fun a ha => by
      have hne : a ≠ k := fun e => hk (e ▸ ha)
      simpa using hne
  have huse := h.use k
  rwa [hfilter] at huse

/-- **What the second phase of a load evicts was used before every key that keeps its place.** -/
theorem evicted (h : Recent uses c.order) (hk : k ∉ c.order) {a b : κ} (ha : a ∈ c.victims k)
    (hb : b ∈ (c.finish k).order) : (k :: uses).idxOf b < (k :: uses).idxOf a := by
  have hpush := (h.push hk).pairwise
  rw [(finish_eq c k).1] at hb
  rw [← List.take_append_drop (c.order.length + 1 - c.cap) (c.order ++ [k]), List.pairwise_append] at hpush
  exact hpush.2.2 a ha b hb

end Recent

end Lru

end Lib
