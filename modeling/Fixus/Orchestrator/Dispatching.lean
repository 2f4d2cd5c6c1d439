import Fixus.Orchestrator.Scheduling

/-!
# Whole runs of the dispatcher

The dispatcher against a ledger that remembers every turn ever entered, in order, and which of them have been handed
out.

- `popFirst_first`: nothing that stays in a queue goes before what is taken;
- `Kept.enqueue`, `Kept.tryPop_some`, `Kept.onTurnTerminal`: the queues hold what the ledger has pending;
- `dispatcher_follows_ledger`: every run of the dispatcher is a run of the ledger;
- `later_turn_first`: the number of an entry has 64 bits, and past them a later turn goes first.
-/

namespace Fixus

namespace PriEntry

theorem before_iff {a b : PriEntry} :
    a.before b = true ↔ b.priority < a.priority ∨ a.priority = b.priority ∧ a.seq < b.seq := by
  simp [before]

/-- What does not go before a goes before nothing that a goes before. -/
theorem not_before_trans {a b c : PriEntry} (hab : a.before b = false) (hbc : b.before c = false) :
    a.before c = false := by
  rw [Bool.eq_false_iff] at hab hbc ⊢
  intro hac
  rw [ne_eq, before_iff] at hab hbc
  rw [before_iff] at hac
  omega

theorem before_asymm {a b : PriEntry} (h : a.before b = true) : b.before a = false := by
  rw [Bool.eq_false_iff]
  intro hba
  rw [before_iff] at h hba
  omega

theorem popFirst_eq_none {es : List PriEntry} (h : popFirst es = none) : es = [] := by
  cases es with
  | nil => rfl
  | cons e es =>
    unfold popFirst at h
    cases hes : popFirst es with
    | none => simp [hes] at h
    | some r =>
      simp only [hes] at h
      split at h <;> cases h

/-- Nothing that stays goes before what is taken. -/
theorem popFirst_first {es rest : List PriEntry} {m : PriEntry} (h : popFirst es = some (m, rest)) :
    ∀ e ∈ rest, e.before m = false := by
  induction es generalizing m rest with
  | nil => cases h
  | cons e es ih =>
    unfold popFirst at h
    cases hes : popFirst es with
    | none =>
      simp only [hes, Option.some.injEq, Prod.mk.injEq] at h
      obtain ⟨-, rfl⟩ := h
      intro x hx
      cases hx
    | some r =>
      obtain ⟨m', rest'⟩ := r
      simp only [hes] at h
      split at h
      · rename_i hb
        simp only [Option.some.injEq, Prod.mk.injEq] at h
        obtain ⟨rfl, rfl⟩ := h
        have hm' := before_asymm hb
        intro x hx
        rcases List.mem_cons.mp ((popFirst_perm hes).mem_iff.mp hx) with rfl | hx
        · exact hm'
        · exact not_before_trans (ih hes x hx) hm'
      · rename_i hb
        simp only [Option.some.injEq, Prod.mk.injEq] at h
        obtain ⟨rfl, rfl⟩ := h
        intro x hx
        rcases List.mem_cons.mp hx with rfl | hx
        · simpa using hb
        · exact ih hes x hx

end PriEntry

/-! ## Operations and the ledger -/

/-- What may be asked of a dispatcher. -/
inductive DispatchOp where
  | enqueue (turn : QueuedTurn)
  | tryPop (taskType : String)
  | onTurnTerminal (taskType : String)

/-- The type an operation is about. -/
def DispatchOp.taskType : DispatchOp → String
  | .enqueue turn => turn.taskType
  | .tryPop tt => tt
  | .onTurnTerminal tt => tt

/-- Carry an operation out; only a pop hands out a turn. -/
def Dispatcher.exec (d : Dispatcher) : DispatchOp → Option QueuedTurn × Dispatcher
  | .enqueue turn => (none, d.enqueue turn)
  | .tryPop tt =>
    match d.tryPop tt with
    | some (turn, d') => (some turn, d')
    | none => (none, d)
  | .onTurnTerminal tt => (none, d.onTurnTerminal tt)

/-- The queue of a type; one never used is empty. -/
def Dispatcher.queue (d : Dispatcher) (tt : String) : TypeQueue := (d.queues.lookup tt).getD {}

/-- Every turn ever entered, in order, the places of those handed out, and the slots taken of each type. -/
structure TurnLedger where
  entered : List QueuedTurn := []
  popped : List Nat := []
  taken : String → Nat := fun _ => 0

namespace TurnLedger

/-- The places of the turns of a type that were entered and not handed out. -/
def pending (l : TurnLedger) (tt : String) : List Nat :=
  (List.range l.entered.length).filter fun i => i ∉ l.popped ∧ l.entered[i]?.map QueuedTurn.taskType = some tt

/-- Nothing pending of the type goes before the turn at the place; the order of entry breaks the ties if `fifo`. -/
def First (l : TurnLedger) (fifo : Prop) (tt : String) (i : Nat) (turn : QueuedTurn) : Prop :=
  i ∈ l.pending tt ∧ l.entered[i]? = some turn ∧
    ∀ j ∈ l.pending tt, ∀ other, l.entered[j]? = some other →
      other.priority ≤ turn.priority ∧ (fifo → other.priority = turn.priority → i ≤ j)

/-- What an operation should hand out, and the ledger after it. -/
inductive Step (maxConcurrent : Nat) (fifo : TurnLedger → Prop) (l : TurnLedger) :
    DispatchOp → Option QueuedTurn → TurnLedger → Prop
  | enqueue (turn : QueuedTurn) :
    Step maxConcurrent fifo l (.enqueue turn) none { l with entered := l.entered ++ [turn] }
  | full {tt : String} (h : maxConcurrent ≤ l.taken tt) : Step maxConcurrent fifo l (.tryPop tt) none l
  | empty {tt : String} (h : l.pending tt = []) : Step maxConcurrent fifo l (.tryPop tt) none l
  | pop {tt : String} {i : Nat} {turn : QueuedTurn} (slot : l.taken tt < maxConcurrent)
      (h : l.First (fifo l) tt i turn) : Step maxConcurrent fifo l (.tryPop tt) (some turn)
        { l with popped := l.popped ++ [i], taken := Function.update l.taken tt (l.taken tt + 1) }
  | onTurnTerminal (tt : String) : Step maxConcurrent fifo l (.onTurnTerminal tt) none
      { l with taken := Function.update l.taken tt (l.taken tt - 1) }

end TurnLedger

/-- The dispatcher holds what the ledger says: no place was handed out twice, the queue of each type holds the turns
pending of it, and the slots taken are within the limit. -/
structure Dispatcher.Holds (d : Dispatcher) (l : TurnLedger) : Prop where
  popped : l.popped.Nodup ∧ ∀ i ∈ l.popped, i < l.entered.length
  pending : ∀ tt, ((d.queue tt).pending.map PriEntry.turn).Perm ((l.pending tt).filterMap fun i => l.entered[i]?)
  taken : ∀ tt, d.inFlight tt = l.taken tt ∧ d.inFlight tt ≤ d.maxConcurrent

/-- Operation after operation, the dispatcher hands out what the ledger says, holds what it says, and leaves the
queues of other types alone. -/
def Dispatcher.Follows (fifo : TurnLedger → Prop) : Dispatcher → TurnLedger → List DispatchOp → Prop
  | d, l, [] => d.Holds l
  | d, l, op :: ops => d.Holds l ∧ ∃ l', l.Step d.maxConcurrent fifo op (d.exec op).1 l' ∧
      (∀ tt, tt ≠ op.taskType → (d.exec op).2.queues.lookup tt = d.queues.lookup tt) ∧
      Dispatcher.Follows fifo (d.exec op).2 l' ops

/-! ## The queues and the ledger agree -/

namespace Dispatcher

variable {d d' : Dispatcher} {l : TurnLedger} {tt : String} {turn : QueuedTurn}

theorem inFlight_eq (d : Dispatcher) (tt : String) : d.inFlight tt = (d.queue tt).inFlight := by
  unfold inFlight queue
  cases d.queues.lookup tt <;> rfl

theorem lookup_enqueue_of_ne (d : Dispatcher) (h : tt ≠ turn.taskType) :
    (d.enqueue turn).queues.lookup tt = d.queues.lookup tt := by
  simp [enqueue, Finmap.lookup_insert_of_ne _ h]

theorem lookup_onTurnTerminal_of_ne (d : Dispatcher) {taskType : String} (h : tt ≠ taskType) :
    (d.onTurnTerminal taskType).queues.lookup tt = d.queues.lookup tt := by
  unfold onTurnTerminal
  cases d.queues.lookup taskType with
  | none => rfl
  | some q => simp [Finmap.lookup_insert_of_ne _ h]

theorem pending_enqueue (d : Dispatcher) (turn : QueuedTurn) :
    ((d.enqueue turn).queue turn.taskType).pending =
      { priority := turn.priority, seq := d.nextSeq, turn } :: (d.queue turn.taskType).pending := by
  simp [enqueue, queue]

theorem pending_onTurnTerminal (d : Dispatcher) (taskType : String) :
    ((d.onTurnTerminal taskType).queue tt).pending = (d.queue tt).pending := by
  by_cases h : tt = taskType
  · subst h
    unfold onTurnTerminal
    cases hq : d.queues.lookup tt <;> simp [queue, hq]
  · simp [queue, lookup_onTurnTerminal_of_ne d h]

/-- A pop takes the first entry of the type's queue, and there was a slot for it. -/
theorem tryPop_some (h : d.tryPop tt = some (turn, d')) :
    ∃ m rest, PriEntry.popFirst (d.queue tt).pending = some (m, rest) ∧ m.turn = turn ∧
      d.inFlight tt < d.maxConcurrent ∧ (d'.queue tt).pending = rest ∧
      (∀ tt', tt' ≠ tt → d'.queues.lookup tt' = d.queues.lookup tt') ∧
      d'.maxConcurrent = d.maxConcurrent ∧ d'.nextSeq = d.nextSeq := by
  unfold tryPop at h
  cases hq : d.queues.lookup tt with
  | none => simp [hq] at h
  | some q =>
    simp only [hq] at h
    split at h
    · cases h
    · rename_i hslot
      cases hp : PriEntry.popFirst q.pending with
      | none => simp [hp] at h
      | some r =>
        obtain ⟨m, rest⟩ := r
        simp only [hp, Option.some.injEq, Prod.mk.injEq] at h
        obtain ⟨hm, rfl⟩ := h
        refine ⟨m, rest, by simpa [queue, hq] using hp, hm, ?_, by simp [queue], ?_, rfl, rfl⟩
        · rw [inFlight_eq]
          simp only [queue, hq, Option.getD_some]
          omega
        · intro tt' htt'
          simp [Finmap.lookup_insert_of_ne _ htt']

/-- Nothing is taken only from an empty queue or without a slot. -/
theorem tryPop_none (h : d.tryPop tt = none) : d.maxConcurrent ≤ d.inFlight tt ∨ (d.queue tt).pending = [] := by
  unfold tryPop at h
  cases hq : d.queues.lookup tt with
  | none =>
    right
    simp [queue, hq]
  | some q =>
    simp only [hq] at h
    split at h
    · rename_i hfull
      left
      rw [inFlight_eq]
      simpa [queue, hq] using hfull
    · cases hp : PriEntry.popFirst q.pending with
      | none =>
        right
        simpa [queue, hq] using PriEntry.popFirst_eq_none hp
      | some r => simp [hp] at h

end Dispatcher

namespace TurnLedger

variable {l : TurnLedger} {tt : String} {i : Nat}

/-- The entry made for the turn at a place. -/
def entry (l : TurnLedger) (i : Nat) : Option PriEntry :=
  l.entered[i]?.map fun turn => { priority := turn.priority, seq := i % 2 ^ 64, turn }

theorem pending_nodup (l : TurnLedger) (tt : String) : (l.pending tt).Nodup := List.nodup_range.filter _

theorem mem_pending : i ∈ l.pending tt ↔ i < l.entered.length ∧ i ∉ l.popped ∧
    l.entered[i]?.map QueuedTurn.taskType = some tt := by
  simp [pending]

theorem lt_of_mem_pending (h : i ∈ l.pending tt) : i < l.entered.length := (mem_pending.mp h).1

/-- A turn entered is pending under its own type. -/
theorem pending_enter (l : TurnLedger) (turn : QueuedTurn) (hp : ∀ i ∈ l.popped, i < l.entered.length) (tt : String) :
    ({ l with entered := l.entered ++ [turn] } : TurnLedger).pending tt =
      l.pending tt ++ if turn.taskType = tt then [l.entered.length] else [] := by
  have hnew : l.entered.length ∉ l.popped := fun h => lt_irrefl _ (hp _ h)
  unfold pending
  simp only [List.length_append, List.length_singleton, List.range_succ, List.filter_append]
  congr 1
  · apply List.filter_congr
    intro i hi
    rw [List.getElem?_append_left (List.mem_range.mp hi)]
  · by_cases h : turn.taskType = tt <;> simp [hnew, h]

/-- A turn handed out is pending no longer. -/
theorem pending_hand (l : TurnLedger) (i : Nat) (taken : String → Nat) (tt : String) :
    ({ l with popped := l.popped ++ [i], taken := taken } : TurnLedger).pending tt =
      (l.pending tt).filter fun j => j ≠ i := by
  unfold pending
  rw [List.filter_filter]
  apply List.filter_congr
  intro j _
  by_cases hj : j = i <;> simp [hj]

theorem pending_hand_of_ne {i : Nat} {tt tt' : String} (hi : i ∈ l.pending tt) (h : tt' ≠ tt)
    (taken : String → Nat) :
    ({ l with popped := l.popped ++ [i], taken := taken } : TurnLedger).pending tt' = l.pending tt' := by
  rw [pending_hand]
  apply List.filter_eq_self.mpr
  intro j hj
  have hji : j ≠ i := by
    rintro rfl
    have htt := (mem_pending.mp hj).2.2
    rw [(mem_pending.mp hi).2.2, Option.some.injEq] at htt
    exact h htt.symm
  simpa using hji

/-- Of its own type, it is the one that is missing. -/
theorem pending_perm_hand {i : Nat} {tt : String} (hi : i ∈ l.pending tt) (taken : String → Nat) :
    (l.pending tt).Perm
      (i :: ({ l with popped := l.popped ++ [i], taken := taken } : TurnLedger).pending tt) := by
  have herase : (l.pending tt).erase i = (l.pending tt).filter fun j => j ≠ i := by
    rw [(l.pending_nodup tt).erase_eq_filter i]
    apply List.filter_congr
    intro j _
    by_cases hj : j = i <;> simp [hj]
  rw [pending_hand, ← herase]
  exact List.perm_cons_erase hi

theorem filterMap_entry_enter (l : TurnLedger) (turn : QueuedTurn) (tt : String) :
    (l.pending tt).filterMap ({ l with entered := l.entered ++ [turn] } : TurnLedger).entry =
      (l.pending tt).filterMap l.entry := by
  apply List.filterMap_congr
  intro i hi
  simp [entry, List.getElem?_append_left (lt_of_mem_pending hi)]

theorem entry_seq {e : PriEntry} (h : l.entry i = some e) :
    e.seq = i % 2 ^ 64 ∧ e.priority = e.turn.priority ∧ l.entered[i]? = some e.turn := by
  unfold entry at h
  cases ht : l.entered[i]? with
  | none => simp [ht] at h
  | some turn =>
    simp only [ht, Option.map_some, Option.some.injEq] at h
    subst h
    exact ⟨rfl, rfl, rfl⟩

end TurnLedger

/-- The entries of each queue are those of the pending places, numbered by their place. -/
structure Dispatcher.Kept (d : Dispatcher) (l : TurnLedger) : Prop where
  popped : l.popped.Nodup ∧ ∀ i ∈ l.popped, i < l.entered.length
  seq : d.nextSeq = l.entered.length % 2 ^ 64
  pending : ∀ tt, (d.queue tt).pending.Perm ((l.pending tt).filterMap l.entry)
  taken : ∀ tt, d.inFlight tt = l.taken tt ∧ d.inFlight tt ≤ d.maxConcurrent

namespace Dispatcher

variable {d d' : Dispatcher} {l : TurnLedger} {tt : String} {turn : QueuedTurn}

theorem Kept.holds (h : d.Kept l) : d.Holds l where
  popped := h.popped
  pending tt := by
    have hp := (h.pending tt).map PriEntry.turn
    rw [List.map_filterMap] at hp
    have hturn : ∀ i, (l.entry i).map PriEntry.turn = l.entered[i]? := by
      intro i
      cases hi : l.entered[i]? <;> simp [TurnLedger.entry, hi]
    simpa only [hturn] using hp
  taken := h.taken

theorem kept_new (n : Nat) : (new n).Kept {} where
  popped := ⟨List.nodup_nil, by simp⟩
  seq := rfl
  pending tt := by simp [new, queue, TurnLedger.pending]
  taken tt := by simp [new, inFlight]

theorem Kept.enqueue (h : d.Kept l) (turn : QueuedTurn) :
    (d.enqueue turn).Kept { l with entered := l.entered ++ [turn] } where
  popped := by
    refine ⟨h.popped.1, fun i hi => ?_⟩
    have := h.popped.2 i hi
    simp only [List.length_append, List.length_singleton]
    omega
  seq := by
    have hseq := h.seq
    simp only [Dispatcher.enqueue, List.length_append, List.length_singleton]
    omega
  pending tt := by
    rw [TurnLedger.pending_enter l turn h.popped.2, List.filterMap_append, TurnLedger.filterMap_entry_enter]
    by_cases htt : tt = turn.taskType
    · subst htt
      rw [pending_enqueue, if_pos rfl, h.seq]
      have hnew : ({ l with entered := l.entered ++ [turn] } : TurnLedger).entry l.entered.length =
          some { priority := turn.priority, seq := l.entered.length % 2 ^ 64, turn } := by
        simp [TurnLedger.entry]
      rw [List.filterMap_cons_some hnew, List.filterMap_nil]
      exact ((h.pending _).cons _).trans (List.perm_append_singleton _ _).symm
    · rw [if_neg (Ne.symm htt), List.filterMap_nil, List.append_nil]
      simpa [queue, lookup_enqueue_of_ne d htt] using h.pending tt
  taken tt := by
    rw [inFlight_enqueue]
    exact h.taken tt

theorem Kept.onTurnTerminal (h : d.Kept l) (taskType : String) :
    (d.onTurnTerminal taskType).Kept
      { l with taken := Function.update l.taken taskType (l.taken taskType - 1) } where
  popped := h.popped
  seq := by
    unfold Dispatcher.onTurnTerminal
    cases d.queues.lookup taskType <;> exact h.seq
  pending tt := by
    rw [pending_onTurnTerminal]
    exact h.pending tt
  taken tt := by
    have hmax : (d.onTurnTerminal taskType).maxConcurrent = d.maxConcurrent := by
      unfold Dispatcher.onTurnTerminal
      cases d.queues.lookup taskType <;> rfl
    have ht := h.taken tt
    rw [inFlight_onTurnTerminal, hmax]
    by_cases htt : tt = taskType
    · subst htt
      simp only [Function.update_self, if_true]
      omega
    · simp only [Function.update_of_ne htt, if_neg htt]
      omega

/-- The turn taken is the first one pending, as long as no number was given twice. -/
theorem Kept.tryPop_some (h : d.Kept l) (hpop : d.tryPop tt = some (turn, d')) :
    ∃ i, l.taken tt < d.maxConcurrent ∧ l.First (l.entered.length ≤ 2 ^ 64) tt i turn ∧
      d'.Kept { l with popped := l.popped ++ [i], taken := Function.update l.taken tt (l.taken tt + 1) } := by
  obtain ⟨m, rest, hp, rfl, hslot, hrest, hother, hmax, hseq⟩ := Dispatcher.tryPop_some hpop
  have hperm := PriEntry.popFirst_perm hp
  have hm : m ∈ (l.pending tt).filterMap l.entry :=
    (h.pending tt).mem_iff.mp (hperm.mem_iff.mpr List.mem_cons_self)
  obtain ⟨i, hi, hie⟩ := List.mem_filterMap.mp hm
  obtain ⟨hms, hmp, hmt⟩ := TurnLedger.entry_seq hie
  refine ⟨i, by rw [← (h.taken tt).1]; exact hslot, ⟨hi, hmt, ?_⟩, ?_⟩
  · intro j hj other hother'
    have hje : l.entry j = some { priority := other.priority, seq := j % 2 ^ 64, turn := other } := by
      simp [TurnLedger.entry, hother']
    have hjm := (h.pending tt).mem_iff.mpr (List.mem_filterMap.mpr ⟨j, hj, hje⟩)
    have hle : PriEntry.before { priority := other.priority, seq := j % 2 ^ 64, turn := other } m = false := by
      rcases List.mem_cons.mp (hperm.mem_iff.mp hjm) with rfl | hjr
      · simp [PriEntry.before]
      · exact PriEntry.popFirst_first hp _ hjr
    rw [Bool.eq_false_iff, ne_eq, PriEntry.before_iff] at hle
    simp only at hle
    have hil := TurnLedger.lt_of_mem_pending hi
    have hjl := TurnLedger.lt_of_mem_pending hj
    refine ⟨by omega, fun hlen heq => ?_⟩
    rw [Nat.mod_eq_of_lt (by omega)] at hms hle
    omega
  · have hpen := TurnLedger.mem_pending.mp hi
    refine ⟨⟨?_, ?_⟩, by rw [hseq]; exact h.seq, fun tt' => ?_, fun tt' => ?_⟩
    · exact List.nodup_append.mpr ⟨h.popped.1, List.nodup_singleton i, by
        intro a ha b hb hab
        rw [List.mem_singleton.mp hb] at hab
        exact hpen.2.1 (hab ▸ ha)⟩
    · intro a ha
      rcases List.mem_append.mp ha with ha | ha
      · exact h.popped.2 a ha
      · rw [List.mem_singleton.mp ha]
        exact hpen.1
    · by_cases htt : tt' = tt
      · subst htt
        rw [hrest]
        have hhand := (TurnLedger.pending_perm_hand hi
          (Function.update l.taken tt' (l.taken tt' + 1))).filterMap l.entry
        rw [List.filterMap_cons_some hie] at hhand
        exact (hperm.symm.trans ((h.pending tt').trans hhand)).cons_inv
      · rw [TurnLedger.pending_hand_of_ne hi htt, queue, hother tt' htt]
        exact h.pending tt'
    · have ht := h.taken tt'
      rw [inFlight_tryPop hpop, hmax]
      by_cases htt : tt' = tt
      · subst htt
        simp only [Function.update_self, if_true]
        omega
      · simp only [Function.update_of_ne htt, if_neg htt]
        omega

/-- Nothing is taken only when nothing is pending or no slot is left. -/
theorem Kept.tryPop_none (h : d.Kept l) (hpop : d.tryPop tt = none) :
    d.maxConcurrent ≤ l.taken tt ∨ l.pending tt = [] := by
  rcases Dispatcher.tryPop_none hpop with hfull | hempty
  · left
    rw [← (h.taken tt).1]
    exact hfull
  · right
    have hp := h.pending tt
    rw [hempty] at hp
    rw [List.eq_nil_iff_forall_not_mem]
    intro i hi
    have hlt := TurnLedger.lt_of_mem_pending hi
    have hi? : l.entry i = some { priority := l.entered[i].priority, seq := i % 2 ^ 64, turn := l.entered[i] } := by
      simp [TurnLedger.entry, List.getElem?_eq_getElem hlt]
    have hmem := hp.mem_iff.mpr (List.mem_filterMap.mpr ⟨i, hi, hi?⟩)
    cases hmem

/-- One operation: what is handed out is what the ledger allows, the limit stays, and so do the other queues. -/
theorem Kept.exec (h : d.Kept l) (op : DispatchOp) :
    ∃ l', l.Step d.maxConcurrent (fun l => l.entered.length ≤ 2 ^ 64) op (d.exec op).1 l' ∧
      (∀ tt, tt ≠ op.taskType → (d.exec op).2.queues.lookup tt = d.queues.lookup tt) ∧ (d.exec op).2.Kept l' := by
  cases op with
  | enqueue turn => exact ⟨_, .enqueue turn, fun tt htt => lookup_enqueue_of_ne d htt, h.enqueue turn⟩
  | onTurnTerminal taskType =>
    exact ⟨_, .onTurnTerminal taskType, fun tt htt => lookup_onTurnTerminal_of_ne d htt, h.onTurnTerminal taskType⟩
  | tryPop taskType =>
    cases hpop : d.tryPop taskType with
    | none =>
      simp only [Dispatcher.exec, hpop]
      rcases h.tryPop_none hpop with hfull | hempty
      · exact ⟨l, .full hfull, fun _ _ => trivial, h⟩
      · exact ⟨l, .empty hempty, fun _ _ => trivial, h⟩
    | some r =>
      obtain ⟨turn, d'⟩ := r
      obtain ⟨i, hslot, hfirst, hkept⟩ := h.tryPop_some hpop
      obtain ⟨-, -, -, -, -, -, hother, -, -⟩ := Dispatcher.tryPop_some hpop
      simp only [Dispatcher.exec, hpop]
      exact ⟨_, .pop hslot hfirst, hother, hkept⟩

theorem Kept.follows (h : d.Kept l) (ops : List DispatchOp) :
    d.Follows (fun l => l.entered.length ≤ 2 ^ 64) l ops := by
  induction ops generalizing d l with
  | nil => exact h.holds
  | cons op ops ih =>
    obtain ⟨l', hstep, hother, hkept⟩ := h.exec op
    exact ⟨h.holds, l', hstep, hother, ih hkept⟩

end Dispatcher

/-- Whatever is asked of a new dispatcher, it hands out each turn entered at most once, the first one pending of the
type and nothing only without one or without a slot; ties go by the order of entry for the first `2 ^ 64` turns. -/
theorem dispatcher_follows_ledger (n : Nat) (ops : List DispatchOp) :
    (Dispatcher.new n).Follows (fun l => l.entered.length ≤ 2 ^ 64) {} ops :=
  (Dispatcher.kept_new n).follows ops

/-- A turn of a type, told from the others by its id. -/
def plainTurn (taskType : String) (turnId : Int) : QueuedTurn :=
  { taskType, taskId := "t", turnId, userInput := "", redoGroup := "", redoCount := 0, cachedLlm := [], priority := 0 }

theorem Dispatcher.Follows.replicate {fifo : TurnLedger → Prop} {turn : QueuedTurn} {ops : List DispatchOp} (k : Nat)
    {d : Dispatcher} {l : TurnLedger} (hd : d.nextSeq < 2 ^ 64)
    (h : d.Follows fifo l (List.replicate k (.enqueue turn) ++ ops)) :
    ∃ d' : Dispatcher, d'.Follows fifo { l with entered := l.entered ++ List.replicate k turn } ops ∧
      d'.nextSeq = (d.nextSeq + k) % 2 ^ 64 ∧ d'.maxConcurrent = d.maxConcurrent ∧
      ∀ tt, tt ≠ turn.taskType → d'.queues.lookup tt = d.queues.lookup tt := by
  induction k generalizing d l with
  | zero => exact ⟨d, by simpa using h, (Nat.mod_eq_of_lt hd).symm, rfl, fun _ _ => rfl⟩
  | succ k ih =>
    rw [List.replicate_succ, List.cons_append] at h
    obtain ⟨-, l', hstep, -, hrest⟩ := h
    cases hstep
    obtain ⟨d', hf, hseq, hmax, hother⟩ := ih (Nat.mod_lt _ (by decide)) hrest
    refine ⟨d', ?_, ?_, hmax, fun tt htt => (hother tt htt).trans (Dispatcher.lookup_enqueue_of_ne d htt)⟩
    · simpa [List.replicate_succ] using hf
    · rw [hseq]
      simp only [Dispatcher.exec, Dispatcher.enqueue]
      omega

/-- Between the turn with the last number and the next one, the next one goes first. -/
theorem tryPop_wraps {d : Dispatcher} (hd : d.nextSeq = 2 ^ 64 - 1) (hq : d.queues.lookup "b" = none)
    (hmax : 0 < d.maxConcurrent) :
    ((((d.enqueue (plainTurn "b" 1)).enqueue (plainTurn "b" 2)).tryPop "b").map Prod.fst) = some (plainTurn "b" 2) := by
  have hpop : PriEntry.popFirst [⟨0, 0, plainTurn "b" 2⟩, ⟨0, 2 ^ 64 - 1, plainTurn "b" 1⟩] =
      some (⟨0, 0, plainTurn "b" 2⟩, [⟨0, 2 ^ 64 - 1, plainTurn "b" 1⟩]) := rfl
  have hqueue : ((d.enqueue (plainTurn "b" 1)).enqueue (plainTurn "b" 2)).queues.lookup "b" =
      some { pending := [⟨0, 0, plainTurn "b" 2⟩, ⟨0, 2 ^ 64 - 1, plainTurn "b" 1⟩], inFlight := 0 } := by
    simp [Dispatcher.enqueue, plainTurn, hd, hq]
  have hlimit : ((d.enqueue (plainTurn "b" 1)).enqueue (plainTurn "b" 2)).maxConcurrent = d.maxConcurrent := rfl
  unfold Dispatcher.tryPop
  simp only [hqueue, hlimit, if_neg (show ¬ 0 ≥ d.maxConcurrent by omega), hpop, Option.map_some]

/-- Of two equal turns the second is not the first pending. -/
theorem TurnLedger.not_first_second {l : TurnLedger} {i : Nat} (rest : List QueuedTurn)
    (hent : l.entered = rest ++ [plainTurn "b" 1] ++ [plainTurn "b" 2]) (hpop : l.popped = [])
    (hrest : ∀ turn ∈ rest, turn.taskType ≠ "b") : ¬ l.First True "b" i (plainTurn "b" 2) := by
  rintro ⟨hi, hturn, hfirst⟩
  obtain ⟨hlt, -, htype⟩ := TurnLedger.mem_pending.mp hi
  have hb₁ : l.entered[rest.length]? = some (plainTurn "b" 1) := by simp [hent]
  have hmem₁ : rest.length ∈ l.pending "b" := by
    refine TurnLedger.mem_pending.mpr ⟨?_, by simp [hpop], by simp [hb₁, plainTurn]⟩
    simp only [hent, List.length_append, List.length_singleton]
    omega
  have hik := (hfirst _ hmem₁ _ hb₁).2 trivial rfl
  rcases Nat.lt_or_eq_of_le hik with hik | rfl
  · have hmem : l.entered[i]? = some rest[i] := by
      rw [hent, List.append_assoc, List.getElem?_append_left (by omega), List.getElem?_eq_getElem]
    rw [hmem, Option.map_some, Option.some.injEq] at htype
    exact hrest _ (List.getElem_mem _) htype
  · rw [hb₁] at hturn
    simp [plainTurn] at hturn

/-- After `2 ^ 64 - 1` turns of one type, the second of two equal turns of another is handed out first. -/
theorem later_turn_first :
    ¬ (Dispatcher.new 1).Follows (fun _ => True) {}
      (List.replicate (2 ^ 64 - 1) (.enqueue (plainTurn "a" 0)) ++
        [.enqueue (plainTurn "b" 1), .enqueue (plainTurn "b" 2), .tryPop "b"]) := by
  intro h
  obtain ⟨d, hf, hseq, hmax, hother⟩ := h.replicate _ (by decide)
  obtain ⟨-, l₁, hstep₁, -, hf⟩ := hf
  cases hstep₁
  obtain ⟨-, l₂, hstep₂, -, hf⟩ := hf
  cases hstep₂
  obtain ⟨-, l₃, hstep₃, -, -⟩ := hf
  have hpop := tryPop_wraps (d := d) (by rw [hseq]; rfl) (by rw [hother "b" (by decide)]; rfl)
    (by rw [hmax]; decide)
  have hout : ((((d.enqueue (plainTurn "b" 1)).enqueue (plainTurn "b" 2)).exec (.tryPop "b")).1) =
      some (plainTurn "b" 2) := by
    obtain ⟨r, hr, hr₁⟩ := Option.map_eq_some_iff.mp hpop
    simp [Dispatcher.exec, hr, hr₁]
  simp only [Dispatcher.exec] at hstep₃ hout
  rw [hout] at hstep₃
  cases hstep₃ with
  | pop _ hfirst =>
    refine TurnLedger.not_first_second (List.replicate (2 ^ 64 - 1) (plainTurn "a" 0)) ?_ rfl ?_ hfirst
    · rw [List.nil_append]
    · intro turn hturn
      rw [List.eq_of_mem_replicate hturn]
      decide

end Fixus
