import Fixus.Lib.Run
import Mathlib.Algebra.Order.Ring.Int

/-!
# Cooperative tasks over a shared state

A pool of tasks, each a stack of instructions. A move lets one task execute its topmost instruction atomically, or
enters a new task. Executing an instruction changes the shared state, replaces the instruction by others, may spawn
tasks, and performs acts; the acts of a run are its trace.

- `move_cases`, `move_cases_when`: what a move can be;
- `total`: the sum of a weight over all instructions of the pool, with `total_set` for the replacement of a topmost one;
- `Executes.total`: the balance of a weight over a move;
- `move_invariant`, `move_invariant_when`: an invariant is preserved by the moves if it is by entering and by executing.
-/

namespace Lib

variable {σ ι α ε : Type*}

/-! ## Weights of pool -/

/-- The weight of a stack. -/
def weight (f : ι → Nat) (stack : List ι) : Nat := (stack.map f).sum

/-- The weight of a pool. -/
def total (f : ι → Nat) (pool : List (List ι)) : Nat := (pool.map (weight f)).sum

section Weights

variable {f : ι → Nat} {pool : List (List ι)} {x : ι} {rest : List ι} {k : Nat}

@[simp] theorem weight_nil : weight f [] = 0 := rfl

@[simp] theorem weight_cons : weight f (x :: rest) = f x + weight f rest := by simp [weight]

@[simp] theorem weight_append (l l' : List ι) : weight f (l ++ l') = weight f l + weight f l' := by simp [weight]

@[simp] theorem total_nil : total f [] = 0 := rfl

@[simp] theorem total_cons (stack : List ι) : total f (stack :: pool) = weight f stack + total f pool := by
  simp [total]

@[simp] theorem total_append (pool' : List (List ι)) :
    total f (pool ++ pool') = total f pool + total f pool' := by simp [total]

theorem weight_eq_zero {stack : List ι} (h : ∀ x ∈ stack, f x = 0) : weight f stack = 0 := by
  induction stack with
  | nil => rfl
  | cons x stack ih => rw [weight_cons, h x List.mem_cons_self, ih fun y hy => h y (List.mem_cons_of_mem _ hy)]

/-- Where no instruction weighs anything, the pool weighs nothing. -/
theorem total_eq_zero (h : ∀ stack ∈ pool, ∀ x ∈ stack, f x = 0) : total f pool = 0 := by
  induction pool with
  | nil => rfl
  | cons stack pool ih =>
    rw [total_cons, weight_eq_zero (h stack List.mem_cons_self), ih fun st hs => h st (List.mem_cons_of_mem _ hs)]

/-- Replacing the topmost instruction of a task. -/
theorem total_set (h : pool[k]? = some (x :: rest)) (next : List ι) :
    total f (pool.set k (next ++ rest)) + f x = total f pool + weight f next := by
  induction pool generalizing k with
  | nil => simp at h
  | cons stack pool ih =>
    cases k with
    | zero =>
      simp only [List.getElem?_cons_zero, Option.some.injEq] at h
      subst h
      simp only [List.set_cons_zero, total_cons, weight_append, weight_cons]
      omega
    | succ k =>
      simp only [List.getElem?_cons_succ] at h
      have hrest := ih h
      simp only [List.set_cons_succ, total_cons]
      omega

/-- An instruction weighs at most as much as its stack. -/
theorem le_weight {stack : List ι} (h : x ∈ stack) : f x ≤ weight f stack := by
  induction stack with
  | nil => cases h
  | cons y stack ih =>
    rw [weight_cons]
    rcases List.mem_cons.mp h with rfl | h
    · omega
    · have := ih h
      omega

/-- A stack that weighs something has an instruction that does. -/
theorem exists_mem_of_weight {stack : List ι} (h : weight f stack ≠ 0) : ∃ y ∈ stack, f y ≠ 0 := by
  induction stack with
  | nil => exact absurd rfl h
  | cons y stack ih =>
    rw [weight_cons] at h
    by_cases hy : f y = 0
    · obtain ⟨z, hz, hne⟩ := ih (by omega)
      exact ⟨z, List.mem_cons_of_mem _ hz, hne⟩
    · exact ⟨y, List.mem_cons_self, hy⟩

/-- A stack weighs at most as much as its pool. -/
theorem weight_le_total {stack : List ι} (h : stack ∈ pool) : weight f stack ≤ total f pool := by
  induction pool with
  | nil => cases h
  | cons stack' pool ih =>
    rw [total_cons]
    rcases List.mem_cons.mp h with rfl | h
    · omega
    · have := ih h
      omega

/-- An instruction weighs at most as much as the pool. -/
theorem le_total {stack : List ι} (h : stack ∈ pool) (hx : x ∈ stack) : f x ≤ total f pool :=
  Nat.le_trans (le_weight hx) (weight_le_total h)

end Weights

/-- Every instruction of the pool has the property. -/
abbrev Everywhere (P : ι → Prop) (pool : List (List ι)) : Prop := ∀ stack ∈ pool, ∀ x ∈ stack, P x

/-! ## Moves -/

/-- What executing an instruction results in. -/
structure Outcome (σ ι α : Type*) where
  shared : σ
  next : List ι := []
  spawned : List ι := []
  acts : List α := []

/-- A pool of tasks, with the trace of their acts, the last one first. -/
structure Tasks (σ ι α : Type*) where
  shared : σ
  pool : List (List ι) := []
  trace : List α := []

/-- A move: a new task, or the topmost instruction of a task, executed in an environment. -/
inductive Move (ι ε : Type*) where
  | enter (x : ι)
  | exec (k : Nat) (env : ε)

section Moves

variable (exec : ε → σ → ι → Outcome σ ι α) (entry : ι → Bool)

/-- The instruction that a move executes. -/
def fetched (t : Tasks σ ι α) : Move ι ε → Option ι
  | .enter _ => none
  | .exec k _ =>
    match t.pool[k]? with
    | some (x :: _) => some x
    | _ => none

/-- The outcome of a move that executes an instruction. -/
def outcome (t : Tasks σ ι α) : Move ι ε → Option (Outcome σ ι α)
  | .enter _ => none
  | .exec k env =>
    match t.pool[k]? with
    | some (x :: _) => some (exec env t.shared x)
    | _ => none

/-- The acts of a move. -/
def acts (t : Tasks σ ι α) (m : Move ι ε) : List α := ((outcome exec t m).map Outcome.acts).getD []

/-- Make a move; a move that the pool does not admit changes nothing. -/
def move (t : Tasks σ ι α) : Move ι ε → Tasks σ ι α
  | .enter x => if entry x then { t with pool := t.pool ++ [[x]] } else t
  | .exec k env =>
    match t.pool[k]? with
    | some (x :: rest) =>
      let out := exec env t.shared x
      { shared := out.shared
        pool := t.pool.set k (out.next ++ rest) ++ out.spawned.map fun y => [y]
        trace := out.acts.reverse ++ t.trace }
    | _ => t

variable {exec entry}

/-- An executing move, spelled out. -/
structure Executes (exec : ε → σ → ι → Outcome σ ι α) (t : Tasks σ ι α) (m : Move ι ε) (t' : Tasks σ ι α) (k : Nat)
    (env : ε) (x : ι) (rest : List ι) : Prop where
  top : t.pool[k]? = some (x :: rest)
  fetched : fetched t m = some x
  acts : acts exec t m = (exec env t.shared x).acts
  shared : t'.shared = (exec env t.shared x).shared
  pool : t'.pool = t.pool.set k ((exec env t.shared x).next ++ rest) ++ (exec env t.shared x).spawned.map fun y => [y]
  trace : t'.trace = (exec env t.shared x).acts.reverse ++ t.trace

/-- A condition on the instruction that a move executes, in its environment. -/
def Executing (C : Tasks σ ι α → ε → ι → Prop) (t : Tasks σ ι α) : Move ι ε → Prop
  | .enter _ => True
  | .exec k env =>
    match t.pool[k]? with
    | some (x :: _) => C t env x
    | _ => True

instance Executing.decidable (C : Tasks σ ι α → ε → ι → Prop) [∀ t env x, Decidable (C t env x)] (t : Tasks σ ι α)
    (m : Move ι ε) : Decidable (Executing C t m) := by
  unfold Executing
  cases m with
  | enter x => exact isTrue trivial
  | exec k env =>
    dsimp only
    split <;> infer_instance

variable (exec entry) in
/-- **What a move can be**: nothing, a new task, or the execution of a topmost instruction, which meets the condition.
-/
theorem move_cases_when {C : Tasks σ ι α → ε → ι → Prop} {t : Tasks σ ι α} {m : Move ι ε} (hC : Executing C t m) :
    (move exec entry t m = t ∧ acts exec t m = []) ∨
    (∃ x, entry x = true ∧ move exec entry t m = { t with pool := t.pool ++ [[x]] } ∧ acts exec t m = []) ∨
    ∃ k env x rest, Executes exec t m (move exec entry t m) k env x rest ∧ C t env x := by
  cases m with
  | enter x =>
    by_cases hx : entry x = true
    · exact Or.inr (Or.inl ⟨x, hx, by simp [move, hx], rfl⟩)
    · exact Or.inl ⟨by simp [move, hx], rfl⟩
  | exec k env =>
    cases hk : t.pool[k]? with
    | none => exact Or.inl ⟨by simp [move, hk], by simp [acts, outcome, hk]⟩
    | some stack =>
      cases stack with
      | nil => exact Or.inl ⟨by simp [move, hk], by simp [acts, outcome, hk]⟩
      | cons x rest =>
        have hx : C t env x := by simpa [Executing, hk] using hC
        exact Or.inr (Or.inr ⟨k, env, x, rest, ⟨hk, by simp [fetched, hk], by simp [acts, outcome, hk],
          by simp [move, hk],
          by simp [move, hk], by simp [move, hk]⟩, hx⟩)

variable (exec entry) in
/-- What a move can be, without a condition. -/
theorem move_cases (t : Tasks σ ι α) (m : Move ι ε) :
    (move exec entry t m = t ∧ acts exec t m = []) ∨
    (∃ x, entry x = true ∧ move exec entry t m = { t with pool := t.pool ++ [[x]] } ∧ acts exec t m = []) ∨
    ∃ k env x rest, Executes exec t m (move exec entry t m) k env x rest := by
  have htrue : Executing (fun _ _ _ => True) t m := by
    cases m with
    | enter x => trivial
    | exec k env =>
      unfold Executing
      dsimp only
      split <;> trivial
  simpa using move_cases_when exec entry htrue

variable (exec entry) in
/-- A move that fetches an instruction executes it. -/
theorem executes_of_fetched {t : Tasks σ ι α} {k : Nat} {env : ε} {x : ι} (h : fetched t (.exec k env) = some x) :
    ∃ rest, Executes exec t (.exec k env) (move exec entry t (.exec k env)) k env x rest := by
  unfold fetched at h
  dsimp only at h
  split at h
  · rename_i y rest hk
    obtain rfl := Option.some.inj h
    exact ⟨rest, hk, by simp [fetched, hk], by simp [acts, outcome, hk], by simp [move, hk], by simp [move, hk],
      by simp [move, hk]⟩
  · cases h

/-- A move that fetches nothing changes nothing. -/
theorem move_of_not_fetched {t : Tasks σ ι α} {k : Nat} {env : ε} (h : fetched t (.exec k env) = none) :
    move exec entry t (.exec k env) = t := by
  cases hk : t.pool[k]? with
  | none => simp [move, hk]
  | some stack =>
    cases stack with
    | nil => simp [move, hk]
    | cons x rest => simp [fetched, hk] at h

/-- A condition on the executed instruction is one on the instruction that is fetched. -/
theorem executing_iff {C : Tasks σ ι α → ε → ι → Prop} {t : Tasks σ ι α} {k : Nat} {env : ε} :
    Executing C t (.exec k env) ↔ ∀ x, fetched t (.exec k env : Move ι ε) = some x → C t env x := by
  unfold Executing fetched
  dsimp only
  split <;> simp

/-- The balance of a weight over the execution of an instruction. -/
theorem Executes.total {t t' : Tasks σ ι α} {m : Move ι ε} {k : Nat} {env : ε} {x : ι} {rest : List ι}
    (h : Executes exec t m t' k env x rest) (f : ι → Nat) :
    total f t'.pool + f x =
      Lib.total f t.pool + weight f (exec env t.shared x).next + weight f (exec env t.shared x).spawned := by
  have hset := total_set (f := f) h.top (exec env t.shared x).next
  have hspawn : ∀ l : List ι, Lib.total f (l.map fun y => [y]) = weight f l := by
    intro l
    induction l with
    | nil => rfl
    | cons y l ih => simp [ih]
  rw [h.pool, total_append, hspawn]
  omega

/-- The topmost instruction is in the pool. -/
theorem Executes.le_total {t t' : Tasks σ ι α} {m : Move ι ε} {k : Nat} {env : ε} {x : ι} {rest : List ι}
    (h : Executes exec t m t' k env x rest) (f : ι → Nat) : f x ≤ Lib.total f t.pool :=
  Lib.le_total (List.mem_of_getElem? h.top) List.mem_cons_self

/-- The instructions after an execution were there before, or came with it. -/
theorem Executes.everywhere {t t' : Tasks σ ι α} {m : Move ι ε} {k : Nat} {env : ε} {x : ι} {rest : List ι}
    {P : ι → Prop} (h : Executes exec t m t' k env x rest) (hold : Everywhere P t.pool)
    (hnew : ∀ y ∈ (exec env t.shared x).next ++ (exec env t.shared x).spawned, P y) : Everywhere P t'.pool := by
  intro stack hs y hy
  rw [h.pool] at hs
  rcases List.mem_append.mp hs with hs | hs
  · rcases List.mem_or_eq_of_mem_set hs with hs | rfl
    · exact hold stack hs y hy
    · rcases List.mem_append.mp hy with hy | hy
      · exact hnew y (List.mem_append_left _ hy)
      · exact hold _ (List.mem_of_getElem? h.top) y (List.mem_cons_of_mem _ hy)
  · obtain ⟨z, hz, rfl⟩ := List.mem_map.mp hs
    rw [List.mem_singleton.mp hy]
    exact hnew z (List.mem_append_right _ hz)

/-- The executed instruction has what all instructions have. -/
theorem Executes.of_everywhere {t t' : Tasks σ ι α} {m : Move ι ε} {k : Nat} {env : ε} {x : ι} {rest : List ι}
    {P : ι → Prop} (h : Executes exec t m t' k env x rest) (hP : Everywhere P t.pool) : P x :=
  hP _ (List.mem_of_getElem? h.top) x List.mem_cons_self

/-- An instruction other than the executed one stays in the pool. -/
theorem Executes.stays {t t' : Tasks σ ι α} {m : Move ι ε} {k : Nat} {env : ε} {x y : ι} {rest stack : List ι}
    (h : Executes exec t m t' k env x rest) (hs : stack ∈ t.pool) (hy : y ∈ stack) (hne : y ≠ x) :
    ∃ stack ∈ t'.pool, y ∈ stack := by
  rw [h.pool]
  obtain ⟨j, hj⟩ := List.getElem?_of_mem hs
  by_cases hjk : j = k
  · -- the rest of the same stack
    subst hjk
    rw [h.top] at hj
    cases Option.some.inj hj
    have hmem : (exec env t.shared x).next ++ rest ∈ t.pool.set j ((exec env t.shared x).next ++ rest) :=
      List.mem_of_getElem? (i := j) (by rw [List.getElem?_set_self (List.getElem?_eq_some_iff.mp h.top).1])
    exact ⟨_, List.mem_append_left _ hmem, List.mem_append_right _ ((List.mem_cons.mp hy).resolve_left hne)⟩
  · have hmem : stack ∈ t.pool.set k ((exec env t.shared x).next ++ rest) :=
      List.mem_of_getElem? (i := j) (by rw [List.getElem?_set_ne (Ne.symm hjk), hj])
    exact ⟨stack, List.mem_append_left _ hmem, hy⟩

/-- What replaces the executed instruction is in the pool. -/
theorem Executes.comes {t t' : Tasks σ ι α} {m : Move ι ε} {k : Nat} {env : ε} {x y : ι} {rest : List ι}
    (h : Executes exec t m t' k env x rest) (hy : y ∈ (exec env t.shared x).next) : ∃ stack ∈ t'.pool, y ∈ stack := by
  rw [h.pool]
  have hmem : (exec env t.shared x).next ++ rest ∈ t.pool.set k ((exec env t.shared x).next ++ rest) :=
    List.mem_of_getElem? (i := k) (by rw [List.getElem?_set_self (List.getElem?_eq_some_iff.mp h.top).1])
  exact ⟨_, List.mem_append_left _ hmem, List.mem_append_left _ hy⟩

/-- An invariant is preserved by a move whose instruction meets the condition, if entering a task and executing such an
instruction preserve it. -/
theorem move_invariant_when {C : Tasks σ ι α → ε → ι → Prop} {Inv : Tasks σ ι α → Prop} {t : Tasks σ ι α}
    {m : Move ι ε} (hC : Executing C t m) (h : Inv t)
    (henter : ∀ x, entry x = true → Inv { t with pool := t.pool ++ [[x]] })
    (hexec : ∀ t' k env x rest, Executes exec t m t' k env x rest → C t env x → Inv t') :
    Inv (move exec entry t m) := by
  rcases move_cases_when exec entry hC with ⟨heq, -⟩ | ⟨x, hx, heq, -⟩ | ⟨k, env, x, rest, he, hc⟩
  · rw [heq]; exact h
  · rw [heq]; exact henter x hx
  · exact hexec _ k env x rest he hc

/-- An invariant is preserved by a move if entering a task and executing an instruction preserve it. -/
theorem move_invariant {Inv : Tasks σ ι α → Prop} {t : Tasks σ ι α} {m : Move ι ε} (h : Inv t)
    (henter : ∀ x, entry x = true → Inv { t with pool := t.pool ++ [[x]] })
    (hexec : ∀ t' k env x rest, Executes exec t m t' k env x rest → Inv t') : Inv (move exec entry t m) := by
  rcases move_cases exec entry t m with ⟨heq, -⟩ | ⟨x, hx, heq, -⟩ | ⟨k, env, x, rest, he⟩
  · rw [heq]; exact h
  · rw [heq]; exact henter x hx
  · exact hexec _ k env x rest he

/-- What holds of the acts of every execution holds of the acts of every move. -/
theorem mem_acts {t : Tasks σ ι α} {m : Move ι ε} {a : α} (h : a ∈ acts exec t m) :
    ∃ k env x rest, Executes exec t m (move exec entry t m) k env x rest ∧ a ∈ (exec env t.shared x).acts := by
  rcases move_cases exec entry t m with ⟨-, hacts⟩ | ⟨x, -, -, hacts⟩ | ⟨k, env, x, rest, he⟩
  · rw [hacts] at h; cases h
  · rw [hacts] at h; cases h
  · exact ⟨k, env, x, rest, he, he.acts ▸ h⟩

end Moves

end Lib
