import Mathlib.Tactic.Common

/-!
# Stateful computations that may fail

`Eff ε σ α` reads and changes a state of type `σ` and ends with a value or an error; a failure keeps the state reached
so far. `wp m Q E` is the weakest precondition: started in a state with it, `m` ends with a value in `Q` or with an
error in `E`.

- `wp_pure`, `wp_fail`, `wp_bind`, `wp_attempt`, `wp_read`, `wp_update`: one rule for each way to build a computation;
- `wp_mono`: weakening the postconditions;
- `wp_state`, `wp_of_state`: properties of the state only;
- `wp_ok`, `wp_error`, `wp_total`, `wp_cases`: what `wp` says about a run;
- `bind_eq_ok`: the runs of a sequence.
-/

namespace Lib

/-- Computations with a state and failure. -/
def Eff (ε σ α : Type) : Type := σ → Except ε α × σ

namespace Eff

variable {ε σ α β : Type}

/-- End with a value. -/
def ret (a : α) : Eff ε σ α := fun s => (.ok a, s)

/-- End with an error. -/
def fail (e : ε) : Eff ε σ α := fun s => (.error e, s)

/-- Go on with the value, stop at an error. -/
def bind (m : Eff ε σ α) (f : α → Eff ε σ β) : Eff ε σ β := fun s =>
  match m s with
  | (.ok a, s') => f a s'
  | (.error e, s') => (.error e, s')

instance : Monad (Eff ε σ) where
  pure := ret
  bind := bind

theorem bind_apply (m : Eff ε σ α) (f : α → Eff ε σ β) (s : σ) : (m >>= f) s = bind m f s := rfl

/-- Sequencing is associative, and doing nothing its unit. -/
instance : LawfulMonad (Eff ε σ) := by
  refine LawfulMonad.mk' _ (fun m => ?_) (fun a f => rfl) fun m f g => ?_
  · funext s
    show bind m (fun a => ret a) s = m s
    unfold bind
    cases m s with
    | mk r s' => cases r <;> rfl
  · funext s
    show bind (bind m f) g s = bind m (fun a => bind (f a) g) s
    unfold bind
    cases m s with
    | mk r s' => cases r <;> rfl

/-- Go on with the outcome, value or error. -/
def attempt (m : Eff ε σ α) : Eff ε σ (Except ε α) := fun s => (.ok (m s).1, (m s).2)

/-- Read the state. -/
def read (f : σ → α) : Eff ε σ α := fun s => (.ok (f s), s)

/-- Change the state. -/
def update (f : σ → σ) : Eff ε σ Unit := fun s => (.ok (), f s)

/-- Continue with a value, or fail. -/
def ofExcept : Except ε α → Eff ε σ α
  | .ok a => ret a
  | .error e => fail e

/-- The weakest precondition of ending with a value in `Q` or an error in `E`. -/
def wp (m : Eff ε σ α) (Q : α → σ → Prop) (E : ε → σ → Prop) (s : σ) : Prop :=
  match m s with
  | (.ok a, s') => Q a s'
  | (.error e, s') => E e s'

variable {Q : α → σ → Prop} {E : ε → σ → Prop} {s s' : σ}

@[simp] theorem wp_pure {a : α} : wp (pure a : Eff ε σ α) Q E s ↔ Q a s := Iff.rfl

@[simp] theorem wp_ret {a : α} : wp (ret a : Eff ε σ α) Q E s ↔ Q a s := Iff.rfl

@[simp] theorem wp_fail {e : ε} : wp (fail e : Eff ε σ α) Q E s ↔ E e s := Iff.rfl

@[simp] theorem wp_read {f : σ → α} : wp (read f : Eff ε σ α) Q E s ↔ Q (f s) s := Iff.rfl

@[simp] theorem wp_update {f : σ → σ} {Q : Unit → σ → Prop} : wp (update f : Eff ε σ Unit) Q E s ↔ Q () (f s) := Iff.rfl

@[simp] theorem wp_ofExcept_ok {a : α} : wp (ofExcept (.ok a) : Eff ε σ α) Q E s ↔ Q a s := Iff.rfl

@[simp] theorem wp_ofExcept_error {e : ε} : wp (ofExcept (.error e) : Eff ε σ α) Q E s ↔ E e s := Iff.rfl

/-- The rule of sequencing. -/
theorem wp_bind {m : Eff ε σ α} {f : α → Eff ε σ β} {Q : β → σ → Prop} :
    wp (m >>= f) Q E s ↔ wp m (fun a s' => wp (f a) Q E s') E s := by
  have hb : (m >>= f) s = Eff.bind m f s := rfl
  unfold wp
  rw [hb, Eff.bind]
  cases h : m s with
  | mk r s' => cases r <;> rfl

/-- The rule of catching an error. -/
theorem wp_attempt {m : Eff ε σ α} {Q : Except ε α → σ → Prop} :
    wp (attempt m) Q E s ↔ wp m (fun a s' => Q (.ok a) s') (fun e s' => Q (.error e) s') s := by
  unfold wp attempt
  cases h : m s with
  | mk r s' => cases r <;> rfl

/-- Weaker postconditions. -/
theorem wp_mono {m : Eff ε σ α} {Q' : α → σ → Prop} {E' : ε → σ → Prop} (h : wp m Q E s)
    (hQ : ∀ a s', Q a s' → Q' a s') (hE : ∀ e s', E e s' → E' e s') : wp m Q' E' s := by
  unfold wp at *
  cases hm : m s with
  | mk r s' =>
    rw [hm] at h
    cases r with
    | ok a => exact hQ a s' h
    | error e => exact hE e s' h

/-- A run that ends with a value is in the postcondition. -/
theorem wp_ok {m : Eff ε σ α} {a : α} (h : wp m Q E s) (hm : m s = (.ok a, s')) : Q a s' := by
  unfold wp at h
  rwa [hm] at h

/-- A run that ends with an error is in the error postcondition. -/
theorem wp_error {m : Eff ε σ α} {e : ε} (h : wp m Q E s) (hm : m s = (.error e, s')) : E e s' := by
  unfold wp at h
  rwa [hm] at h

/-- A computation that cannot fail ends with a value in the postcondition. -/
theorem wp_total {m : Eff ε σ α} (h : wp m Q (fun _ _ => False) s) : ∃ a s', m s = (.ok a, s') ∧ Q a s' := by
  unfold wp at h
  cases hm : m s with
  | mk r s' =>
    rw [hm] at h
    cases r with
    | ok a => exact ⟨a, s', rfl, h⟩
    | error e => exact h.elim

/-- A run ends with a value in the postcondition or with an error in the error postcondition. -/
theorem wp_cases {m : Eff ε σ α} (h : wp m Q E s) :
    (∃ a s', m s = (.ok a, s') ∧ Q a s') ∨ ∃ e s', m s = (.error e, s') ∧ E e s' := by
  unfold wp at h
  cases hm : m s with
  | mk r s' =>
    rw [hm] at h
    cases r with
    | ok a => exact Or.inl ⟨a, s', rfl, h⟩
    | error e => exact Or.inr ⟨e, s', rfl, h⟩

/-- A sequence ends with a value exactly if both parts do. -/
theorem bind_eq_ok {m : Eff ε σ α} {f : α → Eff ε σ β} {b : β} : (m >>= f) s = (.ok b, s') ↔
    ∃ a s₁, m s = (.ok a, s₁) ∧ f a s₁ = (.ok b, s') := by
  have hb : (m >>= f) s = Eff.bind m f s := rfl
  rw [hb, Eff.bind]
  cases m s with
  | mk r s₁ => cases r <;> simp

/-- Working a result into an answer leaves the state alone. -/
theorem state_bind_pure (m : Eff ε σ α) (f : α → β) (s : σ) : ((m >>= fun a => pure (f a)) s).2 = (m s).2 := by
  rw [bind_apply, Eff.bind]
  cases m s with
  | mk r s' => cases r <;> rfl

/-- The state after a run, whatever its outcome. -/
theorem wp_state {m : Eff ε σ α} {P : σ → Prop} (h : wp m (fun _ => P) (fun _ => P) s) : P (m s).2 := by
  unfold wp at h
  cases hm : m s with
  | mk r s' =>
    rw [hm] at h
    cases r <;> exact h

/-- Whatever the outcome, the state reached has the property. -/
theorem wp_of_state {m : Eff ε σ α} {P : σ → Prop} (h : P (m s).2) : wp m (fun _ => P) (fun _ => P) s := by
  unfold wp
  cases hm : m s with
  | mk r s' =>
    rw [hm] at h
    cases r <;> exact h

end Eff

end Lib
