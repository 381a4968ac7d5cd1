import Mathlib.Logic.Basic

/-!
# Computations that may fail

Equations for `Except`, and two computations side by side. `Except.Rel R x y` says that `x` and `y`
fail alike, or both succeed with results related by `R`. It is how a concrete operation is compared
with the abstract one it implements; `Rel.bind` carries the comparison through a `do` block, one
statement at a time.
-/

namespace Except

variable {ε α α' β β' : Type*}

@[simp]
theorem ok_bind {α β : Type _} (a : α) (f : α → Except ε β) : (Except.ok a >>= f) = f a := rfl

@[simp]
theorem error_bind {α β : Type _} (e : ε) (f : α → Except ε β) :
    (Except.error e >>= f) = .error e := rfl

@[simp]
theorem pure_eq_ok (a : α) : (pure a : Except ε α) = .ok a := rfl

/-- A block that succeeds ran its first statement. -/
theorem bind_eq_ok {α β : Type _} {x : Except ε α} {f : α → Except ε β} {b : β} :
    (x >>= f) = .ok b ↔ ∃ a, x = .ok a ∧ f a = .ok b := by
  cases x with
  | ok a => simp
  | error e => simp

/-- A block that fails did so in its first statement or after it. -/
theorem bind_eq_error {α β : Type _} {x : Except ε α} {f : α → Except ε β} {e : ε} :
    (x >>= f) = .error e ↔ x = .error e ∨ ∃ a, x = .ok a ∧ f a = .error e := by
  cases x with
  | ok a => simp
  | error e' => simp

theorem map_eq_ok {f : α → β} {x : Except ε α} {b : β} :
    x.map f = .ok b ↔ ∃ a, x = .ok a ∧ f a = b := by
  cases x with
  | ok a => simp [Except.map]
  | error e => simp [Except.map]

@[simp]
theorem mapError_ok {ε' : Type*} (f : ε → ε') (a : α) :
    (Except.ok a : Except ε α).mapError f = .ok a := rfl

@[simp]
theorem mapError_error {ε' : Type*} (f : ε → ε') (e : ε) :
    (Except.error e : Except ε α).mapError f = .error (f e) := rfl

theorem mapError_eq_ok {ε' : Type*} {f : ε → ε'} {x : Except ε α} {a : α} :
    x.mapError f = .ok a ↔ x = .ok a := by
  cases x with
  | ok b => simp
  | error e => simp

theorem mapError_eq_error {ε' : Type*} {f : ε → ε'} {x : Except ε α} {e' : ε'} :
    x.mapError f = .error e' ↔ ∃ e, x = .error e ∧ f e = e' := by
  cases x with
  | ok b => simp
  | error e => simp

/-- Both fail with the same error, or both succeed with related results. -/
inductive Rel (R : α → β → Prop) : Except ε α → Except ε β → Prop
  | ok {a : α} {b : β} (h : R a b) : Rel R (.ok a) (.ok b)
  | error (e : ε) : Rel R (.error e) (.error e)

variable {R : α → β → Prop} {S : α' → β' → Prop} {x : Except ε α} {y : Except ε β}

/-- One statement after another. -/
theorem Rel.bind {α α' β β' : Type _} {R : α → β → Prop} {S : α' → β' → Prop} {x : Except ε α}
    {y : Except ε β} {f : α → Except ε α'} {g : β → Except ε β'} (h : Rel R x y)
    (hf : ∀ a b, R a b → Rel S (f a) (g b)) : Rel S (x >>= f) (y >>= g) := by
  cases h with
  | ok h => exact hf _ _ h
  | error e => exact Rel.error e

/-- What the abstract computation returns, the concrete one returns up to `R`. -/
theorem Rel.exists_ok {b : β} (h : Rel R x y) (hy : y = .ok b) : ∃ a, x = .ok a ∧ R a b := by
  subst hy
  cases h with
  | ok h => exact ⟨_, rfl, h⟩

/-- What the concrete computation returns, the abstract one returns up to `R`. -/
theorem Rel.exists_ok_right {a : α} (h : Rel R x y) (hx : x = .ok a) : ∃ b, y = .ok b ∧ R a b := by
  subst hx
  cases h with
  | ok h => exact ⟨_, rfl, h⟩

/-- Where the abstract computation fails, so does the concrete one. -/
theorem Rel.eq_error {e : ε} (h : Rel R x y) (hy : y = .error e) : x = .error e := by
  subst hy
  cases h with
  | error => rfl

end Except
