import Mathlib.Data.List.Basic
import Mathlib.Logic.Function.Basic
import Mathlib.Data.Nat.ModEq

/-!
# Windows of a cyclic array

`window a c start n` lists the `n` entries of the array `a` from index `start` on, indices
taken modulo `c`. A ring buffer of capacity `c` holds such a window; its two operations are
`window_push` (store one entry after the window, legal while the window is shorter than the
ring) and `window_pop` (drop the first entry).
-/

namespace Cyclic

variable {α : Type*} (a : ℕ → α) (c start n : ℕ)

/-- The `n` entries from `start` on, indices modulo `c`. -/
def window : List α := (List.range n).map fun i => a ((start + i) % c)

@[simp]
theorem length_window : (window a c start n).length = n := by
  simp [window]

@[simp]
theorem window_zero : window a c start 0 = [] := rfl

/-- Only the residue of the first index matters. -/
theorem window_mod : window a c (start % c) n = window a c start n := by
  refine List.map_congr_left fun i _ => ?_
  rw [Nat.mod_add_mod]

/-- Dropping the first entry. -/
theorem window_pop : window a c start (n + 1) = a (start % c) :: window a c (start + 1) n := by
  simp only [window, List.range_succ_eq_map, List.map_cons, List.map_map, Nat.add_zero]
  congr 1
  refine List.map_congr_left fun i _ => ?_
  simp only [Function.comp_apply]
  rw [Nat.add_right_comm, Nat.add_assoc]

/-- Two entries less than a whole turn apart are different cells. -/
theorem mod_ne_of_lt {i j : ℕ} (hij : i < j) (hj : j < i + c) : i % c ≠ j % c := by
  intro h
  obtain ⟨k, hk⟩ := (Nat.modEq_iff_dvd' hij.le).mp h
  rcases k with _ | k
  · simp only [Nat.mul_zero] at hk
    omega
  · have : c ≤ c * (k + 1) := Nat.le_mul_of_pos_right c (Nat.succ_pos k)
    omega

/-- Storing an entry right after a window that is shorter than the ring. -/
theorem window_push [DecidableEq ℕ] (x : α) (hn : n < c) :
    window (Function.update a ((start + n) % c) x) c start (n + 1) =
      window a c start n ++ [x] := by
  simp only [window, List.range_succ, List.map_append, List.map_cons, List.map_nil,
    Function.update_self]
  congr 1
  refine List.map_congr_left fun i hi => Function.update_of_ne ?_ x a
  have hi' := List.mem_range.mp hi
  exact mod_ne_of_lt c (by omega) (by omega)

end Cyclic
