import CHttp.ForMathlib.Machine
import CHttp.Runloop.FunctorList

/-!
# The functor ring is a bounded queue

What the ring of `functor_list.c` is for: a first-in first-out queue with room for one functor less
than its capacity. `BoundedFifo` is that queue, with nothing in it about indices, and the ring
refines it over every sequence of additions and removals. The ring of
`generics/circular_template.c` is the same but for the test of the capacity when it is made.
-/

namespace CHttp

variable {Functor : Type}

/-- What a user of the ring does. -/
inductive FifoOp (Functor : Type)
  | add (func : Functor)
  | remove
  deriving DecidableEq, Repr

/-- A queue of at most `bound` functors, oldest first, and what was removed from it. -/
structure BoundedFifo (Functor : Type) (bound : ℕ) where
  entries : List Functor
  removed : List Functor
  length_le : entries.length ≤ bound

namespace BoundedFifo

variable {bound : ℕ}

/-- The queue before anything was added. -/
def empty : BoundedFifo Functor bound := ⟨[], [], Nat.zero_le bound⟩

/-- One operation. A full queue takes no functor, and an empty one gives none. -/
def step (q : BoundedFifo Functor bound) :
    FifoOp Functor → Except Abort (BoundedFifo Functor bound)
  | .add func =>
    if h : q.entries.length < bound then
      .ok ⟨q.entries ++ [func], q.removed, by rw [List.length_append]; exact h⟩
    else .error ⟨"functor_list_add", "functor list is full cannot add another element"⟩
  | .remove =>
    match q with
    | ⟨[], _, _⟩ =>
      .error ⟨"functor_list_remove", "cannot remove an element from an empty list"⟩
    | ⟨func :: rest, removed, h⟩ => .ok ⟨rest, removed ++ [func], Nat.le_of_succ_le h⟩

end BoundedFifo

/-- A ring in use, and what `functor_list_remove` returned. -/
structure FunctorRing (Functor : Type) where
  list : FunctorList Functor
  removed : List Functor

namespace FunctorRing

/-- One operation. -/
def step (s : FunctorRing Functor) : FifoOp Functor → Except Abort (FunctorRing Functor)
  | .add func => do return { s with list := ← s.list.add func }
  | .remove => do
    let (func, list) ← s.list.remove
    return ⟨list, s.removed ++ [func]⟩

/-- The ring stands for a queue: the cells from `tail_plus + 1` on hold its entries, both indices
are in the ring, `functor_list_size` counts the entries, and the cell that the next addition would
write is none of theirs. -/
structure Refines (c : ℕ) (s : FunctorRing Functor) (q : BoundedFifo Functor (c - 1)) : Prop where
  entries : s.list.toList = q.entries
  size : s.list.size = q.entries.length
  removed : s.removed = q.removed
  capacity : s.list.capacity = c
  head_lt : s.list.head < c
  tailPlus_lt : s.list.tailPlus < c
  spared : ∀ i < s.list.size, (s.list.tailPlus + 1 + i) % c ≠ (s.list.head + 1) % c

variable {c : ℕ} {s : FunctorRing Functor} {q : BoundedFifo Functor (c - 1)}

/-- The next cell to write comes right after the window of the entries, which is not the whole
ring. -/
theorem refines_of_valid (hv : s.list.Valid) (hc : s.list.capacity = c)
    (hq : s.list.toList = q.entries) (hr : s.removed = q.removed) : s.Refines c q := by
  subst hc
  refine ⟨hq, ?_, hr, rfl, hv.head_lt, hv.tailPlus_lt, fun i hi => ?_⟩
  · rw [← hq, FunctorList.length_toList]
  · have hlt := FunctorList.size_lt hv
    rw [FunctorList.head_eq hv, Nat.mod_add_mod]
    exact Cyclic.mod_ne_of_lt _ (by omega) (by omega)

theorem Refines.valid (h : s.Refines c q) : s.list.Valid :=
  ⟨h.capacity ▸ h.head_lt, h.capacity ▸ h.tailPlus_lt⟩

/-- `functor_list_add` and the queue agree on what is full. -/
theorem step_add (h : s.Refines c q) (func : Functor) :
    Except.Rel (Refines c) (s.step (.add func)) (q.step (.add func)) := by
  have hlt := FunctorList.size_lt h.valid
  have hsize := h.size
  have hc := h.capacity
  by_cases hroom : q.entries.length < c - 1
  · obtain ⟨list, hadd, hv, hcap, hlist⟩ :=
      FunctorList.add_spec h.valid func (show s.list.size + 1 < s.list.capacity by omega)
    simp only [step, hadd, Except.ok_bind, BoundedFifo.step, hroom, dif_pos]
    refine .ok (refines_of_valid hv (hcap.trans hc) ?_ h.removed)
    rw [hlist, h.entries]
  · have hsize : s.list.size + 1 = s.list.capacity := by omega
    have hfull := FunctorList.add_full h.valid func hsize
    simp only [step, hfull, Except.error_bind, BoundedFifo.step, hroom, dif_neg, not_false_eq_true]
    exact .error _

/-- `functor_list_remove` and the queue agree on what is oldest. -/
theorem step_remove (h : s.Refines c q) :
    Except.Rel (Refines c) (s.step .remove) (q.step .remove) := by
  obtain ⟨entries, removed, hle⟩ := q
  cases entries with
  | nil =>
    simp only [step, FunctorList.remove_empty h.entries, Except.error_bind, BoundedFifo.step]
    exact .error _
  | cons func rest =>
    obtain ⟨list, hremove, hv, hcap, hlist⟩ := FunctorList.remove_spec h.valid h.entries
    simp only [step, hremove, Except.ok_bind, BoundedFifo.step]
    refine .ok (refines_of_valid hv (hcap.trans h.capacity) hlist ?_)
    rw [h.removed]

/-- **One operation** keeps the ring and the queue together, failures included. -/
theorem step_refines (s : FunctorRing Functor) (q : BoundedFifo Functor (c - 1))
    (op : FifoOp Functor) (h : s.Refines c q) : Except.Rel (Refines c) (s.step op) (q.step op) := by
  cases op with
  | add func => exact step_add h func
  | remove => exact step_remove h

/-- **The functor ring is a bounded FIFO.** Over every sequence of `functor_list_add` and
`functor_list_remove` on a list made with capacity `c`, the ring and a queue of at most `c - 1`
functors abort at the same operations, and otherwise hold the same functors and have returned the
same ones. -/
theorem run_refines_boundedFifo {c : ℕ} (hc : 2 ≤ c) {junk : ℕ → Functor}
    {list : FunctorList Functor} (hnew : FunctorList.new c junk = .ok list)
    (ops : List (FifoOp Functor)) :
    Except.Rel (Refines c) (Machine.run step ⟨list, []⟩ ops)
      (Machine.run BoundedFifo.step (BoundedFifo.empty : BoundedFifo Functor (c - 1)) ops) := by
  refine Machine.run_rel step_refines ?_
  have hmax : c ≤ rtorReadyListMax := by
    by_contra hgt
    simp [FunctorList.new, hgt] at hnew
  obtain ⟨list', hnew', hv, hcap, hlist⟩ := FunctorList.new_spec c junk (by omega) hmax
  cases hnew'.symm.trans hnew
  exact refines_of_valid hv hcap hlist rfl

/-- A ring of three cells takes two functors, gives back the first, takes a third where it has to
wrap around, and is full again. -/
theorem run_refines_wrapped :
    ∃ s, Machine.run step ⟨⟨3, 0, 0, fun _ => 0⟩, []⟩ [.add 1, .add 2, .remove, .add 3] = .ok s ∧
      s.list.head = 0 ∧ s.removed = [1] ∧
      Machine.run step ⟨⟨3, 0, 0, fun _ => 0⟩, []⟩ [.add 1, .add 2, .remove, .add 3, .add 4] =
        .error ⟨"functor_list_add", "functor list is full cannot add another element"⟩ := by
  have hnew : FunctorList.new 3 (fun _ => 0) = .ok (⟨3, 0, 0, fun _ => 0⟩ : FunctorList ℕ) := rfl
  have hrel := run_refines_boundedFifo (Nat.le_succ 2) hnew [.add 1, .add 2, .remove, .add 3]
  obtain ⟨s, hs, href⟩ := hrel.exists_ok rfl
  refine ⟨s, hs, ?_, href.removed, ?_⟩
  · cases hs
    rfl
  · exact (run_refines_boundedFifo (Nat.le_succ 2) hnew
      [.add 1, .add 2, .remove, .add 3, .add 4]).eq_error rfl

end FunctorRing

end CHttp
