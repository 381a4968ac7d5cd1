import Mathlib.Data.List.Induction
import Mathlib.Data.List.Nodup
import Mathlib.Logic.Function.Basic

/-!
# Doubly linked lists in memory

A heap maps addresses to cells with a link forward and one backward. `Segment h prev xs next` says
that the cells at the addresses of `xs` hold its items and are linked in that order, the first
backward to `prev` and the last forward to `next`. Segments are taken apart and put together at any
place (`segment_append`), are not touched by writes elsewhere (`Segment.congr`), and can be attached
to something else by one write at either end (`Segment.setNext`, `Segment.setPrev`).
-/

namespace DoublyLinked

/-- A cell. -/
structure Cell (α : Type*) where
  forward : Option ℕ
  backward : Option ℕ
  item : α

/-- Cells by address; none where nothing is allocated. -/
abbrev Heap (α : Type*) := ℕ → Option (Cell α)

variable {α : Type*}

/-- Where a segment is entered: its first address, or what comes after it. -/
def enter : List (ℕ × α) → Option ℕ → Option ℕ
  | [], next => next
  | x :: _, _ => some x.1

/-- Where a segment is left: its last address, or what comes before it. -/
def leave : Option ℕ → List (ℕ × α) → Option ℕ
  | prev, [] => prev
  | _, x :: xs => leave (some x.1) xs

/-- The cells of `xs` are linked in this order, between `prev` and `next`. -/
def Segment (h : Heap α) : Option ℕ → List (ℕ × α) → Option ℕ → Prop
  | _, [], _ => True
  | prev, x :: xs, next => h x.1 = some ⟨enter xs next, prev, x.2⟩ ∧ Segment h (some x.1) xs next

variable {h h' : Heap α} {prev next : Option ℕ} {xs ys : List (ℕ × α)} {x : ℕ × α}

@[simp]
theorem enter_append : enter (xs ++ ys) next = enter xs (enter ys next) := by
  cases xs with
  | nil => rfl
  | cons x xs => rfl

@[simp]
theorem leave_append : leave prev (xs ++ ys) = leave (leave prev xs) ys := by
  induction xs generalizing prev with
  | nil => rfl
  | cons x xs ih => exact ih

/-- A segment with cells is entered at its own first cell. -/
theorem enter_concat_append (w : ℕ × α) :
    enter (xs ++ [w] ++ ys) next = enter (xs ++ [w]) none := by
  cases xs with
  | nil => rfl
  | cons x xs => rfl

theorem enter_concat_ne {w : ℕ × α} {p : ℕ} (hp : p ∉ (xs ++ [w]).map Prod.fst) :
    enter (xs ++ [w]) none ≠ some p := by
  cases xs with
  | nil => exact fun heq => hp (Option.some.inj heq ▸ List.mem_cons_self)
  | cons x xs => exact fun heq => hp (Option.some.inj heq ▸ List.mem_cons_self)

theorem leave_cons_ne {p : ℕ} (hp : p ∉ (x :: xs).map Prod.fst) :
    leave prev (x :: xs) ≠ some p := by
  induction xs generalizing prev x with
  | nil => exact fun heq => hp (Option.some.inj heq ▸ List.mem_cons_self)
  | cons y xs ih =>
    have hy : p ∉ (y :: xs).map Prod.fst := fun hmem => hp (List.mem_cons_of_mem _ hmem)
    exact @ih (some x.1) y hy

/-- A segment is two segments, one after the other. -/
theorem segment_append :
    Segment h prev (xs ++ ys) next ↔
      Segment h prev xs (enter ys next) ∧ Segment h (leave prev xs) ys next := by
  induction xs generalizing prev with
  | nil => exact (and_iff_right trivial).symm
  | cons x xs ih =>
    simp only [List.cons_append, Segment, enter_append, ih, leave]
    exact and_assoc.symm

/-- Writes to other cells leave a segment alone. -/
theorem Segment.congr (hs : Segment h prev xs next) (heq : ∀ x ∈ xs, h' x.1 = h x.1) :
    Segment h' prev xs next := by
  induction xs generalizing prev with
  | nil => trivial
  | cons x xs ih =>
    obtain ⟨hx, hxs⟩ := List.forall_mem_cons.mp heq
    exact ⟨hx.trans hs.1, ih hs.2 hxs⟩

/-- A write at an address that the segment does not have. -/
theorem Segment.update (hs : Segment h prev xs next) {p : ℕ} (hp : p ∉ xs.map Prod.fst)
    (cell : Option (Cell α)) : Segment (Function.update h p cell) prev xs next := by
  refine hs.congr fun x hx => Function.update_of_ne ?_ _ _
  rintro rfl
  exact hp (List.mem_map_of_mem hx)

/-- The cell of an entry. -/
theorem Segment.cell (hs : Segment h prev (xs ++ x :: ys) next) :
    h x.1 = some ⟨enter ys next, leave prev xs, x.2⟩ := (segment_append.mp hs).2.1

/-- The first cell is linked backward to something else. -/
theorem Segment.setPrev (hs : Segment h prev (x :: xs) next) (hx : x.1 ∉ xs.map Prod.fst)
    (prev' : Option ℕ) :
    Segment (Function.update h x.1 (some ⟨enter xs next, prev', x.2⟩)) prev' (x :: xs) next :=
  ⟨Function.update_self .., hs.2.update hx _⟩

/-- The last cell is linked forward to something else. -/
theorem Segment.setNext (hs : Segment h prev (xs ++ [x]) next) (hx : x.1 ∉ xs.map Prod.fst)
    (next' : Option ℕ) :
    Segment (Function.update h x.1 (some ⟨next', leave prev xs, x.2⟩)) prev (xs ++ [x]) next' := by
  obtain ⟨hxs, -⟩ := segment_append.mp hs
  exact segment_append.mpr ⟨hxs.update hx _, Function.update_self .., trivial⟩

/-- The cells around a place in a list without repeated addresses. -/
theorem notMem_of_nodup {w y : ℕ × α} (h : ((xs ++ [w] ++ y :: ys).map Prod.fst).Nodup) :
    w.1 ∉ xs.map Prod.fst ∧ w.1 ∉ (y :: ys).map Prod.fst ∧
      y.1 ∉ (xs ++ [w]).map Prod.fst ∧ y.1 ∉ ys.map Prod.fst := by
  rw [List.map_append, List.nodup_append] at h
  obtain ⟨hxs, hys, hdisj⟩ := h
  rw [List.map_append, List.nodup_append] at hxs
  refine ⟨fun hw => hxs.2.2 w.1 hw w.1 (by simp) rfl, fun hw => ?_, fun hy => ?_,
    (List.nodup_cons.mp hys).1⟩
  · exact hdisj w.1 (by simp) w.1 hw rfl
  · exact hdisj y.1 hy y.1 (by simp) rfl

/-- Following a link from `start` leads through these addresses, and then to no other. -/
def Traverses (link : Cell α → Option ℕ) (h : Heap α) : Option ℕ → List ℕ → Prop
  | start, [] => start = none
  | start, p :: ps => start = some p ∧ ∃ cell, h p = some cell ∧ Traverses link h (link cell) ps

/-- A list is traversed forward from its first cell. -/
theorem Segment.traverses_forward (hs : Segment h prev xs none) :
    Traverses Cell.forward h (enter xs none) (xs.map Prod.fst) := by
  induction xs generalizing prev with
  | nil => rfl
  | cons x xs ih => exact ⟨rfl, _, hs.1, ih hs.2⟩

/-- A list is traversed backward from its last cell, in the reverse order. -/
theorem Segment.traverses_backward (hs : Segment h none xs next) :
    Traverses Cell.backward h (leave none xs) (xs.map Prod.fst).reverse := by
  induction xs using List.reverseRecOn generalizing next with
  | nil => rfl
  | append_singleton xs x ih =>
    rw [leave_append, List.map_append, List.reverse_append]
    exact ⟨rfl, _, hs.cell, ih (segment_append.mp hs).1⟩

/-- Two segments are linked to each other, by one write each. -/
theorem Segment.link {w y : ℕ × α} {mid mid' : Option ℕ}
    (hxs : Segment h prev (xs ++ [w]) mid) (hys : Segment h mid' (y :: ys) next)
    (hnodup : ((xs ++ [w] ++ y :: ys).map Prod.fst).Nodup) :
    Segment (Function.update (Function.update h y.1 (some ⟨enter ys next, some w.1, y.2⟩)) w.1
      (some ⟨some y.1, leave prev xs, w.2⟩)) prev (xs ++ [w] ++ y :: ys) next := by
  obtain ⟨hw, hwys, hyxs, hy⟩ := notMem_of_nodup hnodup
  rw [segment_append, leave_append]
  exact ⟨(hxs.update hyxs _).setNext hw (some y.1), (hys.setPrev hy (some w.1)).update hwys _⟩

end DoublyLinked
