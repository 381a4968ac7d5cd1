import CHttp.Common.ListRuns

/-!
# Who deallocates an item

A list owns its items until a removal hands one back: what is dropped by `List_itr_remove` or is
still there when the list is destroyed is to be deallocated, once. `ListNode_dispose` does that and
leaves out `NULL`. `List_destroy` applies the deallocator itself, to `NULL` as well, and calls
`ListNode_dispose` afterwards; only a deallocator that sets the pointer to `NULL`, as those of
`HdrList` and `BufferChain` do, keeps the second from doing it again. `Functor_dealloc` does not.
-/

namespace CHttp

open LinkedList

namespace ListRun

variable {α : Type} {s s' : ListRun α} {op : ListOp α}

/-- The deallocator was applied to what it was to be applied to: once to each item that was dropped,
or was in the list when it was destroyed, to no item that was returned, and not to `NULL`. -/
def Deallocated (s : ListRun α) : Prop := s.lref.deallocated = s.owed

/-- A list that is destroyed has no deallocator, or is empty, or its deallocator sets the pointer to
`NULL` and none of its items is `NULL`. -/
def SafeDestroy (s : ListRun α) (op : ListOp α) : Prop :=
  match op with
  | .destroy | .dispose => s.lref.dealloc = .absent ∨ s.nodes = [] ∨
      s.lref.dealloc = .clears ∧ ∀ x ∈ s.nodes, x.2.isSome = true
  | _ => True

/-- A deallocator that keeps the pointer is applied once more for each node. -/
theorem length_flatMap_keeps (xs : List (ℕ × Option α)) :
    (xs.flatMap fun x => destroyed .keeps x.2).length = (due .keeps xs).length + xs.length := by
  induction xs with
  | nil => rfl
  | cons x xs ih =>
    rw [List.flatMap_cons, List.length_append, ih, due_cons, List.length_append, List.length_cons]
    cases hx : x.2 with
    | none =>
      simp only [destroyed, Option.isSome_none, Bool.false_eq_true, and_false, if_false,
        List.length_cons, List.length_nil]
      omega
    | some item =>
      have hkeeps : Dealloc.keeps ≠ .absent := by decide
      simp only [destroyed, Option.isSome_some, hkeeps, ne_eq, not_false_eq_true, and_self, if_true,
        List.length_cons, List.length_nil]
      omega

/-- When `List_destroy` deallocates what is due. -/
theorem flatMap_destroyed_eq_due_iff (dealloc : Dealloc) (xs : List (ℕ × Option α)) :
    (xs.flatMap fun x => destroyed dealloc x.2) = due dealloc xs ↔
      dealloc = .absent ∨ xs = [] ∨ dealloc = .clears ∧ ∀ x ∈ xs, x.2.isSome = true := by
  cases dealloc with
  | absent => simp [destroyed, due]
  | clears =>
    have hflat : (xs.flatMap fun x => destroyed .clears x.2) = xs.map Prod.snd :=
      List.map_eq_flatMap.symm
    have hdue : due .clears xs = (xs.map Prod.snd).filter Option.isSome := if_neg (by decide)
    rw [hflat, hdue, eq_comm, List.filter_eq_self, List.forall_mem_map]
    constructor
    · exact fun h => .inr (.inr ⟨rfl, h⟩)
    · rintro (h | rfl | ⟨-, h⟩)
      · cases h
      · exact List.forall_mem_nil _
      · exact h
  | keeps =>
    constructor
    · intro h
      have hlen := congrArg List.length h
      rw [length_flatMap_keeps] at hlen
      exact .inr (.inl (List.length_eq_zero_iff.mp (by omega)))
    · rintro (h | rfl | ⟨h, -⟩)
      · cases h
      · rfl
      · cases h

/-- **One operation** deallocates what is due, exactly if it is none of the destructions that go
wrong. -/
theorem applied_eq_due_iff (s : ListRun α) (op : ListOp α) :
    op.applied s.lref.dealloc s.nodes = due s.lref.dealloc (op.dropped s.nodes) ↔
      s.SafeDestroy op := by
  cases op with
  | destroy => exact flatMap_destroyed_eq_due_iff s.lref.dealloc s.nodes
  | dispose => exact flatMap_destroyed_eq_due_iff s.lref.dealloc s.nodes
  | _ => exact iff_of_true rfl trivial

private theorem deallocated_step (h : s.Sound) (hop : s.Contract op) (hq : s.Deallocated)
    (hs : s.step op = .ok s') : s'.Deallocated ↔ s.SafeDestroy op := by
  obtain ⟨s₁, h₁, -, -, -, howed, hdealloc⟩ := h.step hop
  cases h₁.symm.trans hs
  rw [← applied_eq_due_iff, Deallocated, hdealloc, howed, show s.lref.deallocated = s.owed from hq,
    List.append_cancel_left_eq]

/-- **Each item is deallocated once** in every state of a run exactly if, whenever the list is
destroyed, it has no deallocator, or is empty, or its deallocator sets the pointer to `NULL` and
none of its items is `NULL`. -/
theorem deallocated_iff_safeDestroy (dealloc : Dealloc) {ops : List (ListOp α)}
    (hops : Machine.Along step Contract (new dealloc) ops) :
    (∃ s, Machine.run step (new dealloc) ops = .ok s) ∧
      (Machine.Always step Deallocated (new dealloc) ops ↔
        Machine.Along step SafeDestroy (new dealloc) ops) := by
  constructor
  · refine Machine.run_ok_of_along sound_step (fun s op h hop => ?_) (new_sound dealloc) hops
    obtain ⟨s', hs, -⟩ := h.step hop
    exact ⟨s', hs⟩
  · refine Machine.always_iff_along_within (fun s op s' h hop _ hs _ => sound_step s op s' h hop hs)
      (fun s op s' h hop hq hs => deallocated_step h hop hq hs) (fun s op e h hop _ he => ?_)
      (new_sound dealloc) rfl hops
    obtain ⟨s', hs, -⟩ := h.step hop
    cases hs.symm.trans he

/-- Two headers, one of them taken out again, and the list is disposed of. -/
theorem deallocated_headers :
    Machine.Always step Deallocated (new .clears)
      [.addBack (some 1), .addBack (some 2), .removeFirst, .dispose] := by
  refine (deallocated_iff_safeDestroy .clears ?_).2.mpr ?_
  · exact ⟨⟨rfl, trivial⟩, ⟨rfl, trivial⟩, ⟨rfl, trivial⟩, ⟨rfl, trivial⟩, trivial⟩
  · have hitems : ∀ x ∈ [(1, some 2)], x.2.isSome = true := by simp
    exact ⟨trivial, trivial, trivial, .inr (.inr ⟨rfl, hitems⟩), trivial⟩

/-- A `RunList` with one functor is disposed of: the functor is freed twice. -/
theorem not_deallocated_runList :
    Machine.Along step Contract (new .keeps) [.addBack (some 1), .dispose] ∧
      (∃ s, Machine.run step (new .keeps) [.addBack (some 1), .dispose] = .ok s ∧
        s.lref.deallocated = [some 1, some 1] ∧ s.owed = [some 1]) ∧
      ¬ Machine.Always step Deallocated (new .keeps) [.addBack (some 1), .dispose] := by
  refine ⟨⟨⟨rfl, trivial⟩, ⟨rfl, trivial⟩, trivial⟩, ⟨_, rfl, rfl, rfl⟩, fun hall => ?_⟩
  have hlast : [some 1, some 1] = [some 1] := hall.last rfl
  cases hlast

end ListRun

end CHttp
