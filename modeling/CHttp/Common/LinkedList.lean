import CHttp.Abort
import CHttp.ForMathlib.DoublyLinked
import CHttp.ForMathlib.Except

/-!
# Lists

`list.c`: doubly linked lists of pointers, with the links patched as the source patches them. A
`LinkedList` is a list together with the heap of nodes; `Represents` says that its nodes, in the
order of the links, are at these addresses and hold these items, and for each operation one theorem
says what it does to what is represented.
-/

namespace CHttp

open DoublyLinked

/-- A `ListItemDeallocator`: there is none; it sets the pointer it is given to `NULL`; it does
not. -/
inductive Dealloc
  | absent
  | clears
  | keeps
  deriving DecidableEq, Repr

/-- `List`, with the heap of nodes. An item is a pointer, `none` being `NULL`; the addresses from
`free` on are not in use. History: the items that the deallocator was applied to. -/
structure LinkedList (α : Type) where
  nodes : Heap (Option α)
  free : ℕ
  count : ℕ
  head : Option ℕ
  tail : Option ℕ
  dealloc : Dealloc
  deallocated : List (Option α)

namespace LinkedList

variable {α : Type}

/-- `List_new`. -/
def new (dealloc : Dealloc) : LinkedList α := ⟨fun _ => none, 0, 0, none, none, dealloc, []⟩

/-- A pointer to a node is followed, in the function `func`: the address and the node. -/
def load (lref : LinkedList α) (func : String) : Option ℕ → Except Abort (ℕ × Cell (Option α))
  | none => .error ⟨func, "NULL is dereferenced"⟩
  | some p =>
    match lref.nodes p with
    | none => .error ⟨func, "a node that was freed is used"⟩
    | some node => .ok (p, node)

/-- A field of a node is assigned. -/
def modify (lref : LinkedList α) (func : String) (ref : Option ℕ)
    (f : Cell (Option α) → Cell (Option α)) : Except Abort (LinkedList α) := do
  let (p, node) ← lref.load func ref
  return { lref with nodes := Function.update lref.nodes p (some (f node)) }

/-- `ListNode_new`. The source has no return statement; the callers use the new node, which is what
the register for the result holds. -/
def listNodeNew (lref : LinkedList α) (content : Option α) (prev next : Option ℕ) :
    ℕ × LinkedList α :=
  (lref.free, { lref with
    nodes := Function.update lref.nodes lref.free (some ⟨next, prev, content⟩)
    free := lref.free + 1 })

/-- `ListNode_dispose`. -/
def listNodeDispose (lref : LinkedList α) (lnref : Option ℕ) : Except Abort (LinkedList α) := do
  let (p, node) ← lref.load "ListNode_dispose" lnref
  return { lref with
    nodes := Function.update lref.nodes p none
    deallocated := lref.deallocated ++
      if lref.dealloc ≠ .absent ∧ node.item.isSome then [node.item] else [] }

/-- `List_size`. -/
def size (lref : LinkedList α) : ℕ := lref.count

/-- `List_add_front`. -/
def addFront (lref : LinkedList α) (content : Option α) : Except Abort (LinkedList α) :=
  let (lnref, lref) := lref.listNodeNew content none none
  if lref.count = 0 then
    .ok { lref with head := some lnref, tail := some lnref, count := lref.count + 1 }
  else do
    let lref ← lref.modify "List_add_front" (some lnref) fun node =>
      { node with forward := lref.head, backward := none }
    let lref ← lref.modify "List_add_front" lref.head fun node =>
      { node with backward := some lnref }
    return { lref with head := some lnref, count := lref.count + 1 }

/-- `List_add_back`. -/
def addBack (lref : LinkedList α) (content : Option α) : Except Abort (LinkedList α) :=
  let (lnref, lref) := lref.listNodeNew content none lref.head
  if lref.count = 0 then
    .ok { lref with tail := some lnref, head := some lnref, count := lref.count + 1 }
  else do
    let lref ← lref.modify "List_add_back" (some lnref) fun node =>
      { node with backward := lref.tail, forward := none }
    let lref ← lref.modify "List_add_back" lref.tail fun node =>
      { node with forward := some lnref }
    return { lref with tail := some lnref, count := lref.count + 1 }

/-- `List_iterator`. -/
def iterator (lref : LinkedList α) : Option ℕ := lref.head

/-- `List_itr_next`. -/
def itrNext (lref : LinkedList α) (itr : Option ℕ) : Except Abort (Option ℕ) := do
  let (_, node) ← lref.load "List_itr_next" itr
  return node.forward

/-- `List_itr_unpack`. -/
def itrUnpack (lref : LinkedList α) (itr : Option ℕ) : Except Abort (Option α) := do
  let (_, node) ← lref.load "List_itr_unpack" itr
  return node.item

/-- The links around a node of a list with two nodes or more, in `List_itr_remove`. -/
def unlink (lref : LinkedList α) (itr : Option ℕ) : Except Abort (LinkedList α) := do
  let (_, node) ← lref.load "List_itr_remove" itr
  if lref.head = itr then do
    let lref ← lref.modify "List_itr_remove" node.forward fun n =>
      { n with backward := node.backward }
    return { lref with head := node.forward }
  else if lref.tail = itr then do
    let lref ← lref.modify "List_itr_remove" node.backward fun n =>
      { n with forward := node.forward }
    return { lref with tail := node.backward }
  else do
    let lref ← lref.modify "List_itr_remove" node.forward fun n =>
      { n with backward := node.backward }
    lref.modify "List_itr_remove" node.backward fun n => { n with forward := node.forward }

/-- `List_itr_remove`. -/
def itrRemove (lref : LinkedList α) (itr : Option ℕ) : Except Abort (LinkedList α) := do
  assertThat itr.isSome "List_itr_remove" "itr != NULL"
  if lref.count = 0 then return lref
  else if lref.count = 1 then do
    assertThat (itr = lref.head) "List_itr_remove" "*itr_ptr == lref->head"
    { lref with count := 0, head := none, tail := none }.listNodeDispose itr
  else do
    let lref ← lref.unlink itr
    { lref with count := lref.count - 1 }.listNodeDispose itr

/-! ### What a list represents -/

/-- The list has these nodes, in this order: their addresses and items. -/
structure Represents (lref : LinkedList α) (xs : List (ℕ × Option α)) : Prop where
  segment : Segment lref.nodes none xs none
  head : lref.head = enter xs none
  tail : lref.tail = leave none xs
  count : lref.count = xs.length
  nodup : (xs.map Prod.fst).Nodup
  lt : ∀ x ∈ xs, x.1 < lref.free

variable {lref : LinkedList α} {xs ys : List (ℕ × Option α)} {x : ℕ × Option α}

theorem new_represents (dealloc : Dealloc) : Represents (new dealloc : LinkedList α) [] :=
  ⟨trivial, rfl, rfl, rfl, List.nodup_nil, nofun⟩

theorem load_eq {func : String} {p : ℕ} {node : Cell (Option α)} (h : lref.nodes p = some node) :
    lref.load func (some p) = .ok (p, node) := by
  rw [load, h]

theorem modify_eq {func : String} {p : ℕ} {node : Cell (Option α)}
    {f : Cell (Option α) → Cell (Option α)} (h : lref.nodes p = some node) :
    lref.modify func (some p) f =
      .ok { lref with nodes := Function.update lref.nodes p (some (f node)) } := by
  rw [modify, load_eq h]
  rfl

theorem listNodeDispose_eq {p : ℕ} {node : Cell (Option α)} (h : lref.nodes p = some node) :
    lref.listNodeDispose (some p) = .ok { lref with
      nodes := Function.update lref.nodes p none
      deallocated := lref.deallocated ++
        if lref.dealloc ≠ .absent ∧ node.item.isSome then [node.item] else [] } := by
  rw [listNodeDispose, load_eq h]
  rfl

/-- The address of a new node is not that of a node of the list. -/
theorem Represents.free_notMem (h : lref.Represents xs) : lref.free ∉ xs.map Prod.fst := by
  intro hmem
  obtain ⟨x, hx, heq⟩ := List.mem_map.mp hmem
  exact absurd (h.lt x hx) (by omega)

/-- The node of an entry. -/
theorem Represents.node (h : lref.Represents (xs ++ x :: ys)) :
    lref.nodes x.1 = some ⟨enter ys none, leave none xs, x.2⟩ := h.segment.cell

/-- The addresses of a list with one new node. -/
theorem Represents.lt_succ (h : lref.Represents xs) (content : Option α) :
    ∀ x ∈ (lref.free, content) :: xs, x.1 < lref.free + 1 :=
  List.forall_mem_cons.mpr ⟨Nat.lt_succ_self _, fun x hx => Nat.lt_succ_of_lt (h.lt x hx)⟩

/-- **`List_add_front`.** -/
theorem Represents.addFront (h : lref.Represents xs) (content : Option α) :
    ∃ lref', lref.addFront content = .ok lref' ∧
      lref'.Represents ((lref.free, content) :: xs) := by
  have hfree := h.free_notMem
  have hnodup : (((lref.free, content) :: xs).map Prod.fst).Nodup :=
    List.nodup_cons.mpr ⟨hfree, h.nodup⟩
  cases xs with
  | nil =>
    have hcount : lref.count = 0 := h.count
    refine ⟨_, if_pos hcount, ⟨Function.update_self .., trivial⟩, rfl, rfl, ?_, hnodup,
      h.lt_succ content⟩
    exact congrArg (· + 1) hcount
  | cons x xs =>
    have hcount : lref.count ≠ 0 := by
      rw [h.count]
      exact Nat.succ_ne_zero _
    have hhead : lref.head = some x.1 := h.head
    have hne : x.1 ≠ lref.free := fun heq => hfree (heq ▸ List.mem_cons_self)
    -- the heap after the new node is written twice
    let nodes := Function.update (Function.update lref.nodes lref.free (some ⟨none, none, content⟩))
      lref.free (some ⟨some x.1, none, content⟩)
    have hseg : Segment nodes none (x :: xs) none := (h.segment.update hfree _).update hfree _
    have hnode : nodes x.1 = some ⟨enter xs none, none, x.2⟩ := hseg.1
    have hself : nodes lref.free = some ⟨some x.1, none, content⟩ := Function.update_self ..
    refine ⟨{ lref with
      nodes := Function.update nodes x.1 (some ⟨enter xs none, some lref.free, x.2⟩)
      free := lref.free + 1
      head := some lref.free
      count := lref.count + 1 }, ?_, ⟨?_, ?_⟩, rfl, h.tail, ?_, hnodup, h.lt_succ content⟩
    · simp only [LinkedList.addFront, listNodeNew, if_neg hcount, hhead]
      rw [modify_eq (Function.update_self ..), Except.ok_bind, modify_eq hnode]
      rfl
    · exact (Function.update_of_ne hne.symm _ _).trans hself
    · exact hseg.setPrev (List.nodup_cons.mp h.nodup).1 (some lref.free)
    · exact congrArg (· + 1) h.count

theorem Represents.nodup_concat (h : lref.Represents xs) (content : Option α) :
    ((xs ++ [(lref.free, content)]).map Prod.fst).Nodup := by
  rw [List.map_append, List.nodup_append]
  refine ⟨h.nodup, by simp, fun p hp q hq => ?_⟩
  rw [List.map_singleton, List.mem_singleton] at hq
  rintro rfl
  subst hq
  exact h.free_notMem hp

/-- The last node of a list is at an address of its own. -/
theorem Represents.last_notMem (h : lref.Represents (xs ++ [x])) : x.1 ∉ xs.map Prod.fst := by
  have hxs := h.nodup
  rw [List.map_append, List.nodup_append] at hxs
  exact fun hmem => hxs.2.2 x.1 hmem x.1 (List.mem_map_of_mem List.mem_cons_self) rfl

/-- **`List_add_back`.** -/
theorem Represents.addBack (h : lref.Represents xs) (content : Option α) :
    ∃ lref', lref.addBack content = .ok lref' ∧
      lref'.Represents (xs ++ [(lref.free, content)]) := by
  have hfree := h.free_notMem
  have hnodup := h.nodup_concat content
  have hlt : ∀ x ∈ xs ++ [(lref.free, content)], x.1 < lref.free + 1 := by
    intro x hx
    refine h.lt_succ content x (List.mem_cons.mpr ?_)
    exact (List.mem_append.mp hx).symm.imp_left List.mem_singleton.mp
  rcases List.eq_nil_or_concat xs with rfl | ⟨ys, x, rfl⟩
  · have hcount : lref.count = 0 := h.count
    have hhead : lref.head = none := h.head
    refine ⟨_, if_pos hcount, ⟨?_, trivial⟩, rfl, rfl, ?_, hnodup, hlt⟩
    · rw [hhead]
      exact Function.update_self ..
    · exact congrArg (· + 1) hcount
  · rw [List.concat_eq_append] at *
    have hcount : lref.count ≠ 0 := by
      rw [h.count, List.length_append]
      exact Nat.succ_ne_zero _
    have htail : lref.tail = some x.1 := by
      rw [h.tail, leave_append]
      rfl
    have hx := h.last_notMem
    have hne : x.1 ≠ lref.free := by
      intro heq
      rw [List.map_append, List.mem_append] at hfree
      exact hfree (.inr (heq ▸ List.mem_map_of_mem List.mem_cons_self))
    -- the heap after the new node is written twice
    let nodes := Function.update
      (Function.update lref.nodes lref.free (some ⟨lref.head, none, content⟩)) lref.free
      (some ⟨none, some x.1, content⟩)
    have hseg : Segment nodes none (ys ++ [x]) none := (h.segment.update hfree _).update hfree _
    have hnode : nodes x.1 = some ⟨none, leave none ys, x.2⟩ := hseg.cell
    have hself : nodes lref.free = some ⟨none, some x.1, content⟩ := Function.update_self ..
    refine ⟨{ lref with
      nodes := Function.update nodes x.1 (some ⟨some lref.free, leave none ys, x.2⟩)
      free := lref.free + 1
      tail := some lref.free
      count := lref.count + 1 }, ?_, ?_, ?_, ?_, ?_, hnodup, hlt⟩
    · simp only [LinkedList.addBack, listNodeNew, if_neg hcount, htail]
      rw [modify_eq (Function.update_self ..), Except.ok_bind, modify_eq hnode]
      rfl
    · refine segment_append.mpr ⟨hseg.setNext hx (some lref.free), ?_, trivial⟩
      rw [leave_append]
      exact (Function.update_of_ne hne.symm _ _).trans hself
    · cases ys with
      | nil => exact h.head
      | cons y ys => exact h.head
    · rw [leave_append]
      rfl
    · rw [List.length_append, ← h.count]
      rfl

/-- The addresses without that of one node. -/
theorem Represents.nodup_erase (h : lref.Represents (xs ++ x :: ys)) :
    ((xs ++ ys).map Prod.fst).Nodup ∧ x.1 ∉ (xs ++ ys).map Prod.fst := by
  have hnodup := h.nodup
  rw [List.map_append, List.map_cons, List.nodup_middle, List.nodup_cons, ← List.map_append]
    at hnodup
  exact hnodup.symm

/-- What `List_itr_remove` makes of the links: the node at `itr` is still there, and the list goes
past it. -/
structure Unlinked (lref lref' : LinkedList α) (x : ℕ × Option α) (xs : List (ℕ × Option α)) :
    Prop where
  segment : Segment lref'.nodes none xs none
  head : lref'.head = enter xs none
  tail : lref'.tail = leave none xs
  node : lref'.nodes x.1 = lref.nodes x.1
  count : lref'.count = lref.count
  free : lref'.free = lref.free

/-- The first of several nodes. -/
theorem Represents.unlink_head {y : ℕ × Option α} (h : lref.Represents (x :: y :: ys)) :
    ∃ lref', lref.unlink (some x.1) = .ok lref' ∧ Unlinked lref lref' x (y :: ys) := by
  have hsplit : lref.Represents ([] ++ x :: y :: ys) := h
  obtain ⟨hnodup, hx⟩ := hsplit.nodup_erase
  have hne : x.1 ≠ y.1 := fun heq => hx (heq ▸ List.mem_cons_self)
  have hnode : lref.nodes x.1 = some ⟨some y.1, none, x.2⟩ := h.segment.1
  have hnext : lref.nodes y.1 = some ⟨enter ys none, some x.1, y.2⟩ := h.segment.2.1
  have hhead : lref.head = some x.1 := h.head
  refine ⟨{ lref with
    nodes := Function.update lref.nodes y.1 (some ⟨enter ys none, none, y.2⟩)
    head := some y.1 }, ?_, ?_, rfl, h.tail, Function.update_of_ne hne _ _, rfl, rfl⟩
  · rw [unlink, load_eq hnode, Except.ok_bind]
    simp only [if_pos hhead, modify_eq hnext]
    rfl
  · exact h.segment.2.setPrev (List.nodup_cons.mp hnodup).1 none

/-- The last of several nodes. -/
theorem Represents.unlink_tail {w : ℕ × Option α} (h : lref.Represents (xs ++ [w] ++ [x])) :
    ∃ lref', lref.unlink (some x.1) = .ok lref' ∧ Unlinked lref lref' x (xs ++ [w]) := by
  obtain ⟨hnodup, hx⟩ := h.nodup_erase
  rw [List.append_nil] at hnodup hx
  have hw : w.1 ∉ xs.map Prod.fst := (notMem_of_nodup h.nodup).1
  have hne : x.1 ≠ w.1 := by
    rintro heq
    exact hx (heq ▸ List.mem_map_of_mem (List.mem_append_right xs List.mem_cons_self))
  have hnode : lref.nodes x.1 = some ⟨none, some w.1, x.2⟩ := by
    rw [h.node, leave_append]
    rfl
  have hseg := (segment_append.mp h.segment).1
  have hprev : lref.nodes w.1 = some ⟨some x.1, leave none xs, w.2⟩ := hseg.cell
  have htail : lref.tail = some x.1 := by
    rw [h.tail, leave_append]
    rfl
  have hhead : lref.head = enter (xs ++ [w]) none := h.head.trans (enter_concat_append w)
  have hnothead : lref.head ≠ some x.1 := by
    rw [hhead]
    exact enter_concat_ne hx
  refine ⟨{ lref with
    nodes := Function.update lref.nodes w.1 (some ⟨none, leave none xs, w.2⟩)
    tail := some w.1 }, ?_, hseg.setNext hw none, hhead, ?_, Function.update_of_ne hne _ _, rfl,
    rfl⟩
  · rw [unlink, load_eq hnode, Except.ok_bind]
    simp only [if_neg hnothead, if_pos htail, modify_eq hprev]
    rfl
  · rw [leave_append]
    rfl

/-- A node between two others. -/
theorem Represents.unlink_middle {w y : ℕ × Option α}
    (h : lref.Represents (xs ++ [w] ++ x :: y :: ys)) :
    ∃ lref', lref.unlink (some x.1) = .ok lref' ∧
      Unlinked lref lref' x (xs ++ [w] ++ y :: ys) := by
  obtain ⟨hnodup, hx⟩ := h.nodup_erase
  have hxw : x.1 ≠ w.1 := fun heq => hx (by simp [heq])
  have hxy : x.1 ≠ y.1 := fun heq => hx (by simp [heq])
  have hwy : w.1 ≠ y.1 := fun heq => (notMem_of_nodup hnodup).2.1 (heq ▸ List.mem_cons_self)
  obtain ⟨hseg, hseg'⟩ := segment_append.mp h.segment
  have hnode : lref.nodes x.1 = some ⟨some y.1, some w.1, x.2⟩ := by
    rw [h.node, leave_append]
    rfl
  have hnext : lref.nodes y.1 = some ⟨enter ys none, some x.1, y.2⟩ := hseg'.2.1
  -- the second write, to a node that the first did not touch
  have hprev : Function.update lref.nodes y.1 (some ⟨enter ys none, some w.1, y.2⟩) w.1 =
      some ⟨some x.1, leave none xs, w.2⟩ :=
    (Function.update_of_ne hwy _ _).trans hseg.cell
  have hhead : lref.head = enter (xs ++ [w]) none := h.head.trans (enter_concat_append w)
  have hnothead : lref.head ≠ some x.1 := by
    rw [hhead]
    exact enter_concat_ne fun hmem => hx (by
      rw [List.map_append]
      exact List.mem_append_left _ hmem)
  have htail : lref.tail = leave (some w.1) (y :: ys) := by
    rw [h.tail, leave_append]
    rfl
  have hnottail : lref.tail ≠ some x.1 := by
    rw [htail]
    exact leave_cons_ne fun hmem => hx (by
      rw [List.map_append]
      exact List.mem_append_right _ hmem)
  refine ⟨{ lref with
    nodes := Function.update
      (Function.update lref.nodes y.1 (some ⟨enter ys none, some w.1, y.2⟩)) w.1
      (some ⟨some y.1, leave none xs, w.2⟩) }, ?_, hseg.link hseg'.2 hnodup, ?_, ?_, ?_, rfl, rfl⟩
  · rw [unlink, load_eq hnode, Except.ok_bind]
    simp only [if_neg hnothead, if_neg hnottail]
    rw [modify_eq hnext, Except.ok_bind, modify_eq hprev]
  · exact hhead.trans (enter_concat_append w).symm
  · rw [leave_append, leave_append]
    exact htail
  · exact (Function.update_of_ne hxw _ _).trans (Function.update_of_ne hxy _ _)

/-- `List_itr_remove`, once the links are patched. -/
theorem Represents.dispose {lref' : LinkedList α} (h : lref.Represents (xs ++ x :: ys))
    (hu : Unlinked lref lref' x (xs ++ ys)) :
    ∃ t, { lref' with count := lref'.count - 1 }.listNodeDispose (some x.1) = .ok t ∧
      t.Represents (xs ++ ys) := by
  obtain ⟨hnodup, hx⟩ := h.nodup_erase
  have hnode : lref'.nodes x.1 = some ⟨enter ys none, leave none xs, x.2⟩ :=
    hu.node.trans h.node
  refine ⟨_, listNodeDispose_eq hnode, hu.segment.update hx _, hu.head, hu.tail, ?_, hnodup, ?_⟩
  · have hcount := h.count
    simp only [List.length_append, List.length_cons] at hcount ⊢
    rw [hu.count, hcount]
    omega
  · intro z hz
    refine hu.free ▸ h.lt z ?_
    rcases List.mem_append.mp hz with hz | hz
    · exact List.mem_append_left _ hz
    · exact List.mem_append_right _ (List.mem_cons_of_mem x hz)

/-- **`List_itr_remove`.** The node goes, wherever it is in the list, and the others keep their
order. -/
theorem Represents.itrRemove (h : lref.Represents (xs ++ x :: ys)) :
    ∃ lref', lref.itrRemove (some x.1) = .ok lref' ∧ lref'.Represents (xs ++ ys) := by
  have hcount : lref.count = xs.length + ys.length + 1 := by
    rw [h.count, List.length_append, List.length_cons]
    omega
  have hzero : lref.count ≠ 0 := by omega
  simp only [LinkedList.itrRemove, Option.isSome_some, assertThat_true, Except.ok_bind,
    if_neg hzero]
  by_cases hone : lref.count = 1
  · -- the only node
    have hxs : xs = [] := List.length_eq_zero_iff.mp (by omega)
    have hys : ys = [] := List.length_eq_zero_iff.mp (by omega)
    subst hxs hys
    have hhead : lref.head = some x.1 := h.head
    have hu : Unlinked lref { lref with head := none, tail := none } x ([] ++ []) :=
      ⟨trivial, rfl, rfl, rfl, rfl, rfl⟩
    simp only [if_pos hone, hhead, decide_true, assertThat_true, Except.ok_bind]
    have hdispose := h.dispose hu
    rwa [hone] at hdispose
  · rw [if_neg hone]
    have hunlink : ∃ lref', lref.unlink (some x.1) = .ok lref' ∧
        Unlinked lref lref' x (xs ++ ys) := by
      rcases List.eq_nil_or_concat xs with rfl | ⟨xs', w, rfl⟩
      · cases ys with
        | nil => exact absurd hcount hone
        | cons y ys => exact h.unlink_head
      · rw [List.concat_eq_append] at *
        cases ys with
        | nil =>
          rw [List.append_nil]
          exact h.unlink_tail
        | cons y ys => exact h.unlink_middle
    obtain ⟨lref', hlref', hu⟩ := hunlink
    rw [hlref', Except.ok_bind]
    exact h.dispose hu

/-- An iterator at a node goes to the next. -/
theorem Represents.itrNext (h : lref.Represents (xs ++ x :: ys)) :
    lref.itrNext (some x.1) = .ok (enter ys none) := by
  rw [LinkedList.itrNext, load_eq h.node]
  rfl

/-- The item at an iterator. -/
theorem Represents.itrUnpack (h : lref.Represents (xs ++ x :: ys)) :
    lref.itrUnpack (some x.1) = .ok x.2 := by
  rw [LinkedList.itrUnpack, load_eq h.node]
  rfl

end LinkedList

end CHttp
