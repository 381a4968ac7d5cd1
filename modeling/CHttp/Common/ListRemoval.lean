import CHttp.Common.LinkedList

/-!
# Searching and emptying lists

The rest of `list.c`: `List_find`, what is at the ends, the removals that hand the item back, and
`List_destroy`, which applies the deallocator to each item and then lets `ListNode_dispose` do so
again if the pointer is still there.
-/

namespace CHttp

open DoublyLinked

namespace LinkedList

variable {α : Type}

/-- The loop of `List_find`. -/
def findLoop [DecidableEq α] (this : LinkedList α) (needle : Option α) :
    ℕ → Option ℕ → Except Abort (Option ℕ)
  | 0, _ => .error ⟨"List_find", "the loop is still running"⟩
  | _ + 1, none => .ok none
  | fuel + 1, some iter => do
    let (_, node) ← this.load "List_find" (some iter)
    if node.item = needle then return some iter
    else this.findLoop needle fuel node.forward

/-- `List_find`. The loop is given as many turns as there are nodes, and one to see the end. -/
def find [DecidableEq α] (this : LinkedList α) (needle : Option α) : Except Abort (Option ℕ) :=
  this.findLoop needle (this.size + 1) this.head

/-- `List_first`. -/
def first (lref : LinkedList α) : Except Abort (Option α) :=
  if lref.head = none then .ok none
  else do
    let (_, node) ← lref.load "List_first" lref.head
    return node.item

/-- `List_last`. -/
def last (lref : LinkedList α) : Except Abort (Option α) :=
  if lref.tail = none then .ok none
  else do
    let (_, node) ← lref.load "List_last" lref.tail
    return node.item

/-- The only node of a list is removed, in `List_remove_first` or `List_remove_last`. -/
def removeOnly (lref : LinkedList α) (func : String) : Except Abort (Option α × LinkedList α) := do
  let lref := { lref with count := lref.count - 1 }
  let (_, node) ← lref.load func lref.head
  let lref ← lref.modify func lref.head fun n => { n with item := none }
  let lref ← lref.listNodeDispose lref.head
  return (node.item, { lref with head := none, tail := none })

/-- A node that the list no longer goes through is emptied and disposed of. -/
def discard (lref : LinkedList α) (func : String) (lnref : Option ℕ) :
    Except Abort (Option α × LinkedList α) := do
  let (_, node) ← lref.load func lnref
  let lref ← lref.modify func lnref fun _ => ⟨none, none, none⟩
  let lref ← lref.listNodeDispose lnref
  return (node.item, { lref with count := lref.count - 1 })

/-- `List_remove_first`. -/
def removeFirst (lref : LinkedList α) : Except Abort (Option α × LinkedList α) :=
  if lref.count = 0 then .ok (none, lref)
  else if lref.count = 1 then lref.removeOnly "List_remove_first"
  else do
    let first := lref.head
    let (_, node) ← lref.load "List_remove_first" first
    let lref := { lref with head := node.forward }
    let lref ← lref.modify "List_remove_first" lref.head fun n => { n with backward := none }
    lref.discard "List_remove_first" first

/-- `List_remove_last`. -/
def removeLast (lref : LinkedList α) : Except Abort (Option α × LinkedList α) :=
  if lref.count = 0 then .ok (none, lref)
  else if lref.count = 1 then lref.removeOnly "List_remove_last"
  else do
    let last := lref.tail
    let (_, node) ← lref.load "List_remove_last" last
    let lref := { lref with tail := node.backward }
    let lref ← lref.modify "List_remove_last" lref.tail fun n => { n with forward := none }
    lref.discard "List_remove_last" last

/-- `lref->dealloc(&(t->item))` in `List_destroy`, if there is a deallocator. The item is not looked
at. -/
def deallocItem (lref : LinkedList α) (t : Option ℕ) : Except Abort (LinkedList α) :=
  if lref.dealloc = .absent then .ok lref
  else do
    let (_, node) ← lref.load "List_destroy" t
    let lref := { lref with deallocated := lref.deallocated ++ [node.item] }
    if lref.dealloc = .clears then lref.modify "List_destroy" t fun n => { n with item := none }
    else return lref

/-- The loop of `List_destroy`. -/
def destroyLoop (lref : LinkedList α) : ℕ → Option ℕ → Except Abort (LinkedList α)
  | 0, _ => .error ⟨"List_destroy", "the loop is still running"⟩
  | _ + 1, none => .ok lref
  | fuel + 1, some t => do
    let lref ← lref.deallocItem (some t)
    let (_, node) ← lref.load "List_destroy" (some t)
    let lref ← lref.listNodeDispose (some t)
    lref.destroyLoop fuel node.forward

/-- `List_destroy`; `List_init` makes the list empty. -/
def destroy (lref : LinkedList α) : Except Abort (LinkedList α) := do
  let lref ← lref.destroyLoop (lref.size + 1) lref.head
  return { lref with count := 0, head := none, tail := none }

/-- What `List_destroy` passes to the deallocator for one node: its item, and again if the
deallocator left the pointer as it was. -/
def destroyed (dealloc : Dealloc) (item : Option α) : List (Option α) :=
  match dealloc with
  | .absent => []
  | .clears => [item]
  | .keeps => item :: if item.isSome then [item] else []

/-! ### Searching -/

variable {lref : LinkedList α} {xs ys : List (ℕ × Option α)} {x : ℕ × Option α}

/-- A loop over a list has a turn for each node, and one more. -/
theorem Represents.length_lt_size_succ (h : lref.Represents xs) : xs.length < lref.size + 1 := by
  rw [size, h.count]
  exact Nat.lt_succ_self _

/-- The search from a node on. -/
theorem findLoop_eq [DecidableEq α] {prev : Option ℕ} {fuel : ℕ} (needle : Option α)
    (hs : Segment lref.nodes prev xs none) (hfuel : xs.length < fuel) :
    lref.findLoop needle fuel (enter xs none) =
      .ok ((xs.find? fun x => x.2 = needle).map Prod.fst) := by
  induction xs generalizing prev fuel with
  | nil =>
    cases fuel with
    | zero => cases hfuel
    | succ fuel => rfl
  | cons x xs ih =>
    cases fuel with
    | zero => cases hfuel
    | succ fuel =>
      change lref.findLoop needle (fuel + 1) (some x.1) = _
      rw [findLoop, load_eq hs.1, Except.ok_bind]
      by_cases hx : x.2 = needle
      · simp [hx]
      · simp only [hx, if_false, List.find?_cons, decide_false]
        exact ih hs.2 (Nat.lt_of_succ_lt_succ hfuel)

/-- **`List_find`** returns the first node with the item. -/
theorem Represents.find [DecidableEq α] (h : lref.Represents xs) (needle : Option α) :
    lref.find needle = .ok ((xs.find? fun x => x.2 = needle).map Prod.fst) := by
  rw [LinkedList.find, h.head]
  exact findLoop_eq needle h.segment h.length_lt_size_succ

theorem Represents.first (h : lref.Represents xs) : lref.first = .ok (xs.head?.bind Prod.snd) := by
  cases xs with
  | nil => exact if_pos h.head
  | cons x xs =>
    have hhead : lref.head = some x.1 := h.head
    rw [LinkedList.first, if_neg (by simp [hhead]), hhead, load_eq h.segment.1]
    rfl

theorem Represents.last (h : lref.Represents xs) :
    lref.last = .ok (xs.getLast?.bind Prod.snd) := by
  rcases List.eq_nil_or_concat xs with rfl | ⟨ys, x, rfl⟩
  · exact if_pos h.tail
  · rw [List.concat_eq_append] at *
    have htail : lref.tail = some x.1 := by
      rw [h.tail, leave_append]
      rfl
    rw [LinkedList.last, if_neg (by simp [htail]), htail, load_eq h.segment.cell,
      List.getLast?_concat]
    rfl

/-! ### Removals that hand the item back -/

/-- The deallocator was not applied to anything. -/
structure Quiet (lref lref' : LinkedList α) : Prop where
  dealloc : lref'.dealloc = lref.dealloc
  deallocated : lref'.deallocated = lref.deallocated

private theorem listNodeDispose_of_item_none {p : ℕ} {node : Cell (Option α)}
    (h : lref.nodes p = some node) (hitem : node.item = none) :
    lref.listNodeDispose (some p) =
      .ok { lref with nodes := Function.update lref.nodes p none } := by
  rw [listNodeDispose_eq h, hitem]
  simp

private theorem discard_eq {func : String} {p : ℕ} {node : Cell (Option α)}
    (h : lref.nodes p = some node) :
    lref.discard func (some p) = .ok (node.item, { lref with
      nodes := Function.update lref.nodes p none
      count := lref.count - 1 }) := by
  have hself : Function.update lref.nodes p (some ⟨none, none, none⟩) p =
      some ⟨none, none, none⟩ := Function.update_self ..
  rw [discard, load_eq h, Except.ok_bind]
  simp only [modify_eq h, Except.ok_bind]
  rw [listNodeDispose_of_item_none hself rfl, Except.ok_bind]
  simp only [Function.update_idem]
  rfl

/-- The only node. -/
theorem Represents.removeOnly (h : lref.Represents [x]) (func : String) :
    ∃ lref', lref.removeOnly func = .ok (x.2, lref') ∧ lref'.Represents [] ∧ Quiet lref lref' := by
  have hhead : lref.head = some x.1 := h.head
  have hnode : lref.nodes x.1 = some ⟨none, none, x.2⟩ := h.segment.1
  have hself : Function.update lref.nodes x.1 (some ⟨none, none, none⟩) x.1 =
      some ⟨none, none, none⟩ := Function.update_self ..
  let lref₁ : LinkedList α := { lref with count := lref.count - 1 }
  let lref₂ : LinkedList α := { lref₁ with
    nodes := Function.update lref.nodes x.1 (some ⟨none, none, none⟩) }
  have hnode₁ : lref₁.nodes x.1 = some ⟨none, none, x.2⟩ := hnode
  have hload : lref₁.load func (some x.1) = .ok (x.1, ⟨none, none, x.2⟩) := load_eq hnode₁
  have hmodify : lref₁.modify func (some x.1) (fun n => { n with item := none }) = .ok lref₂ :=
    modify_eq hnode₁
  have hdispose : lref₂.listNodeDispose (some x.1) =
      .ok { lref₂ with nodes := Function.update lref₂.nodes x.1 none } :=
    listNodeDispose_of_item_none hself rfl
  refine ⟨{ lref₂ with
    nodes := Function.update lref₂.nodes x.1 none
    head := none
    tail := none }, ?_, ⟨trivial, rfl, rfl, ?_, List.nodup_nil, nofun⟩, rfl, rfl⟩
  · have hhead₁ : lref₁.head = some x.1 := hhead
    have hhead₂ : lref₂.head = some x.1 := hhead
    change (do
      let (_, node) ← lref₁.load func lref₁.head
      let lref ← lref₁.modify func lref₁.head fun n => { n with item := none }
      let lref ← lref.listNodeDispose lref.head
      return (node.item, { lref with head := none, tail := none })) = _
    simp only [hhead₁, hload, hmodify, hhead₂, hdispose, Except.ok_bind]
    rfl
  · change lref.count - 1 = 0
    rw [h.count]
    rfl

/-- A list with several nodes does not take the branches for none or one. -/
theorem Represents.two_le (h : lref.Represents xs) (hxs : 2 ≤ xs.length) :
    lref.count ≠ 0 ∧ lref.count ≠ 1 := by
  rw [h.count]
  omega

/-- **`List_remove_first`.** -/
theorem Represents.removeFirst (h : lref.Represents xs) :
    ∃ lref', lref.removeFirst = .ok (xs.head?.bind Prod.snd, lref') ∧
      lref'.Represents xs.tail ∧ Quiet lref lref' := by
  match xs, h with
  | [], h => exact ⟨lref, if_pos h.count, h, rfl, rfl⟩
  | [x], h =>
    have hcount : lref.count = 1 := h.count
    obtain ⟨lref', hremove, hrep⟩ := h.removeOnly "List_remove_first"
    refine ⟨lref', ?_, hrep⟩
    rw [LinkedList.removeFirst, if_neg (by simp [hcount]), if_pos hcount]
    exact hremove
  | x :: y :: ys, h =>
    have hsplit : lref.Represents ([] ++ x :: y :: ys) := h
    obtain ⟨hnodup, hx⟩ := hsplit.nodup_erase
    obtain ⟨hzero, hone⟩ := h.two_le (Nat.le_add_left 2 ys.length)
    have hne : x.1 ≠ y.1 := fun heq => hx (heq ▸ List.mem_cons_self)
    have hhead : lref.head = some x.1 := h.head
    have hnode : lref.nodes x.1 = some ⟨some y.1, none, x.2⟩ := h.segment.1
    have hnext : lref.nodes y.1 = some ⟨enter ys none, some x.1, y.2⟩ := h.segment.2.1
    let lref₁ : LinkedList α := { lref with head := some y.1 }
    let lref₂ : LinkedList α := { lref₁ with
      nodes := Function.update lref.nodes y.1 (some ⟨enter ys none, none, y.2⟩) }
    have hnext₁ : lref₁.nodes y.1 = some ⟨enter ys none, some x.1, y.2⟩ := hnext
    -- the first node, once the second is made the head
    have hfirst : lref₂.nodes x.1 = some ⟨some y.1, none, x.2⟩ :=
      (Function.update_of_ne hne _ _).trans hnode
    have hmodify : lref₁.modify "List_remove_first" (some y.1)
        (fun n => { n with backward := none }) = .ok lref₂ := modify_eq hnext₁
    have hseg : Segment lref₂.nodes none (y :: ys) none :=
      h.segment.2.setPrev (List.nodup_cons.mp hnodup).1 none
    refine ⟨{ lref₂ with
      nodes := Function.update lref₂.nodes x.1 none
      count := lref₂.count - 1 }, ?_, ⟨hseg.update hx _, rfl, h.tail, ?_, hnodup, fun z hz => ?_⟩,
      rfl, rfl⟩
    · simp only [LinkedList.removeFirst, if_neg hzero, if_neg hone, hhead]
      rw [load_eq hnode, Except.ok_bind]
      exact Except.bind_eq_ok.mpr ⟨lref₂, hmodify, discard_eq hfirst⟩
    · change lref.count - 1 = _
      rw [h.count]
      rfl
    · exact h.lt z (List.mem_cons_of_mem x hz)

/-- **`List_remove_last`.** -/
theorem Represents.removeLast (h : lref.Represents xs) :
    ∃ lref', lref.removeLast = .ok (xs.getLast?.bind Prod.snd, lref') ∧
      lref'.Represents xs.dropLast ∧ Quiet lref lref' := by
  rcases List.eq_nil_or_concat xs with rfl | ⟨ys, x, rfl⟩
  · exact ⟨lref, if_pos h.count, h, rfl, rfl⟩
  rw [List.concat_eq_append] at *
  rw [List.getLast?_concat, List.dropLast_concat]
  rcases List.eq_nil_or_concat ys with rfl | ⟨xs, w, rfl⟩
  · have hcount : lref.count = 1 := h.count
    obtain ⟨lref', hremove, hrep⟩ := h.removeOnly "List_remove_last"
    refine ⟨lref', ?_, hrep⟩
    rw [LinkedList.removeLast, if_neg (by simp [hcount]), if_pos hcount]
    exact hremove
  rw [List.concat_eq_append] at *
  obtain ⟨hnodup, hx⟩ := h.nodup_erase
  rw [List.append_nil] at hnodup hx
  obtain ⟨hzero, hone⟩ := h.two_le (by simp)
  have hw : w.1 ∉ xs.map Prod.fst := (notMem_of_nodup h.nodup).1
  have hne : x.1 ≠ w.1 := by
    intro heq
    exact hx (heq ▸ List.mem_map_of_mem (List.mem_append_right xs List.mem_cons_self))
  have htail : lref.tail = some x.1 := by
    rw [h.tail, leave_append]
    rfl
  have hnode : lref.nodes x.1 = some ⟨none, some w.1, x.2⟩ := by
    rw [h.node, leave_append]
    rfl
  have hseg := (segment_append.mp h.segment).1
  have hprev : lref.nodes w.1 = some ⟨some x.1, leave none xs, w.2⟩ := hseg.cell
  let lref₁ : LinkedList α := { lref with tail := some w.1 }
  let lref₂ : LinkedList α := { lref₁ with
    nodes := Function.update lref.nodes w.1 (some ⟨none, leave none xs, w.2⟩) }
  have hprev₁ : lref₁.nodes w.1 = some ⟨some x.1, leave none xs, w.2⟩ := hprev
  -- the last node, once the one before it is made the tail
  have hlast : lref₂.nodes x.1 = some ⟨none, some w.1, x.2⟩ :=
    (Function.update_of_ne hne _ _).trans hnode
  have hmodify : lref₁.modify "List_remove_last" (some w.1) (fun n => { n with forward := none })
      = .ok lref₂ := modify_eq hprev₁
  refine ⟨{ lref₂ with
    nodes := Function.update lref₂.nodes x.1 none
    count := lref₂.count - 1 }, ?_, ⟨(hseg.setNext hw none).update hx _,
      h.head.trans (enter_concat_append w), ?_, ?_, hnodup, fun z hz => ?_⟩, rfl, rfl⟩
  · simp only [LinkedList.removeLast, if_neg hzero, if_neg hone, htail]
    rw [load_eq hnode, Except.ok_bind]
    exact Except.bind_eq_ok.mpr ⟨lref₂, hmodify, discard_eq hlast⟩
  · rw [leave_append]
    rfl
  · change lref.count - 1 = _
    rw [h.count, List.length_append]
    rfl
  · exact h.lt z (List.mem_append_left _ hz)

/-! ### `List_destroy` -/

/-- The deallocator is applied to the item of a node, and what `ListNode_dispose` will apply it to
after that. -/
theorem deallocItem_spec {p : ℕ} {node : Cell (Option α)} (h : lref.nodes p = some node) :
    ∃ lref' item, lref.deallocItem (some p) = .ok lref' ∧
      lref'.nodes p = some { node with item := item } ∧ (∀ q ≠ p, lref'.nodes q = lref.nodes q) ∧
      lref'.dealloc = lref.dealloc ∧
      lref'.deallocated ++ (if lref.dealloc ≠ .absent ∧ item.isSome then [item] else []) =
        lref.deallocated ++ destroyed lref.dealloc node.item := by
  cases hd : lref.dealloc with
  | absent =>
    refine ⟨lref, node.item, if_pos hd, h, fun _ _ => rfl, hd, ?_⟩
    simp [destroyed]
  | clears =>
    let lref₁ : LinkedList α := { lref with deallocated := lref.deallocated ++ [node.item] }
    have hnode₁ : lref₁.nodes p = some node := h
    refine ⟨{ lref₁ with nodes := Function.update lref.nodes p (some { node with item := none }) },
      none, ?_, Function.update_self .., fun q hq => Function.update_of_ne hq _ _, hd, ?_⟩
    · rw [deallocItem, if_neg (by simp [hd]), load_eq h]
      exact (if_pos hd).trans (modify_eq hnode₁)
    · simp [lref₁, destroyed]
  | keeps =>
    refine ⟨{ lref with deallocated := lref.deallocated ++ [node.item] }, node.item, ?_, h,
      fun _ _ => rfl, hd, ?_⟩
    · rw [deallocItem, if_neg (by simp [hd]), load_eq h]
      exact if_neg (by simp [hd])
    · simp [destroyed]

/-- The loop of `List_destroy` from a node on. -/
theorem destroyLoop_spec {prev : Option ℕ} {fuel : ℕ} (hs : Segment lref.nodes prev xs none)
    (hnodup : (xs.map Prod.fst).Nodup) (hfuel : xs.length < fuel) :
    ∃ lref', lref.destroyLoop fuel (enter xs none) = .ok lref' ∧ lref'.dealloc = lref.dealloc ∧
      lref'.deallocated =
        lref.deallocated ++ xs.flatMap fun x => destroyed lref.dealloc x.2 := by
  induction xs generalizing lref prev fuel with
  | nil =>
    cases fuel with
    | zero => cases hfuel
    | succ fuel => exact ⟨lref, rfl, rfl, (List.append_nil _).symm⟩
  | cons x xs ih =>
    cases fuel with
    | zero => cases hfuel
    | succ fuel =>
      obtain ⟨hx, hnodup⟩ := List.nodup_cons.mp hnodup
      obtain ⟨lref₁, item, hitem, hnode, hrest, hd, hdealloc⟩ := deallocItem_spec hs.1
      have hseg : Segment lref₁.nodes (some x.1) xs none := by
        refine hs.2.congr fun y hy => hrest y.1 ?_
        rintro heq
        exact hx (heq ▸ List.mem_map_of_mem hy)
      let lref₂ : LinkedList α := { lref₁ with
        nodes := Function.update lref₁.nodes x.1 none
        deallocated := lref₁.deallocated ++
          if lref₁.dealloc ≠ .absent ∧ item.isSome then [item] else [] }
      have hdispose : lref₁.listNodeDispose (some x.1) = .ok lref₂ := listNodeDispose_eq hnode
      have hseg₂ : Segment lref₂.nodes (some x.1) xs none := hseg.update hx _
      obtain ⟨lref', hloop, hd', hdealloc'⟩ := ih hseg₂ hnodup (Nat.lt_of_succ_lt_succ hfuel)
      refine ⟨lref', ?_, hd'.trans hd, ?_⟩
      · change lref.destroyLoop (fuel + 1) (some x.1) = _
        rw [destroyLoop, hitem, Except.ok_bind, load_eq hnode, Except.ok_bind, hdispose]
        exact hloop
      · have hsecond : lref₂.deallocated = lref.deallocated ++ destroyed lref.dealloc x.2 := by
          rw [← hdealloc, ← hd]
        have hsame : lref₂.dealloc = lref.dealloc := hd
        rw [hdealloc', hsecond, hsame, List.flatMap_cons, List.append_assoc]

/-- **`List_destroy`** leaves an empty list. -/
theorem Represents.destroy (h : lref.Represents xs) :
    ∃ lref', lref.destroy = .ok lref' ∧ lref'.Represents [] ∧ lref'.dealloc = lref.dealloc ∧
      lref'.deallocated =
        lref.deallocated ++ xs.flatMap fun x => destroyed lref.dealloc x.2 := by
  obtain ⟨lref', hloop, hd, hdealloc⟩ :=
    destroyLoop_spec h.segment h.nodup h.length_lt_size_succ
  refine ⟨{ lref' with count := 0, head := none, tail := none }, ?_,
    ⟨trivial, rfl, rfl, rfl, List.nodup_nil, nofun⟩, hd, hdealloc⟩
  rw [LinkedList.destroy, h.head, hloop]
  rfl

end LinkedList

end CHttp
