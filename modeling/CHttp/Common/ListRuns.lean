import CHttp.Common.ListRemoval
import CHttp.ForMathlib.Machine

/-!
# Lists in use

Every sequence of operations of `list.c` on one list. `ListRun` is the list beside what it is to be:
the nodes in order, what the removals are to return, and the items that are to be deallocated.
`Represents.perform` says of each operation what it returns, what it leaves in the list, and what it
applies the deallocator to; the representation invariant follows for every run.
-/

namespace CHttp

open DoublyLinked

namespace LinkedList

variable {α : Type}

/-- The links of some nodes changed, and nothing else. -/
structure Relinked (lref lref' : LinkedList α) : Prop extends Quiet lref lref' where
  items : ∀ p, (lref'.nodes p).map Cell.item = (lref.nodes p).map Cell.item

variable {lref lref' lref'' : LinkedList α} {xs ys : List (ℕ × Option α)} {x : ℕ × Option α}

theorem Relinked.trans (h : Relinked lref lref') (h' : Relinked lref' lref'') :
    Relinked lref lref'' :=
  ⟨⟨h'.dealloc.trans h.dealloc, h'.deallocated.trans h.deallocated⟩,
    fun p => (h'.items p).trans (h.items p)⟩

theorem nodes_of_load {func : String} {ref : Option ℕ} {p : ℕ} {node : Cell (Option α)}
    (h : lref.load func ref = .ok (p, node)) : lref.nodes p = some node := by
  cases ref with
  | none => cases h
  | some q =>
    simp only [load] at h
    split at h
    · cases h
    · next hq =>
      cases h
      exact hq

private theorem relinked_of_modify {func : String} {ref : Option ℕ}
    {f : Cell (Option α) → Cell (Option α)}
    (h : lref.modify func ref f = .ok lref') (hf : ∀ n, (f n).item = n.item) :
    Relinked lref lref' := by
  simp only [modify, Except.bind_eq_ok] at h
  obtain ⟨⟨p, node⟩, hload, heq⟩ := h
  cases heq
  have hnode := nodes_of_load hload
  refine ⟨⟨rfl, rfl⟩, fun q => ?_⟩
  by_cases hq : q = p
  · subst hq
    rw [hnode]
    simp [hf]
  · simp [hq]

private theorem relinked_of_unlink {itr : Option ℕ} (h : lref.unlink itr = .ok lref') :
    Relinked lref lref' := by
  simp only [unlink, Except.bind_eq_ok] at h
  obtain ⟨⟨p, node⟩, -, h⟩ := h
  dsimp only at h
  split at h
  · simp only [Except.bind_eq_ok] at h
    obtain ⟨lref₁, h₁, heq⟩ := h
    cases heq
    obtain ⟨hq, hitems⟩ := relinked_of_modify h₁ fun _ => rfl
    exact ⟨⟨hq.dealloc, hq.deallocated⟩, hitems⟩
  · split at h
    · simp only [Except.bind_eq_ok] at h
      obtain ⟨lref₁, h₁, heq⟩ := h
      cases heq
      obtain ⟨hq, hitems⟩ := relinked_of_modify h₁ fun _ => rfl
      exact ⟨⟨hq.dealloc, hq.deallocated⟩, hitems⟩
    · simp only [Except.bind_eq_ok] at h
      obtain ⟨lref₁, h₁, h₂⟩ := h
      exact (relinked_of_modify h₁ fun _ => rfl).trans (relinked_of_modify h₂ fun _ => rfl)

/-- Adding a node deallocates nothing. -/
theorem quiet_of_addFront {content : Option α} (h : lref.addFront content = .ok lref') :
    Quiet lref lref' := by
  simp only [addFront] at h
  split at h
  · cases h
    exact ⟨rfl, rfl⟩
  · simp only [Except.bind_eq_ok] at h
    obtain ⟨lref₁, h₁, lref₂, h₂, heq⟩ := h
    cases heq
    have hlinked := (relinked_of_modify h₁ fun _ => rfl).trans (relinked_of_modify h₂ fun _ => rfl)
    exact ⟨hlinked.dealloc, hlinked.deallocated⟩

theorem quiet_of_addBack {content : Option α} (h : lref.addBack content = .ok lref') :
    Quiet lref lref' := by
  simp only [addBack] at h
  split at h
  · cases h
    exact ⟨rfl, rfl⟩
  · simp only [Except.bind_eq_ok] at h
    obtain ⟨lref₁, h₁, lref₂, h₂, heq⟩ := h
    cases heq
    have hlinked := (relinked_of_modify h₁ fun _ => rfl).trans (relinked_of_modify h₂ fun _ => rfl)
    exact ⟨hlinked.dealloc, hlinked.deallocated⟩

/-! ### What is to be deallocated -/

/-- The items of nodes that a list with this deallocator gives up: each once, and not `NULL`. -/
def due (dealloc : Dealloc) (xs : List (ℕ × Option α)) : List (Option α) :=
  if dealloc = .absent then [] else (xs.map Prod.snd).filter Option.isSome

theorem due_cons (dealloc : Dealloc) (x : ℕ × Option α) (xs : List (ℕ × Option α)) :
    due dealloc (x :: xs) =
      (if dealloc ≠ .absent ∧ x.2.isSome then [x.2] else []) ++ due dealloc xs := by
  unfold due
  by_cases hd : dealloc = .absent
  · simp [hd]
  · by_cases hx : x.2.isSome <;> simp [hd, hx]

private theorem due_nil (dealloc : Dealloc) : due dealloc ([] : List (ℕ × Option α)) = [] := by
  unfold due
  split <;> rfl

/-- What `ListNode_dispose` applies the deallocator to. -/
theorem deallocated_of_listNodeDispose {p : ℕ} {item : Option α}
    (h : lref.listNodeDispose (some p) = .ok lref')
    (hitem : (lref.nodes p).map Cell.item = some item) :
    lref'.dealloc = lref.dealloc ∧
      lref'.deallocated = lref.deallocated ++ due lref.dealloc [(p, item)] := by
  obtain ⟨node, hnode, hnitem⟩ := Option.map_eq_some_iff.mp hitem
  rw [listNodeDispose_eq hnode] at h
  cases h
  rw [due_cons, due_nil, List.append_nil, ← hnitem]
  exact ⟨rfl, rfl⟩

/-- **`List_itr_remove`** applies the deallocator to the item of the node, once. -/
theorem Represents.deallocated_of_itrRemove (h : lref.Represents (xs ++ x :: ys))
    (hremove : lref.itrRemove (some x.1) = .ok lref') :
    lref'.dealloc = lref.dealloc ∧
      lref'.deallocated = lref.deallocated ++ due lref.dealloc [x] := by
  have hitem : (lref.nodes x.1).map Cell.item = some x.2 := by rw [h.node]; rfl
  have hzero : lref.count ≠ 0 := by
    rw [h.count, List.length_append]
    exact Nat.succ_ne_zero _
  simp only [LinkedList.itrRemove, Option.isSome_some, assertThat_true, Except.ok_bind,
    if_neg hzero] at hremove
  split at hremove
  · simp only [Except.bind_eq_ok] at hremove
    obtain ⟨⟨⟩, -, hdispose⟩ := hremove
    have hdealloc := deallocated_of_listNodeDispose hdispose hitem
    exact hdealloc
  · simp only [Except.bind_eq_ok] at hremove
    obtain ⟨lref₁, hunlink, hdispose⟩ := hremove
    have hrelinked := relinked_of_unlink hunlink
    obtain ⟨hd, hdealloc⟩ :=
      deallocated_of_listNodeDispose hdispose ((hrelinked.items x.1).trans hitem)
    refine ⟨hd.trans hrelinked.dealloc, hdealloc.trans ?_⟩
    change lref₁.deallocated ++ due lref₁.dealloc [x] = _
    rw [hrelinked.deallocated, hrelinked.dealloc]

/-! ### Removal while iterating -/

/-- A loop over a list, as in `BufferChain_free`, that removes the nodes that `drop` tells it to.
The successor is taken before the node is removed. -/
def removeWhereLoop (lref : LinkedList α) (drop : ℕ → Option α → Bool) :
    ℕ → Option ℕ → Except Abort (LinkedList α)
  | 0, _ => .error ⟨"List_itr_next", "the loop is still running"⟩
  | _ + 1, none => .ok lref
  | fuel + 1, some iter => do
    let next ← lref.itrNext (some iter)
    let content ← lref.itrUnpack (some iter)
    let lref ← if drop iter content then lref.itrRemove (some iter) else pure lref
    lref.removeWhereLoop drop fuel next

/-- The loop, from the first node to the last. -/
def removeWhere (lref : LinkedList α) (drop : ℕ → Option α → Bool) :
    Except Abort (LinkedList α) :=
  lref.removeWhereLoop drop (lref.size + 1) lref.iterator

/-- From a node on: the nodes before it, in `pre`, were kept. -/
theorem removeWhereLoop_spec {pre : List (ℕ × Option α)} {fuel : ℕ}
    (drop : ℕ → Option α → Bool) (h : lref.Represents (pre ++ xs)) (hfuel : xs.length < fuel) :
    ∃ lref', lref.removeWhereLoop drop fuel (enter xs none) = .ok lref' ∧
      lref'.Represents (pre ++ xs.filter fun x => !drop x.1 x.2) ∧
      lref'.dealloc = lref.dealloc ∧ lref'.deallocated =
        lref.deallocated ++ due lref.dealloc (xs.filter fun x => drop x.1 x.2) := by
  induction xs generalizing lref pre fuel with
  | nil =>
    cases fuel with
    | zero => cases hfuel
    | succ fuel => exact ⟨lref, rfl, h, rfl, by simp [due_nil]⟩
  | cons x xs ih =>
    cases fuel with
    | zero => cases hfuel
    | succ fuel =>
      have hlt := Nat.lt_of_succ_lt_succ hfuel
      change ∃ lref', lref.removeWhereLoop drop (fuel + 1) (some x.1) = .ok lref' ∧ _
      simp only [removeWhereLoop, h.itrNext, h.itrUnpack, Except.ok_bind]
      by_cases hdrop : drop x.1 x.2 = true
      · obtain ⟨lref₁, hremove, hrep⟩ := h.itrRemove
        obtain ⟨hd, hdealloc⟩ := h.deallocated_of_itrRemove hremove
        obtain ⟨lref', hloop, hrep', hd', hdealloc'⟩ := ih hrep hlt
        refine ⟨lref', ?_, ?_, hd'.trans hd, ?_⟩
        · rw [if_pos hdrop, hremove]
          exact hloop
        · simpa [hdrop] using hrep'
        · rw [hdealloc', hdealloc, hd, List.filter_cons, if_pos hdrop, due_cons, due_cons, due_nil,
            List.append_nil, List.append_assoc]
      · have hrep : lref.Represents ((pre ++ [x]) ++ xs) := by
          rw [List.append_assoc]
          exact h
        obtain ⟨lref', hloop, hrep', hd', hdealloc'⟩ := ih hrep hlt
        refine ⟨lref', ?_, ?_, hd', ?_⟩
        · rw [if_neg hdrop]
          exact hloop
        · simpa [hdrop] using hrep'
        · rw [hdealloc', List.filter_cons, if_neg hdrop]

/-! ### Operations -/

end LinkedList

/-- The operations on a list. An iterator is the address of a node. -/
inductive ListOp (α : Type)
  | addFront (content : Option α)
  | addBack (content : Option α)
  | removeFirst
  | removeLast
  | itrRemove (itr : ℕ)
  | removeWhere (drop : ℕ → Option α → Bool)
  | destroy
  | dispose

namespace ListOp

variable {α : Type}

/-- What becomes of the nodes; a new one is at the address `fresh`. -/
def nodes (fresh : ℕ) (xs : List (ℕ × Option α)) : ListOp α → List (ℕ × Option α)
  | .addFront content => (fresh, content) :: xs
  | .addBack content => xs ++ [(fresh, content)]
  | .removeFirst => xs.tail
  | .removeLast => xs.dropLast
  | .itrRemove itr => xs.filter fun x => x.1 ≠ itr
  | .removeWhere drop => xs.filter fun x => !drop x.1 x.2
  | .destroy | .dispose => []

/-- What is returned to the caller, who owns it from then on. -/
def returns (xs : List (ℕ × Option α)) : ListOp α → List (Option α)
  | .removeFirst => [xs.head?.bind Prod.snd]
  | .removeLast => [xs.getLast?.bind Prod.snd]
  | _ => []

/-- The nodes that are dropped. -/
def dropped (xs : List (ℕ × Option α)) : ListOp α → List (ℕ × Option α)
  | .itrRemove itr => xs.filter fun x => x.1 = itr
  | .removeWhere drop => xs.filter fun x => drop x.1 x.2
  | .destroy | .dispose => xs
  | _ => []

/-- What the deallocator is applied to. -/
def applied (dealloc : Dealloc) (xs : List (ℕ × Option α)) : ListOp α → List (Option α)
  | .destroy | .dispose => xs.flatMap fun x => LinkedList.destroyed dealloc x.2
  | op => LinkedList.due dealloc (op.dropped xs)

/-- `List_dispose` frees the list. -/
def frees : ListOp α → Bool
  | .dispose => true
  | _ => false

/-- An iterator given to `List_itr_remove` is at a node of the list. -/
def Fits (xs : List (ℕ × Option α)) : ListOp α → Prop
  | .itrRemove itr => itr ∈ xs.map Prod.fst
  | _ => True

end ListOp

namespace LinkedList

variable {α : Type} {lref : LinkedList α} {xs ys : List (ℕ × Option α)} {x : ℕ × Option α}

/-- An operation, and what it returns. `List_dispose` is `List_destroy`, and frees the list. -/
def perform (lref : LinkedList α) : ListOp α → Except Abort (List (Option α) × LinkedList α)
  | .addFront content => do return ([], ← lref.addFront content)
  | .addBack content => do return ([], ← lref.addBack content)
  | .removeFirst => do
    let (content, lref) ← lref.removeFirst
    return ([content], lref)
  | .removeLast => do
    let (content, lref) ← lref.removeLast
    return ([content], lref)
  | .itrRemove itr => do return ([], ← lref.itrRemove (some itr))
  | .removeWhere drop => do return ([], ← lref.removeWhere drop)
  | .destroy | .dispose => do return ([], ← lref.destroy)

/-- A node is told by its address. -/
theorem Represents.filter_eq (h : lref.Represents (xs ++ x :: ys)) :
    ((xs ++ x :: ys).filter fun y => y.1 ≠ x.1) = xs ++ ys ∧
      ((xs ++ x :: ys).filter fun y => y.1 = x.1) = [x] := by
  obtain ⟨-, hx⟩ := h.nodup_erase
  have hne : ∀ y ∈ xs ++ ys, y.1 ≠ x.1 := fun y hy heq => hx (heq ▸ List.mem_map_of_mem hy)
  obtain ⟨hxs, hys⟩ := List.forall_mem_append.mp hne
  refine ⟨?_, ?_⟩
  · rw [List.filter_append, List.filter_cons_of_neg (by simp),
      List.filter_eq_self.mpr fun y hy => decide_eq_true (hxs y hy),
      List.filter_eq_self.mpr fun y hy => decide_eq_true (hys y hy)]
  · rw [List.filter_append, List.filter_cons_of_pos (by simp),
      List.filter_eq_nil_iff.mpr fun y hy => by simpa using hxs y hy,
      List.filter_eq_nil_iff.mpr fun y hy => by simpa using hys y hy]
    rfl

/-- **One operation**: what it returns, what it leaves in the list, and what it applies the
deallocator to. -/
theorem Represents.perform (h : lref.Represents xs) {op : ListOp α} (hop : op.Fits xs) :
    ∃ lref', lref.perform op = .ok (op.returns xs, lref') ∧
      lref'.Represents (op.nodes lref.free xs) ∧ lref'.dealloc = lref.dealloc ∧
      lref'.deallocated = lref.deallocated ++ op.applied lref.dealloc xs := by
  have hnone : lref.deallocated = lref.deallocated ++ due lref.dealloc [] := by
    rw [due_nil, List.append_nil]
  cases op with
  | addFront content =>
    obtain ⟨lref', hadd, hrep⟩ := h.addFront content
    have hquiet := quiet_of_addFront hadd
    refine ⟨lref', ?_, hrep, hquiet.dealloc, hquiet.deallocated.trans hnone⟩
    simp only [LinkedList.perform, hadd, Except.ok_bind]
    rfl
  | addBack content =>
    obtain ⟨lref', hadd, hrep⟩ := h.addBack content
    have hquiet := quiet_of_addBack hadd
    refine ⟨lref', ?_, hrep, hquiet.dealloc, hquiet.deallocated.trans hnone⟩
    simp only [LinkedList.perform, hadd, Except.ok_bind]
    rfl
  | removeFirst =>
    obtain ⟨lref', hremove, hrep, hquiet⟩ := h.removeFirst
    refine ⟨lref', ?_, hrep, hquiet.dealloc, hquiet.deallocated.trans hnone⟩
    simp only [LinkedList.perform, hremove, Except.ok_bind]
    rfl
  | removeLast =>
    obtain ⟨lref', hremove, hrep, hquiet⟩ := h.removeLast
    refine ⟨lref', ?_, hrep, hquiet.dealloc, hquiet.deallocated.trans hnone⟩
    simp only [LinkedList.perform, hremove, Except.ok_bind]
    rfl
  | itrRemove itr =>
    obtain ⟨x, hx, rfl⟩ := List.mem_map.mp hop
    obtain ⟨pre, post, rfl⟩ := List.append_of_mem hx
    obtain ⟨hkept, hgone⟩ := h.filter_eq
    obtain ⟨lref', hremove, hrep⟩ := h.itrRemove
    obtain ⟨hd, hdealloc⟩ := h.deallocated_of_itrRemove hremove
    refine ⟨lref', ?_, ?_, hd, ?_⟩
    · simp only [LinkedList.perform, hremove, Except.ok_bind]
      rfl
    · rw [ListOp.nodes, hkept]
      exact hrep
    · change _ = _ ++ due lref.dealloc ((pre ++ x :: post).filter fun y => y.1 = x.1)
      rw [hgone]
      exact hdealloc
  | removeWhere drop =>
    -- nothing was kept yet
    have hrep₀ : lref.Represents ([] ++ xs) := h
    obtain ⟨lref', hloop, hrep, hd, hdealloc⟩ :=
      removeWhereLoop_spec drop hrep₀ h.length_lt_size_succ
    refine ⟨lref', ?_, hrep, hd, hdealloc⟩
    simp only [LinkedList.perform, removeWhere, iterator, h.head, hloop, Except.ok_bind]
    rfl
  | destroy =>
    obtain ⟨lref', hdestroy, hrep, hd, hdealloc⟩ := h.destroy
    refine ⟨lref', ?_, hrep, hd, hdealloc⟩
    simp only [LinkedList.perform, hdestroy, Except.ok_bind]
    rfl
  | dispose =>
    obtain ⟨lref', hdestroy, hrep, hd, hdealloc⟩ := h.destroy
    refine ⟨lref', ?_, hrep, hd, hdealloc⟩
    simp only [LinkedList.perform, hdestroy, Except.ok_bind]
    rfl

/-! ### The representation invariant -/

/-- The list is these nodes: following the forward links from `head` leads through them, and
following the backward links from `tail` leads through them in reverse; both chains end in `NULL`,
and so are both ends of an empty list. -/
structure IsList (lref : LinkedList α) (xs : List (ℕ × Option α)) : Prop where
  forward : Traverses Cell.forward lref.nodes lref.head (xs.map Prod.fst)
  backward : Traverses Cell.backward lref.nodes lref.tail (xs.map Prod.fst).reverse
  items : ∀ x ∈ xs, (lref.nodes x.1).map Cell.item = some x.2
  head : lref.head = none ↔ xs = []
  tail : lref.tail = none ↔ xs = []
  last : ∀ x, xs.getLast? = some x → (lref.nodes x.1).map Cell.forward = some none
  first : ∀ x, xs.head? = some x → (lref.nodes x.1).map Cell.backward = some none
  size : lref.size = xs.length

private theorem Represents.isList (h : lref.Represents xs) : lref.IsList xs := by
  refine ⟨h.head ▸ h.segment.traverses_forward, h.tail ▸ h.segment.traverses_backward,
    fun x hx => ?_, ?_, ?_, fun x hx => ?_, fun x hx => ?_, h.count⟩
  · obtain ⟨pre, post, rfl⟩ := List.append_of_mem hx
    rw [h.node]
    rfl
  · rw [h.head]
    cases xs with
    | nil => exact iff_of_true rfl rfl
    | cons x xs => exact iff_of_false nofun nofun
  · rw [h.tail]
    rcases List.eq_nil_or_concat xs with rfl | ⟨ys, y, rfl⟩
    · exact iff_of_true rfl rfl
    · rw [List.concat_eq_append, leave_append]
      exact iff_of_false nofun (by simp)
  · obtain ⟨ys, rfl⟩ := List.getLast?_eq_some_iff.mp hx
    rw [h.node]
    rfl
  · obtain ⟨ys, rfl⟩ := List.head?_eq_some_iff.mp hx
    rw [h.segment.1]
    rfl

end LinkedList

/-- A list in use. Beside it, the nodes it is to have, what the removals returned and what they were
to return, and the items that were to be deallocated; `disposed` says that `List_dispose` was
called. -/
structure ListRun (α : Type) where
  lref : LinkedList α
  nodes : List (ℕ × Option α)
  returned : List (Option α)
  expected : List (Option α)
  owed : List (Option α)
  disposed : Bool

namespace ListRun

variable {α : Type} {s s' : ListRun α} {op : ListOp α}

/-- `List_new`. -/
def new (dealloc : Dealloc) : ListRun α := ⟨.new dealloc, [], [], [], [], false⟩

/-- One operation. -/
def step (s : ListRun α) (op : ListOp α) : Except Abort (ListRun α) := do
  let (returned, lref) ← s.lref.perform op
  return {
    lref
    nodes := op.nodes s.lref.free s.nodes
    returned := s.returned ++ returned
    expected := s.expected ++ op.returns s.nodes
    owed := s.owed ++ LinkedList.due s.lref.dealloc (op.dropped s.nodes)
    disposed := s.disposed || op.frees }

/-- What the callers keep to: a list that was disposed of is not used, and only a node of the list
is removed. -/
def Contract (s : ListRun α) (op : ListOp α) : Prop := s.disposed = false ∧ op.Fits s.nodes

/-- The list is what it is to be, the removals returned what they were to return, and the queries
agree. -/
structure Faithful [DecidableEq α] (s : ListRun α) : Prop where
  isList : s.lref.IsList s.nodes
  returned : s.returned = s.expected
  first : s.lref.first = .ok (s.nodes.head?.bind Prod.snd)
  last : s.lref.last = .ok (s.nodes.getLast?.bind Prod.snd)
  find : ∀ needle,
    s.lref.find needle = .ok ((s.nodes.find? fun x => x.2 = needle).map Prod.fst)

/-- The invariant of every run. -/
structure Sound (s : ListRun α) : Prop where
  represents : s.lref.Represents s.nodes
  returned : s.returned = s.expected

theorem new_sound (dealloc : Dealloc) : (new dealloc : ListRun α).Sound :=
  ⟨LinkedList.new_represents dealloc, rfl⟩

private theorem Sound.faithful [DecidableEq α] (h : s.Sound) : s.Faithful :=
  ⟨h.represents.isList, h.returned, h.represents.first, h.represents.last, h.represents.find⟩

/-- **One operation** of a run. -/
theorem Sound.step (h : s.Sound) (hop : s.Contract op) :
    ∃ s', s.step op = .ok s' ∧ s'.Sound ∧ s'.lref.dealloc = s.lref.dealloc ∧
      s'.nodes = op.nodes s.lref.free s.nodes ∧
      s'.owed = s.owed ++ LinkedList.due s.lref.dealloc (op.dropped s.nodes) ∧
      s'.lref.deallocated = s.lref.deallocated ++ op.applied s.lref.dealloc s.nodes := by
  obtain ⟨lref, hperform, hrep, hd, hdealloc⟩ := h.represents.perform hop.2
  refine ⟨⟨lref, op.nodes s.lref.free s.nodes, s.returned ++ op.returns s.nodes,
    s.expected ++ op.returns s.nodes,
    s.owed ++ LinkedList.due s.lref.dealloc (op.dropped s.nodes), s.disposed || op.frees⟩, ?_,
    ⟨hrep, ?_⟩, hd, rfl, rfl, hdealloc⟩
  · rw [ListRun.step, hperform]
    rfl
  · change s.returned ++ op.returns s.nodes = s.expected ++ op.returns s.nodes
    rw [h.returned]

theorem sound_step (s : ListRun α) (op : ListOp α) (s' : ListRun α) (h : s.Sound)
    (hop : s.Contract op) (hs : s.step op = .ok s') : s'.Sound := by
  obtain ⟨s₁, h₁, hsound, -⟩ := h.step hop
  cases h₁.symm.trans hs
  exact hsound

/-- **The representation invariant.** No sequence of operations fails, and after each of them the
chains, the ends and the count are those of the list that the operations describe; the removals
return its elements, and `List_find` finds the first node with the item. -/
theorem run_faithful [DecidableEq α] (dealloc : Dealloc) {ops : List (ListOp α)}
    (hops : Machine.Along step Contract (new dealloc) ops) :
    (∃ s, Machine.run step (new dealloc) ops = .ok s) ∧
      Machine.Always step Faithful (new dealloc) ops := by
  refine ⟨Machine.run_ok_of_along sound_step (fun s op h hop => ?_) (new_sound dealloc) hops, ?_⟩
  · obtain ⟨s', hs, -⟩ := h.step hop
    exact ⟨s', hs⟩
  · exact (Machine.always_of_along sound_step (new_sound dealloc) hops).mono fun _ h => h.faithful

/-- Three items are added, the middle one is removed through its iterator, and the last one. -/
def middleRemoved : List (ListOp ℕ) :=
  [.addBack (some 1), .addBack (some 2), .addFront (some 0), .itrRemove 0, .removeLast]

theorem run_faithful_middleRemoved :
    (∃ s, Machine.run step (new .clears) middleRemoved = .ok s ∧ s.nodes = [(2, some 0)] ∧
      s.returned = [some 2]) ∧
      Machine.Always step Faithful (new .clears) middleRemoved := by
  have hnode : 0 ∈ [2, 0, 1] := by decide
  refine ⟨⟨_, rfl, rfl, rfl⟩, (run_faithful .clears ?_).2⟩
  exact ⟨⟨rfl, trivial⟩, ⟨rfl, trivial⟩, ⟨rfl, trivial⟩, ⟨rfl, hnode⟩, ⟨rfl, trivial⟩, trivial⟩

end ListRun

end CHttp
