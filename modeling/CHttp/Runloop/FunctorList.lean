import CHttp.Abort
import CHttp.ForMathlib.CyclicWindow

/-!
# The functor ring

`functor_list.c`: the ring of posted functors behind the reactor's ready list and behind the
interthread queue. `head` is the index of the newest entry, `tail_plus` the index before the
oldest one, so a ring of capacity `c` is empty when they are equal and holds at most `c - 1`
entries. `FunctorList.toList` is the queue the ring stands for, and `add_spec` and
`remove_spec` say what the two operations do to it.
-/

namespace CHttp

/-- `RTOR_MAX_FDS`. -/
def rtorMaxFds : ℕ := 1024

/-- `RTOR_FDTABLE_MAX`: how many descriptors a reactor can have registered. -/
def rtorFdtableMax : ℕ := rtorMaxFds

/-- `RTOR_READY_LIST_MAX`: the capacity of the ready list. -/
def rtorReadyListMax : ℕ := 2 * rtorMaxFds

/-- `FunctorList`. The array is `malloc`ed and not initialised. -/
structure FunctorList (Functor : Type) where
  capacity : ℕ
  head : ℕ
  tailPlus : ℕ
  list : ℕ → Functor

namespace FunctorList

variable {Functor : Type}

/-- `functor_list_new`; `junk` is what the fresh array holds. -/
def new (capacity : ℕ) (junk : ℕ → Functor) : Except Abort (FunctorList Functor) := do
  assertThat (capacity ≤ rtorReadyListMax) "functor_list_new"
    "Functor List capacity is too big"
  return { capacity, head := 0, tailPlus := 0, list := junk }

/-- `functor_list_add`. -/
def add (lst : FunctorList Functor) (func : Functor) : Except Abort (FunctorList Functor) := do
  let tmp := (lst.head + 1) % lst.capacity
  assertThat (tmp ≠ lst.tailPlus) "functor_list_add"
    "functor list is full cannot add another element"
  return { lst with head := tmp, list := Function.update lst.list tmp func }

/-- `functor_list_size`. -/
def size (lst : FunctorList Functor) : ℕ :=
  (lst.head + lst.capacity - lst.tailPlus) % lst.capacity

/-- `functor_list_remove`. -/
def remove (lst : FunctorList Functor) : Except Abort (Functor × FunctorList Functor) := do
  assertThat (lst.size ≠ 0) "functor_list_remove" "cannot remove an element from an empty list"
  let tmpix := (lst.tailPlus + 1) % lst.capacity
  return (lst.list tmpix, { lst with tailPlus := tmpix })

/-! ### The queue a ring stands for -/

/-- Both indices are inside the ring. -/
structure Valid (lst : FunctorList Functor) : Prop where
  head_lt : lst.head < lst.capacity
  tailPlus_lt : lst.tailPlus < lst.capacity

/-- The entries held, oldest first. -/
def toList (lst : FunctorList Functor) : List Functor :=
  Cyclic.window lst.list lst.capacity (lst.tailPlus + 1) lst.size

@[simp]
theorem length_toList (lst : FunctorList Functor) : lst.toList.length = lst.size := by
  simp [toList]

/-- `head` is the residue of the index just past the window, less one. -/
theorem head_eq {lst : FunctorList Functor} (h : lst.Valid) :
    lst.head = (lst.tailPlus + lst.size) % lst.capacity := by
  obtain ⟨hh, ht⟩ := h
  rw [size, Nat.add_mod_mod, show lst.tailPlus + (lst.head + lst.capacity - lst.tailPlus)
    = lst.head + lst.capacity by omega, Nat.add_mod_right, Nat.mod_eq_of_lt hh]

theorem size_lt {lst : FunctorList Functor} (h : lst.Valid) : lst.size < lst.capacity :=
  Nat.mod_lt _ (Nat.lt_of_le_of_lt (Nat.zero_le _) h.head_lt)

/-- The full test of `functor_list_add` fires exactly at `capacity - 1` entries. -/
theorem full_iff {lst : FunctorList Functor} (h : lst.Valid) :
    (lst.head + 1) % lst.capacity = lst.tailPlus ↔ lst.size + 1 = lst.capacity := by
  obtain ⟨hh, ht⟩ := h
  unfold size
  rcases Nat.lt_or_ge lst.head lst.tailPlus with hlt | hge
  · rw [Nat.mod_eq_of_lt (show lst.head + 1 < lst.capacity by omega),
      Nat.mod_eq_of_lt (show lst.head + lst.capacity - lst.tailPlus < lst.capacity by omega)]
    omega
  · rw [show lst.head + lst.capacity - lst.tailPlus
        = (lst.head - lst.tailPlus) + lst.capacity by omega, Nat.add_mod_right,
      Nat.mod_eq_of_lt (show lst.head - lst.tailPlus < lst.capacity by omega)]
    rcases Nat.lt_or_ge (lst.head + 1) lst.capacity with h1 | h1
    · rw [Nat.mod_eq_of_lt h1]
      omega
    · rw [show lst.head + 1 = lst.capacity by omega, Nat.mod_self]
      omega

/-- A ring whose indices are `t` and `t + n` modulo its capacity holds `n` entries. -/
theorem size_of_head_eq {lst : FunctorList Functor} {n : ℕ} (ht : lst.tailPlus < lst.capacity)
    (hn : n < lst.capacity) (hh : lst.head = (lst.tailPlus + n) % lst.capacity) :
    lst.size = n := by
  unfold size
  rw [hh]
  rcases Nat.lt_or_ge (lst.tailPlus + n) lst.capacity with h | h
  · rw [Nat.mod_eq_of_lt h, show lst.tailPlus + n + lst.capacity - lst.tailPlus
      = n + lst.capacity by omega, Nat.add_mod_right, Nat.mod_eq_of_lt hn]
  · rw [Nat.mod_eq_sub_mod h,
      Nat.mod_eq_of_lt (show lst.tailPlus + n - lst.capacity < lst.capacity by omega),
      show lst.tailPlus + n - lst.capacity + lst.capacity - lst.tailPlus = n by omega,
      Nat.mod_eq_of_lt hn]

/-- A new ring is a valid empty queue. -/
theorem new_spec (capacity : ℕ) (junk : ℕ → Functor) (h0 : 0 < capacity)
    (hc : capacity ≤ rtorReadyListMax) :
    ∃ lst, new capacity junk = .ok lst ∧ lst.Valid ∧ lst.capacity = capacity ∧
      lst.toList = [] := by
  refine ⟨⟨capacity, 0, 0, junk⟩, by simp [new, hc], ⟨h0, h0⟩, rfl, ?_⟩
  simp [toList, size]

/-- `functor_list_add` appends at the back while fewer than `capacity - 1` entries are held. -/
theorem add_spec {lst : FunctorList Functor} (h : lst.Valid) (func : Functor)
    (hroom : lst.size + 1 < lst.capacity) :
    ∃ lst', lst.add func = .ok lst' ∧ lst'.Valid ∧ lst'.capacity = lst.capacity ∧
      lst'.toList = lst.toList ++ [func] := by
  have hne : (lst.head + 1) % lst.capacity ≠ lst.tailPlus := by
    rw [ne_eq, full_iff h]
    omega
  have hc : 0 < lst.capacity := Nat.lt_of_le_of_lt (Nat.zero_le _) h.head_lt
  have hpos : (lst.head + 1) % lst.capacity = (lst.tailPlus + 1 + lst.size) % lst.capacity := by
    rw [head_eq h, Nat.mod_add_mod]
    congr 1
    omega
  refine ⟨{ lst with
      head := (lst.head + 1) % lst.capacity
      list := Function.update lst.list ((lst.head + 1) % lst.capacity) func }, ?_,
    ⟨Nat.mod_lt _ hc, h.tailPlus_lt⟩, rfl, ?_⟩
  · simp only [add, hne, ne_eq, not_false_eq_true, decide_true, assertThat_true]
    rfl
  have hsize : FunctorList.size { lst with
      head := (lst.head + 1) % lst.capacity
      list := Function.update lst.list ((lst.head + 1) % lst.capacity) func } = lst.size + 1 := by
    refine size_of_head_eq h.tailPlus_lt hroom ?_
    change (lst.head + 1) % lst.capacity = (lst.tailPlus + (lst.size + 1)) % lst.capacity
    rw [hpos]
    congr 1
    omega
  rw [toList, hsize]
  change Cyclic.window (Function.update lst.list ((lst.head + 1) % lst.capacity) func)
    lst.capacity (lst.tailPlus + 1) (lst.size + 1) = _
  rw [hpos, Cyclic.window_push _ _ _ _ _ (by omega), toList]

/-- `functor_list_add` reports a full list exactly at `capacity - 1` entries. -/
theorem add_full {lst : FunctorList Functor} (h : lst.Valid) (func : Functor)
    (hfull : lst.size + 1 = lst.capacity) :
    lst.add func =
      .error ⟨"functor_list_add", "functor list is full cannot add another element"⟩ := by
  simp only [add, (full_iff h).mpr hfull, ne_eq, not_true_eq_false, decide_false,
    assertThat_false]
  rfl

/-- What a successful `functor_list_add` did. -/
theorem toList_of_add {lst lst' : FunctorList Functor} (h : lst.Valid) {func : Functor}
    (hadd : lst.add func = .ok lst') : lst'.Valid ∧ lst'.toList = lst.toList ++ [func] := by
  rcases Nat.lt_or_ge (lst.size + 1) lst.capacity with hroom | hfull
  · obtain ⟨lst₁, h₁, hv, -, hq⟩ := add_spec h func hroom
    cases h₁.symm.trans hadd
    exact ⟨hv, hq⟩
  · have hlt := size_lt h
    rw [add_full h func (by omega)] at hadd
    cases hadd

/-- A list of size zero is the empty one. -/
theorem toList_eq_nil_iff {lst : FunctorList Functor} : lst.toList = [] ↔ lst.size = 0 := by
  rw [← List.length_eq_zero_iff, length_toList]

/-- `functor_list_remove` takes the oldest entry. -/
theorem remove_spec {lst : FunctorList Functor} (h : lst.Valid) {func : Functor}
    {rest : List Functor} (hq : lst.toList = func :: rest) :
    ∃ lst', lst.remove = .ok (func, lst') ∧ lst'.Valid ∧ lst'.capacity = lst.capacity ∧
      lst'.toList = rest := by
  have hlen : lst.size = rest.length + 1 := by
    rw [← length_toList, hq, List.length_cons]
  have hc : 0 < lst.capacity := Nat.lt_of_le_of_lt (Nat.zero_le _) h.head_lt
  have hlt := size_lt h
  rw [toList, hlen, Cyclic.window_pop] at hq
  injection hq with hfirst hrest
  refine ⟨{ lst with tailPlus := (lst.tailPlus + 1) % lst.capacity }, ?_,
    ⟨h.head_lt, Nat.mod_lt _ hc⟩, rfl, ?_⟩
  · have hne : lst.size ≠ 0 := by omega
    simp only [remove, hne, ne_eq, not_false_eq_true, decide_true, assertThat_true, ← hfirst]
    rfl
  · have hsize : FunctorList.size { lst with
        tailPlus := (lst.tailPlus + 1) % lst.capacity } = rest.length := by
      refine size_of_head_eq (Nat.mod_lt _ hc) (by change rest.length < lst.capacity; omega) ?_
      change lst.head = ((lst.tailPlus + 1) % lst.capacity + rest.length) % lst.capacity
      rw [head_eq h, hlen, Nat.mod_add_mod]
      congr 1
      omega
    rw [toList, hsize]
    change Cyclic.window lst.list lst.capacity ((lst.tailPlus + 1) % lst.capacity + 1)
      rest.length = rest
    rw [← Cyclic.window_mod, Nat.mod_add_mod, Cyclic.window_mod]
    exact hrest

/-- `functor_list_remove` refuses an empty list. -/
theorem remove_empty {lst : FunctorList Functor} (hq : lst.toList = []) :
    lst.remove =
      .error ⟨"functor_list_remove", "cannot remove an element from an empty list"⟩ := by
  have h0 : lst.size = 0 := by rw [← length_toList, hq, List.length_nil]
  simp only [remove, h0, ne_eq, not_true_eq_false, decide_false, assertThat_false]
  rfl

/-- What a successful `functor_list_remove` did. -/
theorem toList_of_remove {lst lst' : FunctorList Functor} (h : lst.Valid) {func : Functor}
    (hremove : lst.remove = .ok (func, lst')) :
    lst'.Valid ∧ lst.toList = func :: lst'.toList := by
  cases hq : lst.toList with
  | nil =>
    rw [remove_empty hq] at hremove
    cases hremove
  | cons first rest =>
    obtain ⟨lst₁, h₁, hv, -, rfl⟩ := remove_spec h hq
    cases h₁.symm.trans hremove
    exact ⟨hv, rfl⟩

end FunctorList

end CHttp
