import CHttp.Common.ChainLaws

/-!
# Concatenating buffer chains

`BufferChain_append_bufferchain` and `BufferChain_steal_bufferchain` on the heap: I/O buffers have
addresses, a chain is a list of them, and two chains must not come to share one. The loops are run
with fuel, as they read lists that they, or the other chain's owner, may be changing; a chain's
`view` is the value that the other modules work with, and on views the loops are `appendLoop` and
`stealLoop`.
-/

namespace CHttp

namespace BufferChain

/-! ### The loops on values -/

/-- The loop of `BufferChain_append_bufferchain` adds the bytes of the other chain, and counts
them. -/
theorem appendLoop_spec (junk : ℕ → ByteMemory) {bs : List IOBuffer} (bc : BufferChain)
    (hbs : ∀ b ∈ bs, b.Holds b.data) :
    (appendLoop junk bc bs).data = bc.data ++ bs.flatMap IOBuffer.data ∧
      (appendLoop junk bc bs).mSize = bc.mSize + ((bs.map IOBuffer.dataLen).sum : ℕ) := by
  induction bs generalizing bc junk with
  | nil => simp [appendLoop]
  | cons b bs ih =>
    obtain ⟨hb, hbs⟩ := List.forall_mem_cons.mp hbs
    obtain ⟨hdata, hsize⟩ := ih (fun n => junk (n + 1)) (bc.addBack (b.dup (junk 0))) hbs
    have hdup : (b.dup (junk 0)).data = b.data := (hb.dup _).data_eq
    rw [appendLoop, hdata, hsize]
    constructor
    · simp [data, addBack, hdup]
    · simp [addBack, IOBuffer.dup_dataLen, Int.add_assoc]

/-- The loop of `BufferChain_steal_bufferchain` adds the buffers of the other chain, counts them and
leaves none. -/
theorem stealLoop_spec (bs : List IOBuffer) (bc : BufferChain) (size : ℤ) :
    (stealLoop bc bs size).1.data = bc.data ++ bs.flatMap IOBuffer.data ∧
      (stealLoop bc bs size).1.mSize = bc.mSize + ((bs.map IOBuffer.dataLen).sum : ℕ) ∧
      (stealLoop bc bs size).2 = ⟨[], size - ((bs.map IOBuffer.dataLen).sum : ℕ)⟩ := by
  induction bs generalizing bc size with
  | nil => simp [stealLoop]
  | cons b bs ih =>
    obtain ⟨hdata, hsize, hother⟩ := ih (bc.addBack b) (size - b.dataLen)
    rw [stealLoop, hdata, hsize, hother]
    refine ⟨?_, ?_, ?_⟩
    · simp [data, addBack]
    · simp [addBack, Int.add_assoc]
    · simp only [List.map_cons, List.sum_cons, Int.natCast_add, mk.injEq, true_and]
      omega

end BufferChain

/-! ### The heap -/

/-- I/O buffers by address and chains by number; a chain has the addresses of its buffers and its
size. The addresses from `next` on are free. -/
structure ChainHeap where
  cells : ℕ → IOBuffer
  next : ℕ
  nodes : ℕ → List ℕ
  mSize : ℕ → ℤ

namespace ChainHeap

/-- The chain numbered `i`, as a value. -/
def view (h : ChainHeap) (i : ℕ) : BufferChain := ⟨(h.nodes i).map h.cells, h.mSize i⟩

/-- `IOBuffer_dup`: the address of the copy. -/
def dup (junk : ℕ → ByteMemory) (h : ChainHeap) (iob : ℕ) : ℕ × ChainHeap :=
  (h.next, { h with
    cells := Function.update h.cells h.next ((h.cells iob).dup (junk h.next))
    next := h.next + 1 })

/-- `BufferChain_add_back`. -/
def addBack (h : ChainHeap) (this iob : ℕ) : ChainHeap :=
  { h with
    nodes := Function.update h.nodes this (h.nodes this ++ [iob])
    mSize := Function.update h.mSize this (h.mSize this + (h.cells iob).dataLen) }

/-- `BufferChain_pop_front`. -/
def popFront (h : ChainHeap) (this : ℕ) : Option ℕ × ChainHeap :=
  match h.nodes this with
  | [] => (none, h)
  | front :: rest =>
    (some front, { h with
      nodes := Function.update h.nodes this rest
      mSize := Function.update h.mSize this (h.mSize this - (h.cells front).dataLen) })

/-- The loop of `BufferChain_append_bufferchain`; `iter` is the index of the node it is at. -/
def appendLoop (junk : ℕ → ByteMemory) (this other : ℕ) : ℕ → ℕ → ChainHeap → Option ChainHeap
  | 0, _, _ => none
  | fuel + 1, iter, h =>
    match (h.nodes other)[iter]? with
    | none => some h
    | some iob =>
      let (iobDup, h) := h.dup junk iob
      appendLoop junk this other fuel (iter + 1) (h.addBack this iobDup)

/-- `BufferChain_append_bufferchain`. -/
def appendBufferchain (junk : ℕ → ByteMemory) (this other fuel : ℕ) (h : ChainHeap) :
    Option ChainHeap := appendLoop junk this other fuel 0 h

/-- The loop of `BufferChain_steal_bufferchain`. -/
def stealBufferchain (this other : ℕ) : ℕ → ChainHeap → Option ChainHeap
  | 0, _ => none
  | fuel + 1, h =>
    match h.popFront other with
    | (none, h) => some h
    | (some iob, h) => stealBufferchain this other fuel (h.addBack this iob)

/-- Chains have allocated buffers, and no two of them share one, nor does one have it twice. -/
structure Owned (h : ChainHeap) : Prop where
  allocated : ∀ i, ∀ p ∈ h.nodes i, p < h.next
  nodup : ∀ i, (h.nodes i).Nodup
  disjoint : ∀ i j, i ≠ j → ∀ p ∈ h.nodes i, p ∉ h.nodes j

/-- A chain whose buffers are what they were is what it was. -/
theorem view_congr {h h' : ChainHeap} {i : ℕ} (hnodes : h'.nodes i = h.nodes i)
    (hsize : h'.mSize i = h.mSize i) (hcells : ∀ p ∈ h.nodes i, h'.cells p = h.cells p) :
    h'.view i = h.view i := by
  rw [view, hnodes, hsize, List.map_congr_left hcells]
  rfl

theorem nodup_concat {l : List ℕ} {p : ℕ} (h : l.Nodup) (hp : p ∉ l) : (l ++ [p]).Nodup := by
  refine List.nodup_append.mpr ⟨h, by simp, fun a ha b hb => ?_⟩
  rw [List.mem_singleton.mp hb]
  exact fun heq => hp (heq ▸ ha)

/-! ### Copying one buffer -/

/-- A buffer copied and added to the chain `this`, as one iteration does it. -/
def copyBack (junk : ℕ → ByteMemory) (h : ChainHeap) (this iob : ℕ) : ChainHeap :=
  (h.dup junk iob).2.addBack this (h.dup junk iob).1

/-- A chain that gets a buffer no chain has owns that buffer alone. -/
theorem Owned.addBack {h h' : ChainHeap} (ho : h.Owned) {i iob : ℕ}
    (hfresh : ∀ j, iob ∉ h.nodes j) (hlt : iob < h'.next) (hle : h.next ≤ h'.next)
    (hnodes : h'.nodes = Function.update h.nodes i (h.nodes i ++ [iob])) : h'.Owned := by
  have hmem : ∀ j, ∀ p ∈ h'.nodes j, p ∈ h.nodes j ∨ j = i ∧ p = iob := by
    intro j p hp
    rw [hnodes] at hp
    rcases eq_or_ne j i with rfl | hne
    · rw [Function.update_self, List.mem_append, List.mem_singleton] at hp
      exact hp.imp id fun h => ⟨rfl, h⟩
    · rw [Function.update_of_ne hne] at hp
      exact Or.inl hp
  refine ⟨fun j p hp => ?_, fun j => ?_, fun j k hjk p hp hp' => ?_⟩
  · rcases hmem j p hp with hold | ⟨-, rfl⟩
    · exact Nat.lt_of_lt_of_le (ho.allocated j p hold) hle
    · exact hlt
  · rw [hnodes]
    rcases eq_or_ne j i with rfl | hne
    · rw [Function.update_self]
      exact nodup_concat (ho.nodup j) (hfresh j)
    · rw [Function.update_of_ne hne]
      exact ho.nodup j
  · rcases hmem j p hp with hj | ⟨hj, hpj⟩
    · rcases hmem k p hp' with hk | ⟨-, hpk⟩
      · exact ho.disjoint j k hjk p hj hk
      · exact hfresh j (hpk ▸ hj)
    · rcases hmem k p hp' with hk | ⟨hk, -⟩
      · exact hfresh k (hpj ▸ hk)
      · exact hjk (hj.trans hk.symm)

/-- In particular one that is allocated for it. -/
theorem Owned.push {h h' : ChainHeap} (ho : h.Owned) {i : ℕ}
    (hnodes : h'.nodes = Function.update h.nodes i (h.nodes i ++ [h.next]))
    (hnext : h'.next = h.next + 1) : h'.Owned := by
  refine ho.addBack (fun j hj => Nat.lt_irrefl _ (ho.allocated j _ hj)) ?_ ?_ hnodes
  · rw [hnext]
    exact Nat.lt_succ_self _
  · rw [hnext]
    exact Nat.le_succ _

/-- Copying changes only the chain that gets the copy. -/
theorem view_copyBack_of_ne {h : ChainHeap} (ho : h.Owned) (junk : ℕ → ByteMemory) {this i : ℕ}
    (hne : i ≠ this) (iob : ℕ) : (h.copyBack junk this iob).view i = h.view i := by
  refine view_congr (Function.update_of_ne hne ..) (Function.update_of_ne hne ..) fun p hp => ?_
  exact Function.update_of_ne (ho.allocated i p hp).ne ..

private theorem view_copyBack_self {h : ChainHeap} (ho : h.Owned) (junk : ℕ → ByteMemory)
    (this iob : ℕ) :
    (h.copyBack junk this iob).view this =
      (h.view this).addBack ((h.cells iob).dup (junk h.next)) := by
  have hcells : ∀ p ∈ h.nodes this, Function.update h.cells h.next
      ((h.cells iob).dup (junk h.next)) p = h.cells p :=
    fun p hp => Function.update_of_ne (ho.allocated this p hp).ne ..
  simp only [copyBack, dup, addBack, view, Function.update_self, BufferChain.addBack,
    List.map_append, List.map_singleton, List.map_congr_left hcells]

/-! ### The loops -/

/-- The loop of `BufferChain_append_bufferchain` ends, does to the chain `this` what the loop on
values does, and changes no other chain. -/
theorem appendLoop_spec (junk : ℕ → ByteMemory) {this other : ℕ} (hne : other ≠ this)
    {rest : List ℕ} {iter : ℕ} {h : ChainHeap} (ho : h.Owned)
    (hrest : (h.nodes other).drop iter = rest) :
    ∃ h', (∀ fuel, rest.length < fuel → appendLoop junk this other fuel iter h = some h') ∧
      h'.Owned ∧
      h'.view this = BufferChain.appendLoop (fun n => junk (h.next + n)) (h.view this)
        (rest.map h.cells) ∧
      ∀ i, i ≠ this → h'.view i = h.view i := by
  induction rest generalizing iter h with
  | nil =>
    have hend : (h.nodes other)[iter]? = none :=
      List.getElem?_eq_none_iff.mpr (List.drop_eq_nil_iff.mp hrest)
    refine ⟨h, fun fuel hfuel => ?_, ho, rfl, fun _ _ => rfl⟩
    cases fuel with
    | zero => exact absurd hfuel (Nat.not_lt_zero _)
    | succ fuel => simp [appendLoop, hend]
  | cons iob rest ih =>
    have hat : (h.nodes other)[iter]? = some iob := by
      rw [← Nat.add_zero iter, ← List.getElem?_drop, hrest, List.getElem?_cons_zero]
    have hrest' : (h.nodes other).drop (iter + 1) = rest := by
      rw [← List.drop_drop, hrest, List.drop_succ_cons, List.drop_zero]
    -- one iteration leaves the list it reads alone, and the buffers that are still to be copied
    have hnodes : (h.copyBack junk this iob).nodes other = h.nodes other :=
      Function.update_of_ne hne ..
    have hcells : ∀ p ∈ rest, (h.copyBack junk this iob).cells p = h.cells p := by
      intro p hp
      have hp : p ∈ h.nodes other := List.mem_of_mem_drop (hrest'.symm ▸ hp)
      exact Function.update_of_ne (ho.allocated other p hp).ne ..
    have ho₁ : (h.copyBack junk this iob).Owned := ho.push rfl rfl
    obtain ⟨h', heq, ho', hthis, hothers⟩ := ih ho₁ (hnodes ▸ hrest')
    refine ⟨h', fun fuel hfuel => ?_, ho', ?_,
      fun i hi => (hothers i hi).trans (view_copyBack_of_ne ho junk hi iob)⟩
    · cases fuel with
      | zero => exact absurd hfuel (Nat.not_lt_zero _)
      | succ fuel =>
        simp only [appendLoop, hat]
        exact heq fuel (Nat.lt_of_succ_lt_succ hfuel)
    · have hjunk : (fun n => junk ((h.copyBack junk this iob).next + n)) =
          fun n => junk (h.next + (n + 1)) := by
        funext n
        change junk (h.next + 1 + n) = _
        rw [Nat.add_assoc, Nat.add_comm 1]
      rw [hthis, view_copyBack_self ho, List.map_congr_left hcells, hjunk]
      rfl

/-- The front of the chain `other` moved to the back of `this`, as one iteration does it. -/
def moveFront (h : ChainHeap) (this other iob : ℕ) (rest : List ℕ) : ChainHeap :=
  addBack { h with
    nodes := Function.update h.nodes other rest
    mSize := Function.update h.mSize other (h.mSize other - (h.cells iob).dataLen) } this iob

private theorem nodes_moveFront (h : ChainHeap) {this other : ℕ} (hne : other ≠ this) (iob : ℕ)
    (rest : List ℕ) : (h.moveFront this other iob rest).nodes =
      Function.update (Function.update h.nodes other rest) this (h.nodes this ++ [iob]) := by
  simp [moveFront, addBack, hne.symm]

private theorem mSize_moveFront (h : ChainHeap) {this other : ℕ} (hne : other ≠ this) (iob : ℕ)
    (rest : List ℕ) : (h.moveFront this other iob rest).mSize other =
      h.mSize other - (h.cells iob).dataLen := by
  simp [moveFront, addBack, hne]

private theorem view_moveFront (h : ChainHeap) {this other : ℕ} (hne : other ≠ this) (iob : ℕ)
    (rest : List ℕ) : (h.moveFront this other iob rest).view this =
      (h.view this).addBack (h.cells iob) := by
  simp [moveFront, addBack, view, BufferChain.addBack, hne.symm]

/-- A buffer taken from the front of a chain belongs to none. -/
theorem Owned.removeFront {h h' : ChainHeap} (ho : h.Owned) {i iob : ℕ} {rest : List ℕ}
    (hfront : h.nodes i = iob :: rest) (hnodes : h'.nodes = Function.update h.nodes i rest)
    (hnext : h'.next = h.next) : h'.Owned ∧ ∀ j, iob ∉ h'.nodes j := by
  have hnodup := ho.nodup i
  rw [hfront, List.nodup_cons] at hnodup
  have hmem : ∀ j, ∀ p ∈ h'.nodes j, p ∈ h.nodes j := by
    intro j p hp
    rw [hnodes] at hp
    rcases eq_or_ne j i with rfl | hne
    · rw [Function.update_self] at hp
      exact hfront ▸ List.mem_cons_of_mem _ hp
    · rwa [Function.update_of_ne hne] at hp
  refine ⟨⟨fun j p hp => hnext ▸ ho.allocated j p (hmem j p hp), fun j => ?_,
    fun j k hjk p hp hp' => ho.disjoint j k hjk p (hmem j p hp) (hmem k p hp')⟩, fun j hj => ?_⟩
  · rw [hnodes]
    rcases eq_or_ne j i with rfl | hne
    · rw [Function.update_self]
      exact hnodup.2
    · rw [Function.update_of_ne hne]
      exact ho.nodup j
  · rcases eq_or_ne j i with rfl | hne
    · rw [hnodes, Function.update_self] at hj
      exact hnodup.1 hj
    · exact ho.disjoint j i hne iob (hmem j iob hj) (hfront ▸ List.mem_cons_self)

private theorem Owned.moveFront {h : ChainHeap} (ho : h.Owned) {this other iob : ℕ} {rest : List ℕ}
    (hfront : h.nodes other = iob :: rest) : (h.moveFront this other iob rest).Owned := by
  let h₁ : ChainHeap := { h with
    nodes := Function.update h.nodes other rest
    mSize := Function.update h.mSize other (h.mSize other - (h.cells iob).dataLen) }
  obtain ⟨ho₁, hfresh⟩ : h₁.Owned ∧ ∀ j, iob ∉ h₁.nodes j := ho.removeFront hfront rfl rfl
  have hiob : iob < h.next := ho.allocated other iob (hfront ▸ List.mem_cons_self)
  exact ho₁.addBack hfresh hiob (Nat.le_refl _) rfl

/-- The loop of `BufferChain_steal_bufferchain` ends, and does to the two chains what the loop on
values does. -/
theorem stealBufferchain_spec {this other : ℕ} (hne : other ≠ this) {rest : List ℕ}
    {h : ChainHeap} (ho : h.Owned) (hrest : h.nodes other = rest) :
    ∃ h', (∀ fuel, rest.length < fuel → stealBufferchain this other fuel h = some h') ∧
      (h'.view this, h'.view other) =
        BufferChain.stealLoop (h.view this) (rest.map h.cells) (h.mSize other) := by
  induction rest generalizing h with
  | nil =>
    refine ⟨h, fun fuel hfuel => ?_, by simp [view, hrest, BufferChain.stealLoop]⟩
    cases fuel with
    | zero => exact absurd hfuel (Nat.not_lt_zero _)
    | succ fuel => simp [stealBufferchain, popFront, hrest]
  | cons iob rest ih =>
    have hother : (h.moveFront this other iob rest).nodes other = rest := by
      rw [nodes_moveFront h hne, Function.update_of_ne hne, Function.update_self]
    obtain ⟨h', heq, hviews⟩ := ih (ho.moveFront hrest) hother
    refine ⟨h', fun fuel hfuel => ?_, ?_⟩
    · cases fuel with
      | zero => exact absurd hfuel (Nat.not_lt_zero _)
      | succ fuel =>
        simp only [stealBufferchain, popFront, hrest]
        exact heq fuel (Nat.lt_of_succ_lt_succ hfuel)
    · rw [hviews, view_moveFront h hne, mSize_moveFront h hne]
      rfl

/-! ### Changing one chain -/

/-- What may be done to a chain, or to the buffer of index `k` in it. -/
inductive Edit
  | consume (k n : ℕ)
  | dataAdd (k : ℕ) (bs : List UInt8)
  | append (junk : ByteMemory) (bs : List UInt8)

/-- `BufferChain_unpack_iter` of an iterator on the buffer of index `k`. -/
def unpackIter (h : ChainHeap) (i k : ℕ) : Except Abort ℕ :=
  match (h.nodes i)[k]? with
  | some iob => .ok iob
  | none => .error ⟨"List_itr_unpack", "itr != NULL"⟩

/-- The branch of `BufferChain_append` that adds a buffer. -/
def appendNew (junk : ByteMemory) (h : ChainHeap) (i : ℕ) (bs : List UInt8) :
    Except Abort ChainHeap := do
  let newIob ← (IOBuffer.newWithCapacity junk (BufferChain.requiredLen bs.length)).dataAdd bs
  return { h with
    cells := Function.update h.cells h.next newIob
    next := h.next + 1
    nodes := Function.update h.nodes i (h.nodes i ++ [h.next])
    mSize := Function.update h.mSize i (h.mSize i + bs.length) }

/-- `BufferChain_append`. -/
def append (junk : ByteMemory) (h : ChainHeap) (i : ℕ) (bs : List UInt8) :
    Except Abort ChainHeap :=
  if 0 < h.mSize i then
    match (h.nodes i).getLast? with
    | some last =>
      if (bs.length : ℤ) ≤ (h.cells last).spaceLen then do
        return { h with
          cells := Function.update h.cells last (← (h.cells last).dataAdd bs)
          mSize := Function.update h.mSize i (h.mSize i + bs.length) }
      else h.appendNew junk i bs
    | none => .error ⟨"IOBuffer_space_len", "last_iob is NULL"⟩
  else h.appendNew junk i bs

/-- An operation on the chain numbered `i`. -/
def edit (h : ChainHeap) (i : ℕ) : Edit → Except Abort ChainHeap
  | .consume k n => do
    let iob ← h.unpackIter i k
    return { h with cells := Function.update h.cells iob (← (h.cells iob).consume n) }
  | .dataAdd k bs => do
    let iob ← h.unpackIter i k
    return { h with cells := Function.update h.cells iob (← (h.cells iob).dataAdd bs) }
  | .append junk bs => h.append junk i bs

/-- An operation, with the number of its chain. -/
def step (h : ChainHeap) (e : ℕ × Edit) : Except Abort ChainHeap := h.edit e.1 e.2

theorem mem_of_unpackIter {h : ChainHeap} {i k iob : ℕ} (heq : h.unpackIter i k = .ok iob) :
    iob ∈ h.nodes i := by
  unfold unpackIter at heq
  split at heq
  · rename_i hk
    cases heq
    exact List.mem_of_getElem? hk
  · cases heq

/-- Replacing a buffer of one chain, and its size, keeps the others as they are. -/
theorem Owned.replace {h : ChainHeap} (ho : h.Owned) {i iob : ℕ} (hmem : iob ∈ h.nodes i)
    (b : IOBuffer) (size : ℤ) :
    Owned { h with
      cells := Function.update h.cells iob b, mSize := Function.update h.mSize i size } ∧
    ∀ j, j ≠ i → view { h with
      cells := Function.update h.cells iob b, mSize := Function.update h.mSize i size } j =
        h.view j := by
  refine ⟨⟨ho.allocated, ho.nodup, ho.disjoint⟩, fun j hj => ?_⟩
  refine view_congr rfl (Function.update_of_ne hj ..) fun p hp => Function.update_of_ne ?_ ..
  exact fun heq => ho.disjoint i j hj.symm iob hmem (heq ▸ hp)

private theorem Owned.replaceCell {h : ChainHeap} (ho : h.Owned) {i k iob : ℕ}
    (hiob : h.unpackIter i k = .ok iob) (b : IOBuffer) :
    Owned { h with cells := Function.update h.cells iob b } ∧
      ∀ j, j ≠ i → view { h with cells := Function.update h.cells iob b } j = h.view j := by
  have hrep := ho.replace (mem_of_unpackIter hiob) b (h.mSize i)
  rwa [Function.update_eq_self] at hrep

theorem Owned.of_appendNew {h h' : ChainHeap} (ho : h.Owned) {junk : ByteMemory} {i : ℕ}
    {bs : List UInt8} (heq : h.appendNew junk i bs = .ok h') :
    h'.Owned ∧ ∀ j, j ≠ i → h'.view j = h.view j := by
  simp only [appendNew, Except.bind_eq_ok] at heq
  obtain ⟨b, -, heq⟩ := heq
  cases heq
  refine ⟨ho.push rfl rfl, fun j hj => ?_⟩
  refine view_congr (Function.update_of_ne hj ..) (Function.update_of_ne hj ..) fun p hp => ?_
  exact Function.update_of_ne (ho.allocated j p hp).ne ..

/-- An operation on one chain keeps the others as they are. -/
theorem Owned.edit {h h' : ChainHeap} (ho : h.Owned) {i : ℕ} {e : Edit}
    (heq : h.edit i e = .ok h') : h'.Owned ∧ ∀ j, j ≠ i → h'.view j = h.view j := by
  cases e with
  | consume k n =>
    simp only [ChainHeap.edit, Except.bind_eq_ok] at heq
    obtain ⟨iob, hiob, b, -, heq⟩ := heq
    cases heq
    exact ho.replaceCell hiob b
  | dataAdd k bs =>
    simp only [ChainHeap.edit, Except.bind_eq_ok] at heq
    obtain ⟨iob, hiob, b, -, heq⟩ := heq
    cases heq
    exact ho.replaceCell hiob b
  | append junk bs =>
    simp only [ChainHeap.edit, append] at heq
    split at heq
    · split at heq
      · rename_i last hlast
        split at heq
        · simp only [Except.bind_eq_ok] at heq
          obtain ⟨b, -, heq⟩ := heq
          cases heq
          exact ho.replace (List.mem_of_getLast? hlast) b _
        · exact ho.of_appendNew heq
      · cases heq
    · exact ho.of_appendNew heq

/-- Once chains own their buffers, whatever is done to chains afterwards, an operation on one of
them is never seen in another. -/
theorem Owned.isolated {h h₁ h₂ : ChainHeap} (ho : h.Owned) {es : List (ℕ × Edit)}
    (hrun : Machine.run step h es = .ok h₁) {i j : ℕ} {e : Edit} (hstep : h₁.edit i e = .ok h₂)
    (hne : j ≠ i) : h₂.view j = h₁.view j := by
  have ho₁ : h₁.Owned := Machine.run_invariant (fun _ _ _ ho hs => (Owned.edit ho hs).1) ho hrun
  exact (ho₁.edit hstep).2 j hne

/-- Both concatenations end, with enough fuel. They add to the chain `this` what the chain `other`
had, and its size; the one leaves the other chain as it was and never to be changed by an operation
on `this`, nor the reverse, the other leaves it empty. -/
theorem concatenation {h : ChainHeap} (junk : ℕ → ByteMemory) {this other : ℕ}
    (hne : this ≠ other) (ho : h.Owned) (hother : (h.view other).Counted)
    (hblocks : ∀ b ∈ (h.view other).mChain, b.Holds b.data) :
    ∃ h₁ h₂ : ChainHeap,
      (∀ fuel, (h.nodes other).length < fuel →
        appendBufferchain junk this other fuel h = some h₁ ∧
          stealBufferchain this other fuel h = some h₂) ∧
      (h₁.view this).data = (h.view this).data ++ (h.view other).data ∧
      (h₁.view this).size = (h.view this).size + (h.view other).size ∧
      h₁.view other = h.view other ∧
      (∀ es g g' e, Machine.run step h₁ es = .ok g →
        (g.edit this e = .ok g' → g'.view other = g.view other) ∧
          (g.edit other e = .ok g' → g'.view this = g.view this)) ∧
      (h₂.view this).data = (h.view this).data ++ (h.view other).data ∧
      (h₂.view this).size = (h.view this).size + (h.view other).size ∧
      h₂.view other = ⟨[], 0⟩ ∧
      (h₁.view this).data = (h₂.view this).data := by
  obtain ⟨h₁, heq₁, ho₁, hthis₁, hothers₁⟩ := appendLoop_spec junk hne.symm ho (List.drop_zero ..)
  obtain ⟨h₂, heq₂, hviews⟩ := stealBufferchain_spec hne.symm ho rfl
  obtain ⟨hthis₂, hother₂⟩ := Prod.mk.inj hviews
  obtain ⟨hdata₁, hsize₁⟩ :=
    BufferChain.appendLoop_spec (fun n => junk (h.next + n)) (h.view this) hblocks
  obtain ⟨hdata₂, hsize₂, hempty⟩ :=
    BufferChain.stealLoop_spec (h.view other).mChain (h.view this) (h.mSize other)
  -- what the loops add to the one size and take from the other is that size
  have hcount : (((h.view other).mChain.map IOBuffer.dataLen).sum : ℕ) = h.mSize other :=
    hother.symm
  rw [hcount] at hsize₁ hsize₂ hempty
  rw [Int.sub_self] at hempty
  have hthis₁ : h₁.view this = BufferChain.appendLoop (fun n => junk (h.next + n)) (h.view this)
      (h.view other).mChain := hthis₁
  have hthis₂ : h₂.view this = (BufferChain.stealLoop (h.view this) (h.view other).mChain
      (h.mSize other)).1 := hthis₂
  rw [← hthis₁] at hdata₁ hsize₁
  rw [← hthis₂] at hdata₂ hsize₂
  refine ⟨h₁, h₂, fun fuel hfuel => ⟨heq₁ fuel hfuel, heq₂ fuel hfuel⟩, hdata₁, hsize₁,
    hothers₁ other hne.symm, ?_, hdata₂, hsize₂, hother₂.trans hempty, hdata₁.trans hdata₂.symm⟩
  intro es g g' e hrun
  exact ⟨fun hs => ho₁.isolated hrun hs hne.symm, fun hs => ho₁.isolated hrun hs hne⟩

/-- Two chains of one buffer with one byte each; before that of the second chain one byte was
consumed. -/
def twoChains : ChainHeap where
  cells := fun p => ⟨fun i => UInt8.ofNat (10 * p + i), 4, p, 1⟩
  next := 2
  nodes := fun i => if i < 2 then [i] else []
  mSize := fun i => if i < 2 then 1 else 0

private theorem mem_twoChains {i p : ℕ} : p ∈ twoChains.nodes i ↔ p = i ∧ i < 2 := by
  change p ∈ (if i < 2 then [i] else []) ↔ _
  split <;> simp [*]

private theorem twoChains_owned : twoChains.Owned := by
  refine ⟨fun i p hp => ?_, fun i => ?_, fun i j hij p hp hp' => ?_⟩
  · obtain ⟨rfl, hlt⟩ := mem_twoChains.mp hp
    exact hlt
  · change (if i < 2 then [i] else []).Nodup
    split <;> simp
  · exact hij ((mem_twoChains.mp hp).1.symm.trans (mem_twoChains.mp hp').1)

theorem concatenation_twoChains :
    ∃ h₁ h₂, appendBufferchain (fun _ _ => 0) 0 1 2 twoChains = some h₁ ∧
      stealBufferchain 0 1 2 twoChains = some h₂ ∧ (h₁.view 0).data = [0, 11] ∧
      h₁.view 1 = twoChains.view 1 ∧ (h₂.view 0).data = [0, 11] ∧ h₂.view 1 = ⟨[], 0⟩ := by
  have hblocks : ∀ b ∈ (twoChains.view 1).mChain, b.Holds b.data := by
    intro b hb
    rw [List.mem_singleton.mp hb]
    exact ⟨rfl, rfl, by decide⟩
  obtain ⟨h₁, h₂, hrun, hdata₁, -, hother₁, -, hdata₂, -, hother₂, -⟩ :=
    concatenation (fun _ _ => 0) (show 0 ≠ 1 by decide) twoChains_owned rfl hblocks
  obtain ⟨hrun₁, hrun₂⟩ := hrun 2 (by decide)
  exact ⟨h₁, h₂, hrun₁, hrun₂, hdata₁, hother₁, hdata₂, hother₂⟩

end ChainHeap

end CHttp
