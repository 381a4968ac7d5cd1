import CHttp.Common.BufferChain
import CHttp.Common.Fifo
import Mathlib.Algebra.GroupWithZero.Nat
import Mathlib.Logic.Function.Basic

/-!
# The size and the content of buffer chains

The two laws of a buffer chain, over every sequence of operations. `BufferChain_size` is kept beside
the list and adjusted by each operation; `Counted` says that it is the sum over the buffers. And a
chain stands for the bytes that were put in it, which `BufferChain_compact` is to return.

Neither law holds as it stands. `BufferChain_add_front` assigns to the size what it should add, and
`BufferChain_remove_iter` does not touch it. `BufferChain_append` of nothing and
`BufferChain_compact` of a chain with an empty buffer run into the assertion of `IOBuffer_commit`,
and an append that goes to a partly consumed buffer may lose a byte to that function's NUL. Each law
is proved to hold of exactly the runs that stay clear of these.

A chain owns its buffers, which its list disposes of, so they are modelled as part of its value.
-/

namespace CHttp

namespace BufferChain

/-- The data of all buffers, counted. -/
def total (bc : BufferChain) : ℕ := (bc.mChain.map IOBuffer.dataLen).sum

/-- The size is the sum of `IOBuffer_data_len` over the buffers. -/
def Counted (bc : BufferChain) : Prop := bc.mSize = bc.total

theorem length_data (bc : BufferChain) : bc.data.length = bc.total := by
  simp [data, total, List.length_flatMap]

/-! ### What the operations do to the size and to the total -/

/-- A `BufferChain_append` that returns has counted the bytes once in the size and once in the
buffers. -/
theorem size_total_of_append {bc bc' : BufferChain} {junk : ByteMemory} {bs : List UInt8}
    (h : bc.append junk bs = .ok bc') :
    bc'.mSize = bc.mSize + bs.length ∧ bc'.total = bc.total + bs.length := by
  rcases append_cases junk bc bs with ⟨last, -, hlast, -, heq⟩ | ⟨heq, -⟩ | ⟨-, -, heq⟩
  · rw [heq, Except.bind_eq_ok] at h
    obtain ⟨b, hb, hbc⟩ := h
    cases hbc
    obtain ⟨hlen, -⟩ := IOBuffer.dataLen_of_dataAdd hb
    refine ⟨rfl, ?_⟩
    have hsplit := List.dropLast_append_getLast? last hlast
    simp only [total]
    rw [← hsplit]
    simp only [List.dropLast_concat, List.map_append, List.sum_append, List.map_singleton,
      List.sum_singleton, hlen]
    omega
  · rw [heq, appendNew, Except.bind_eq_ok] at h
    obtain ⟨b, hb, hbc⟩ := h
    cases hbc
    obtain ⟨hlen, -⟩ := IOBuffer.dataLen_of_dataAdd hb
    have hb0 : b.dataLen = bs.length := hlen.trans (Nat.zero_add _)
    exact ⟨rfl, by simp [total, hb0]⟩
  · rw [heq] at h
    cases h

theorem Counted.of_append {bc bc' : BufferChain} {junk : ByteMemory} {bs : List UInt8}
    (h : bc.Counted) (happ : bc.append junk bs = .ok bc') : bc'.Counted := by
  obtain ⟨hsize, htotal⟩ := size_total_of_append happ
  rw [Counted, hsize, htotal, h, Int.natCast_add]

theorem Counted.addBack {bc : BufferChain} (h : bc.Counted) (iobuf : IOBuffer) :
    (bc.addBack iobuf).Counted := by
  rw [Counted] at h
  simp [Counted, BufferChain.addBack, total, h]

/-- After `BufferChain_add_front` the size is right only if there was no data before. -/
theorem addFront_counted_iff (bc : BufferChain) (iobuf : IOBuffer) :
    (bc.addFront iobuf).Counted ↔ bc.total = 0 := by
  simp only [Counted, addFront, total, List.map_cons, List.sum_cons]
  omega

theorem Counted.popFront {bc : BufferChain} (h : bc.Counted) : bc.popFront.2.Counted := by
  rw [Counted, total] at h
  unfold BufferChain.popFront
  split
  · rw [Counted, total, h]
  · rename_i front rest hchain
    rw [hchain, List.map_cons, List.sum_cons] at h
    rw [Counted, total, h]
    simp only
    omega

/-- After `BufferChain_remove_iter` the size is right only if the buffer was empty. -/
theorem removeIter_counted_iff {bc bc' : BufferChain} {iter : ℕ} (h : bc.Counted)
    (hrem : bc.removeIter iter = .ok bc') :
    bc'.Counted ↔ ∀ b, bc.mChain[iter]? = some b → b.dataLen = 0 := by
  simp only [removeIter, Except.bind_eq_ok] at hrem
  obtain ⟨⟨⟩, hlt, heq⟩ := hrem
  cases heq
  have hiter : iter < bc.mChain.length := by
    by_contra hge
    simp [hge] at hlt
  have hsum : bc.total = bc.mChain[iter].dataLen +
      total { bc with mChain := bc.mChain.eraseIdx iter } := by
    simp only [total]
    rw [List.eraseIdx_eq_take_drop_succ]
    conv_lhs => rw [← List.take_append_drop iter bc.mChain, List.drop_eq_getElem_cons hiter]
    simp only [List.map_append, List.sum_append, List.map_cons, List.sum_cons]
    omega
  rw [Counted, hsum] at h
  rw [List.getElem?_eq_getElem hiter]
  change bc.mSize = _ ↔ _
  constructor
  · rintro hc b hb
    cases hb
    omega
  · intro hz
    have := hz _ rfl
    omega

theorem Counted.appendLoop {bs : List IOBuffer} {bc : BufferChain} (h : bc.Counted)
    (junk : ℕ → ByteMemory) : (appendLoop junk bc bs).Counted := by
  induction bs generalizing bc junk with
  | nil => exact h
  | cons b bs ih => exact ih (h.addBack _) _

/-- The loop of `BufferChain_steal_bufferchain` keeps both sizes right. -/
theorem Counted.stealLoop {bs : List IOBuffer} {bc : BufferChain} (h : bc.Counted) {size : ℤ}
    (hsize : Counted ⟨bs, size⟩) :
    (stealLoop bc bs size).1.Counted ∧ (stealLoop bc bs size).2.Counted := by
  induction bs generalizing bc size with
  | nil => exact ⟨h, hsize⟩
  | cons b bs ih => exact ih (h.addBack b) hsize.popFront

/-! ### The size, over any chains -/

/-- The operations on chains, which are known by numbers. `iter` is the index of the buffer that an
iterator is on. -/
inductive Op
  | append (i : ℕ) (junk : ByteMemory) (bs : List UInt8)
  | appendCstr (i : ℕ) (junk : ByteMemory) (cstr : List UInt8)
  | appendIOBuffer (i : ℕ) (junk : ByteMemory) (iobuf : IOBuffer)
  | addBack (i : ℕ) (iobuf : IOBuffer)
  | addFront (i : ℕ) (iobuf : IOBuffer)
  | popFront (i : ℕ)
  | removeIter (i iter : ℕ)
  | appendBufferchain (i j : ℕ) (junk : ℕ → ByteMemory)
  | stealBufferchain (i j : ℕ)

/-- One operation. Of a chain with itself neither concatenation comes to an end, unless the chain is
empty: the loop of the one sees every copy it adds, the other takes out what it puts in. -/
def step (w : ℕ → BufferChain) : Op → Except Abort (ℕ → BufferChain)
  | .append i junk bs => do return Function.update w i (← (w i).append junk bs)
  | .appendCstr i junk cstr => do return Function.update w i (← (w i).appendCstr junk cstr)
  | .appendIOBuffer i junk iobuf => do
    return Function.update w i (← (w i).appendIOBuffer junk iobuf)
  | .addBack i iobuf => .ok (Function.update w i ((w i).addBack iobuf))
  | .addFront i iobuf => .ok (Function.update w i ((w i).addFront iobuf))
  | .popFront i => .ok (Function.update w i (w i).popFront.2)
  | .removeIter i iter => do return Function.update w i (← (w i).removeIter iter)
  | .appendBufferchain i j junk => do
    assertThat (i ≠ j ∨ (w i).mChain.isEmpty) "BufferChain_append_bufferchain" "does not return"
    return Function.update w i ((w i).appendBufferchain junk (w j))
  | .stealBufferchain i j => do
    assertThat (i ≠ j ∨ (w i).mChain.isEmpty) "BufferChain_steal_bufferchain" "does not return"
    let (this, other) := (w i).stealBufferchain (w j)
    return Function.update (Function.update w j other) i this

/-- The two operations that leave the size wrong find no data to count: the chain that gets a new
front has none, and neither has the buffer that is removed. -/
def Harmless (w : ℕ → BufferChain) : Op → Prop
  | .addFront i _ => (w i).total = 0
  | .removeIter i iter => ∀ b, (w i).mChain[iter]? = some b → b.dataLen = 0
  | _ => True

/-- Replacing one of the chains. -/
theorem forall_counted_update {w : ℕ → BufferChain} (h : ∀ i, (w i).Counted) (i : ℕ)
    (bc : BufferChain) : (∀ k, (Function.update w i bc k).Counted) ↔ bc.Counted := by
  constructor
  · intro hall
    simpa using hall i
  · intro hbc k
    rcases eq_or_ne k i with rfl | hne
    · simpa using hbc
    · rw [Function.update_of_ne hne]
      exact h k

/-- An operation that returns keeps all sizes right exactly if it is harmless. -/
theorem step_counted_iff {w w' : ℕ → BufferChain} {op : Op} (h : ∀ i, (w i).Counted)
    (hs : step w op = .ok w') : (∀ i, (w' i).Counted) ↔ Harmless w op := by
  cases op with
  | append i junk bs =>
    simp only [step, Except.bind_eq_ok] at hs
    obtain ⟨bc, hbc, heq⟩ := hs
    cases heq
    exact iff_of_true ((forall_counted_update h i bc).mpr ((h i).of_append hbc)) trivial
  | appendCstr i junk cstr =>
    simp only [step, Except.bind_eq_ok] at hs
    obtain ⟨bc, hbc, heq⟩ := hs
    cases heq
    exact iff_of_true ((forall_counted_update h i bc).mpr ((h i).of_append hbc)) trivial
  | appendIOBuffer i junk iobuf =>
    simp only [step, Except.bind_eq_ok] at hs
    obtain ⟨bc, hbc, heq⟩ := hs
    cases heq
    exact iff_of_true ((forall_counted_update h i bc).mpr ((h i).of_append hbc)) trivial
  | addBack i iobuf =>
    cases hs
    exact iff_of_true ((forall_counted_update h i _).mpr ((h i).addBack iobuf)) trivial
  | addFront i iobuf =>
    cases hs
    exact (forall_counted_update h i _).trans (addFront_counted_iff (w i) iobuf)
  | popFront i =>
    cases hs
    exact iff_of_true ((forall_counted_update h i _).mpr (h i).popFront) trivial
  | removeIter i iter =>
    simp only [step, Except.bind_eq_ok] at hs
    obtain ⟨bc, hbc, heq⟩ := hs
    cases heq
    exact (forall_counted_update h i bc).trans (removeIter_counted_iff (h i) hbc)
  | appendBufferchain i j junk =>
    simp only [step, Except.bind_eq_ok] at hs
    obtain ⟨⟨⟩, -, heq⟩ := hs
    cases heq
    exact iff_of_true ((forall_counted_update h i _).mpr ((h i).appendLoop junk)) trivial
  | stealBufferchain i j =>
    simp only [step, Except.bind_eq_ok] at hs
    obtain ⟨⟨⟩, -, heq⟩ := hs
    cases heq
    obtain ⟨hthis, hother⟩ := (h i).stealLoop (h j)
    have hj := (forall_counted_update h j _).mpr hother
    exact iff_of_true ((forall_counted_update hj i _).mpr hthis) trivial

/-- An operation that does not return is harmless. -/
theorem harmless_of_error {w : ℕ → BufferChain} {op : Op} {e : Abort}
    (hs : step w op = .error e) : Harmless w op := by
  cases op with
  | addFront i iobuf => cases hs
  | removeIter i iter =>
    intro b hb
    obtain ⟨hlt, -⟩ := List.getElem?_eq_some_iff.mp hb
    simp only [step, removeIter, hlt, decide_true, assertThat_true] at hs
    cases hs
  | _ => trivial

/-- Over any operations on any chains the sizes are right in every state exactly if no buffer goes
to the front of a chain that has data, and no iterator removes a buffer that has some. -/
theorem counted_iff_harmless (ops : List Op) :
    Machine.Always step (fun w => ∀ i, (w i).Counted) (fun _ => new) ops ↔
      Machine.Along step Harmless (fun _ => new) ops := by
  refine Machine.always_iff_along (fun _ _ _ (h : True) _ => h) ?_ ?_ trivial fun _ => rfl
  · exact fun _ _ _ _ h hs => step_counted_iff h hs
  · exact fun _ _ _ _ _ hs => harmless_of_error hs

/-- A byte put before a byte: the chain has two and says one. A byte removed by an iterator: the
chain has none and says one, and the next append looks for its last buffer. -/
theorem not_counted_addFront_removeIter :
    (¬ Machine.Always step (fun w => ∀ i, (w i).Counted) (fun _ => new)
      [.append 0 (fun _ => 0) [97], .addFront 0 ⟨fun _ => 98, 1, 0, 1⟩]) ∧
    (¬ Machine.Always step (fun w => ∀ i, (w i).Counted) (fun _ => new)
      [.append 0 (fun _ => 0) [97], .removeIter 0 0]) ∧
    Machine.run step (fun _ => new)
      [.append 0 (fun _ => 0) [97], .removeIter 0 0, .append 0 (fun _ => 0) [98]] =
        .error ⟨"IOBuffer_space_len", "last_iob is NULL"⟩ := by
  refine ⟨fun h => ?_, fun h => ?_, rfl⟩
  · have hsize : (1 : ℤ) = 2 := h.last rfl 0
    exact absurd hsize (by decide)
  · have hsize : (1 : ℤ) = 0 := h.last rfl 0
    exact absurd hsize (by decide)

end BufferChain

/-! ### The content of one chain -/

/-- A chain beside what was put in it, and the buffers that `BufferChain_compact` returned, each
beside what had been put in until then. -/
structure ChainContent where
  chain : BufferChain
  content : List UInt8
  compacted : List (IOBuffer × List UInt8)

namespace ChainContent

/-- Ways to put bytes in a chain, and to get them out. -/
inductive Op
  | append (junk : ByteMemory) (bs : List UInt8)
  | addBack (iobuf : IOBuffer)
  | compact (junk : ByteMemory)

def new : ChainContent := ⟨BufferChain.new, [], []⟩

/-- One operation. `BufferChain_compact` only reads the chain. -/
def step (s : ChainContent) : Op → Except Abort ChainContent
  | .append junk bs => do
    return { s with chain := ← s.chain.append junk bs, content := s.content ++ bs }
  | .addBack iobuf =>
    .ok { s with chain := s.chain.addBack iobuf, content := s.content ++ iobuf.data }
  | .compact junk => do
    let iob ← s.chain.compact junk
    return { s with compacted := s.compacted ++ [(iob, s.content)] }

/-- The chain has what was put in, and so had every compacted buffer. -/
structure Faithful (s : ChainContent) : Prop where
  chain : s.chain.data = s.content
  compacted : ∀ p ∈ s.compacted, p.1.data = p.2

/-- The operation adds some bytes, and to a last buffer only if the NUL spares what it has; it
compacts a chain without empty buffers. -/
def Spared (s : ChainContent) : Op → Prop
  | .append _ bs => bs ≠ [] ∧ ∀ last, 0 < s.chain.size → s.chain.mChain.getLast? = some last →
      (bs.length : ℤ) ≤ last.spaceLen → last.NulSpares bs
  | .addBack _ => True
  | .compact _ => ∀ b ∈ s.chain.mChain, 0 < b.dataLen

private theorem step_counted {s s' : ChainContent} {op : Op} (h : s.chain.Counted)
    (hs : s.step op = .ok s') : s'.chain.Counted := by
  cases op with
  | append junk bs =>
    simp only [step, Except.bind_eq_ok] at hs
    obtain ⟨bc, hbc, heq⟩ := hs
    cases heq
    exact h.of_append hbc
  | addBack iobuf =>
    cases hs
    exact h.addBack iobuf
  | compact junk =>
    simp only [step, Except.bind_eq_ok] at hs
    obtain ⟨b, -, heq⟩ := hs
    cases heq
    exact h

/-- `BufferChain_append` goes through and adds the bytes to the chain's exactly if there are some
and the NUL spares the buffer they go to. -/
theorem append_data_iff {bc : BufferChain} (h : bc.Counted) (junk : ByteMemory)
    (bs : List UInt8) :
    (∃ bc', bc.append junk bs = .ok bc' ∧ bc'.data = bc.data ++ bs) ↔
      bs ≠ [] ∧ ∀ last, 0 < bc.size → bc.mChain.getLast? = some last →
        (bs.length : ℤ) ≤ last.spaceLen → last.NulSpares bs := by
  rcases BufferChain.append_cases junk bc bs with
    ⟨last, hpos, hlast, hroom, heq⟩ | ⟨heq, hfull⟩ | ⟨hpos, hnil, -⟩
  · -- the last buffer takes the bytes: the chain gains exactly what that buffer gains
    have hdata : bc.data = bc.mChain.dropLast.flatMap IOBuffer.data ++ last.data := by
      rw [BufferChain.data, ← List.dropLast_append_getLast? last hlast, List.flatMap_append,
        List.flatMap_singleton, List.dropLast_concat]
    have hcond : (∀ last', 0 < bc.size → bc.mChain.getLast? = some last' →
        (bs.length : ℤ) ≤ last'.spaceLen → last'.NulSpares bs) ↔ last.NulSpares bs := by
      constructor
      · exact fun hall => hall last hpos hlast hroom
      · intro hnul last' _ hlast' _
        cases hlast.symm.trans hlast'
        exact hnul
    rw [hcond, heq, IOBuffer.dataAdd_of_le hroom]
    by_cases hbs : bs = []
    · subst hbs
      refine iff_of_false ?_ (fun h => h.1 rfl)
      rintro ⟨bc', hbc, -⟩
      simp only [Except.bind_eq_ok] at hbc
      obtain ⟨b, hb, -⟩ := hbc
      exact absurd (IOBuffer.commit_eq_ok.mp hb).1 (Nat.lt_irrefl 0)
    · obtain ⟨b, hb⟩ : ∃ b, (last.fill bs).commit bs.length = .ok b :=
        ⟨_, IOBuffer.commit_eq_ok.mpr ⟨List.length_pos_iff.mpr hbs, rfl⟩⟩
      have hiff := IOBuffer.data_fill_commit_iff (Nat.le_refl _) hb
      rw [List.take_length] at hiff
      simp only [hb, Except.ok_bind, Except.pure_eq_ok, Except.ok.injEq, exists_eq_left', hbs,
        ne_eq, not_false_eq_true, true_and, ← hiff, hdata]
      simp [BufferChain.data]
  · rw [heq]
    by_cases hbs : bs = []
    · subst hbs
      refine iff_of_false ?_ (fun h => h.1 rfl)
      simp [BufferChain.appendNew_nil]
    · obtain ⟨b, hb, hh, -⟩ := BufferChain.appendNew_eq junk bc hbs
      refine iff_of_true ⟨_, hb, by simp [BufferChain.data, hh.data_eq]⟩ ⟨hbs, ?_⟩
      intro last hsize hlast hroom
      exact absurd (hfull hsize last hlast) (Int.not_lt.mpr hroom)
  · rw [h, BufferChain.total, hnil] at hpos
    exact absurd hpos (Int.lt_irrefl _)

/-- `BufferChain_compact` goes through exactly if no buffer is empty. -/
theorem compact_ok_iff {bc : BufferChain} (h : bc.Counted) (junk : ByteMemory) :
    (∃ b, bc.compact junk = .ok b) ↔ ∀ b ∈ bc.mChain, 0 < b.dataLen := by
  constructor
  · rintro ⟨b, hb⟩
    rw [BufferChain.compact, Except.bind_eq_ok] at hb
    obtain ⟨⟨⟩, -, hcopy⟩ := hb
    exact BufferChain.dataLen_of_copyTo hcopy
  · intro hall
    have hsound : bc.Sound := by
      refine ⟨fun b hb hnil => ?_, by rw [h, BufferChain.length_data]⟩
      have := hall b hb
      rw [← IOBuffer.length_data, hnil] at this
      exact Nat.lt_irrefl _ this
    obtain ⟨b, hb, -, -⟩ := hsound.compact_spec junk
    exact ⟨b, hb⟩

/-- An operation goes through and keeps the content exactly if it is spared. -/
theorem step_faithful_iff {s : ChainContent} {op : Op} (h : s.chain.Counted) (hf : s.Faithful) :
    (∃ s', s.step op = .ok s' ∧ s'.Faithful) ↔ s.Spared op := by
  cases op with
  | append junk bs =>
    rw [Spared, ← append_data_iff h junk bs, hf.chain]
    constructor
    · rintro ⟨s', hs, hf'⟩
      simp only [step, Except.bind_eq_ok] at hs
      obtain ⟨bc, hbc, heq⟩ := hs
      cases heq
      exact ⟨bc, hbc, hf'.chain⟩
    · rintro ⟨bc, hbc, hdata⟩
      refine ⟨{ s with chain := bc, content := s.content ++ bs }, ?_, hdata, hf.compacted⟩
      simp only [step, hbc]
      rfl
  | addBack iobuf =>
    refine iff_of_true ⟨_, rfl, ?_, hf.compacted⟩ trivial
    change (s.chain.addBack iobuf).data = s.content ++ iobuf.data
    simp [BufferChain.addBack, BufferChain.data, ← hf.chain]
  | compact junk =>
    rw [Spared, ← compact_ok_iff h junk]
    constructor
    · rintro ⟨s', hs, -⟩
      simp only [step, Except.bind_eq_ok] at hs
      obtain ⟨b, hb, -⟩ := hs
      exact ⟨b, hb⟩
    · rintro ⟨b, hb⟩
      refine ⟨{ s with compacted := s.compacted ++ [(b, s.content)] }, ?_, hf.chain,
        fun p hp => ?_⟩
      · simp only [step, hb]
        rfl
      · rcases List.mem_append.mp hp with hold | hnew
        · exact hf.compacted p hold
        · rw [List.mem_singleton.mp hnew, (BufferChain.holds_of_compact hb).data_eq, hf.chain]

/-- Over any appends, added buffers and compactions, no assertion fails and the chain and all that
was compacted have the bytes put in, exactly if each of the operations is spared. -/
theorem faithful_iff_spared (ops : List Op) :
    ((∃ s, Machine.run step new ops = .ok s) ∧ Machine.Always step Faithful new ops) ↔
      Machine.Along step Spared new ops :=
  Machine.run_ok_always_iff_along (fun _ _ _ h hs => step_counted h hs)
    (fun _ _ h hf => step_faithful_iff h hf) (s := new) (show BufferChain.new.Counted from rfl)
    ⟨rfl, by simp [new]⟩

/-- An empty append aborts, and so does the compaction of a chain with an empty buffer; an append to
a buffer of which a byte was consumed loses the byte. -/
theorem not_faithful_empty_consumed :
    Machine.run step new [.append (fun _ => 0) []] =
        .error ⟨"IOBuffer_commit", "bytes_used > 0"⟩ ∧
      Machine.run step new
          [.addBack (IOBuffer.newWithCapacity (fun _ => 0) 8), .compact fun _ => 0] =
        .error ⟨"IOBuffer_commit", "bytes_used > 0"⟩ ∧
      ¬ Machine.Always step Faithful new
        [.addBack ⟨fun i => UInt8.ofNat i, 8, 1, 2⟩, .append (fun _ => 0) [9]] := by
  refine ⟨rfl, rfl, fun h => ?_⟩
  have hdata : [1, 2, 0] = [1, 2, (9 : UInt8)] := (h.last rfl).chain
  exact absurd hdata (by decide)

end ChainContent

end CHttp
