import CHttp.Common.IOBuffer
import CHttp.ForMathlib.Machine

/-!
# I/O buffers as byte queues

What an `IOBuffer` is for: bytes are added at one end, by `IOBuffer_data_add` or by a `read` into
`IOBuffer_space` followed by `IOBuffer_commit`, and consumed at the other. A `Fifo` runs a buffer
beside the queue it stands for, and `IsFifo` compares the two.

Two things keep the buffer from being that queue. The NUL of `IOBuffer_commit` goes to
`mem_p + buffer_remaining`, so once bytes have been consumed it falls before the data or on a byte
of it; `NulSpares` says when no byte of the data is lost. And `IOBuffer_consolidate_space` adds the
data to a new block with `IOBuffer_data_add`, which does not take an empty range.
-/

namespace CHttp

namespace IOBuffer

theorem commit_eq_ok {b b' : IOBuffer} {n : ℕ} :
    b.commit n = .ok b' ↔ 0 < n ∧ b' = { b with
      bufferRemaining := b.bufferRemaining + n
      mem := b.mem.put (b.bufferRemaining + n) 0 } := by
  by_cases hn : 0 < n
  · simp [commit, hn, eq_comm]
  · simp [commit, hn]

theorem dataAdd_of_le {b : IOBuffer} {bs : List UInt8} (h : (bs.length : ℤ) ≤ b.spaceLen) :
    b.dataAdd bs = (b.fill bs).commit bs.length := by
  simp only [dataAdd, h, decide_true, assertThat_true]
  rfl

/-- The NUL that `IOBuffer_commit` writes once `bs` has been added changes no byte of the data: it
falls outside of it, or on a byte that is zero already. -/
def NulSpares (this : IOBuffer) (bs : List UInt8) : Prop :=
  this.bufferPtr ≤ this.bufferRemaining + bs.length →
    (this.data ++ bs).getD (this.bufferRemaining + bs.length - this.bufferPtr) 0 = 0

instance (this : IOBuffer) (bs : List UInt8) : Decidable (this.NulSpares bs) :=
  inferInstanceAs (Decidable (_ → _))

private theorem set_eq_self_iff {l : List UInt8} {i : ℕ} : l.set i 0 = l ↔ l.getD i 0 = 0 := by
  constructor
  · intro h
    rw [← h, List.getD_eq_getElem?_getD, List.getElem?_set_self']
    cases l[i]? <;> rfl
  · intro h
    refine List.ext_getElem (by simp) fun j h1 h2 => ?_
    rw [List.getElem_set]
    split
    · rename_i hij
      subst hij
      rw [List.getD_eq_getElem?_getD, List.getElem?_eq_getElem h2] at h
      exact h.symm
    · rfl

private theorem fields_of_fill_commit {b b' : IOBuffer} {ws : List UInt8} {n : ℕ}
    (h : (b.fill ws).commit n = .ok b') :
    b'.bufferPtr = b.bufferPtr ∧ b'.bufferRemaining = b.bufferRemaining + n ∧
      b'.bufferCapacity = b.bufferCapacity := by
  obtain ⟨-, rfl⟩ := commit_eq_ok.mp h
  exact ⟨rfl, rfl, rfl⟩

/-- The data after a commit, the NUL included. -/
theorem data_of_fill_commit {b b' : IOBuffer} {ws : List UInt8} {n : ℕ} (hn : n ≤ ws.length)
    (h : (b.fill ws).commit n = .ok b') :
    b'.data = if b.bufferPtr ≤ b.bufferRemaining + n then
      (b.data ++ ws.take n).set (b.bufferRemaining + n - b.bufferPtr) 0
      else b.data ++ ws.take n := by
  obtain ⟨-, rfl⟩ := commit_eq_ok.mp h
  change ((b.mem.blit (b.bufferPtr + b.bufferRemaining) ws).put (b.bufferRemaining + n) 0).read
    b.bufferPtr (b.bufferRemaining + n) = _
  rw [ByteMemory.read_put, ByteMemory.read_blit_append_take _ _ _ hn]
  rfl

/-- A commit adds the bytes, and nothing else happens to the data, exactly when its NUL spares
them. -/
theorem data_fill_commit_iff {b b' : IOBuffer} {ws : List UInt8} {n : ℕ} (hn : n ≤ ws.length)
    (h : (b.fill ws).commit n = .ok b') :
    b'.data = b.data ++ ws.take n ↔ b.NulSpares (ws.take n) := by
  rw [data_of_fill_commit hn h, NulSpares, List.length_take, Nat.min_eq_left hn]
  split
  · rename_i hle
    rw [set_eq_self_iff]
    exact ⟨fun h _ => h, fun h => h hle⟩
  · rename_i hle
    exact iff_of_true rfl fun h => absurd h hle

/-- Nothing is written past the block and its spare byte. -/
theorem mem_of_fill_commit {b b' : IOBuffer} {ws : List UInt8} {n i : ℕ}
    (hws : b.bufferPtr + b.bufferRemaining + ws.length ≤ b.bufferCapacity) (hn : n ≤ ws.length)
    (h : (b.fill ws).commit n = .ok b') (hi : b.bufferCapacity < i) : b'.mem i = b.mem i := by
  obtain ⟨-, rfl⟩ := commit_eq_ok.mp h
  change ((b.mem.blit (b.bufferPtr + b.bufferRemaining) ws).put (b.bufferRemaining + n) 0) i = _
  rw [ByteMemory.put_of_ne _ _ (by omega), ByteMemory.blit_of_notMem _ (Or.inr (by omega))]

end IOBuffer

/-- A buffer made for `capacity` bytes and the queue it stands for: `content` is what was added and
not consumed, `consumed` counts the consumed bytes whose room was not reclaimed. `outside` is what
lay in memory when the buffer's block was allocated. -/
structure Fifo where
  buffer : IOBuffer
  capacity : ℕ
  outside : ByteMemory
  content : List UInt8
  consumed : ℕ

namespace Fifo

/-- The operations on one buffer. `commit ws n` is a `read` or `memcpy` of `ws` to `IOBuffer_space`
of which `n` bytes are committed. -/
inductive Op
  | dataAdd (bs : List UInt8)
  | commit (ws : List UInt8) (n : ℕ)
  | consume (n : ℕ)
  | reset
  | consolidateSpace (junk : ByteMemory)

/-- `IOBuffer_new_with_capacity`. -/
def new (junk : ByteMemory) (capacity : ℕ) : Fifo :=
  ⟨IOBuffer.newWithCapacity junk capacity, capacity, junk, [], 0⟩

/-- One operation, on the buffer and on the queue. The room of consumed bytes comes back when
nothing is left, on a reset and when the space is consolidated. -/
def step (s : Fifo) : Op → Except Abort Fifo
  | .dataAdd bs => do
    return { s with buffer := ← s.buffer.dataAdd bs, content := s.content ++ bs }
  | .commit ws n => do
    return { s with
      buffer := ← (s.buffer.fill ws).commit n, content := s.content ++ ws.take n }
  | .consume n => do
    let content := s.content.drop n
    return { s with
      buffer := ← s.buffer.consume n
      content := content
      consumed := if content = [] then 0 else s.consumed + n }
  | .reset => .ok { s with buffer := s.buffer.reset, content := [], consumed := 0 }
  | .consolidateSpace junk => do
    return { s with buffer := ← s.buffer.consolidateSpace junk, outside := junk, consumed := 0 }

/-- How the operations may be called: at least one byte is added and no more than there is space
for, and no more is consumed than there is data. -/
def Allowed (s : Fifo) : Op → Prop
  | .dataAdd bs => 0 < bs.length ∧ (bs.length : ℤ) ≤ s.buffer.spaceLen
  | .commit ws n => 0 < n ∧ n ≤ ws.length ∧ (ws.length : ℤ) ≤ s.buffer.spaceLen
  | .consume n => n ≤ s.buffer.dataLen
  | .reset => True
  | .consolidateSpace _ => True

/-- The buffer shows the queue, its capacity is divided into space, data and consumed bytes, and
nothing outside the allocated `capacity + 1` bytes was written. -/
structure IsFifo (s : Fifo) : Prop where
  data : s.buffer.data = s.content
  room : s.buffer.spaceLen + s.buffer.dataLen + s.consumed = s.capacity
  outside : ∀ i, s.capacity < i → s.buffer.mem i = s.outside i

/-- The operation does not meet one of the two defects. -/
def Spared (s : Fifo) : Op → Prop
  | .dataAdd bs => s.buffer.NulSpares bs
  | .commit ws n => s.buffer.NulSpares (ws.take n)
  | .consume _ => True
  | .reset => True
  | .consolidateSpace _ => 0 < s.buffer.dataLen

instance (s : Fifo) : (op : Op) → Decidable (s.Allowed op)
  | .dataAdd _ => inferInstanceAs (Decidable (_ ∧ _))
  | .commit _ _ => inferInstanceAs (Decidable (_ ∧ _))
  | .consume _ => inferInstanceAs (Decidable (_ ≤ _))
  | .reset => isTrue trivial
  | .consolidateSpace _ => isTrue trivial

instance (s : Fifo) : (op : Op) → Decidable (s.Spared op)
  | .dataAdd bs => inferInstanceAs (Decidable (s.buffer.NulSpares bs))
  | .commit ws n => inferInstanceAs (Decidable (s.buffer.NulSpares (ws.take n)))
  | .consume _ => isTrue trivial
  | .reset => isTrue trivial
  | .consolidateSpace _ => inferInstanceAs (Decidable (0 < _))

/-- The window lies in the block. -/
structure Placed (s : Fifo) : Prop where
  capacity : s.buffer.bufferCapacity = s.capacity
  window : s.buffer.bufferPtr + s.buffer.bufferRemaining ≤ s.capacity

private theorem new_placed (junk : ByteMemory) (capacity : ℕ) : (new junk capacity).Placed :=
  ⟨rfl, Nat.zero_le _⟩

private theorem new_isFifo (junk : ByteMemory) (capacity : ℕ) : (new junk capacity).IsFifo :=
  ⟨rfl, by simp [new, IOBuffer.spaceLen, IOBuffer.dataLen, IOBuffer.newWithCapacity],
    fun _ _ => rfl⟩

theorem Placed.holds {s : Fifo} (h : s.Placed) : s.buffer.Holds s.buffer.data :=
  ⟨(IOBuffer.length_data _).symm, by rw [IOBuffer.length_data]; rfl,
    by rw [IOBuffer.length_data, h.capacity]; exact h.window⟩

private theorem IsFifo.length_content {s : Fifo} (h : s.IsFifo) :
    s.content.length = s.buffer.bufferRemaining := by
  rw [← h.data, IOBuffer.length_data]
  rfl

/-- What is consumed and not reclaimed lies before the window. -/
theorem IsFifo.consumed_eq {s : Fifo} (h : s.IsFifo) (hp : s.Placed) :
    s.consumed = s.buffer.bufferPtr := by
  have hroom := h.room
  simp only [IOBuffer.spaceLen, IOBuffer.dataLen, hp.capacity] at hroom
  omega

/-- An allowed `IOBuffer_data_add` is a copy into the space and a commit. -/
theorem step_dataAdd {s : Fifo} {bs : List UInt8} (h : (bs.length : ℤ) ≤ s.buffer.spaceLen) :
    s.step (.dataAdd bs) = s.step (.commit bs bs.length) := by
  simp only [step, IOBuffer.dataAdd_of_le h, List.take_length]

/-! ### One operation -/

/-- A commit of what was written to the space keeps the window in the block, and the queue if its
NUL spares the data. -/
theorem commit_spec {s : Fifo} (hp : s.Placed) {ws : List UInt8} {n : ℕ}
    (h : s.Allowed (.commit ws n)) :
    ∃ s', s.step (.commit ws n) = .ok s' ∧ s'.Placed ∧
      (s.IsFifo → (s'.IsFifo ↔ s.buffer.NulSpares (ws.take n))) := by
  obtain ⟨hpos, hn, hspace⟩ := h
  have hcap := hp.capacity
  have hfit : s.buffer.bufferPtr + s.buffer.bufferRemaining + ws.length ≤
      s.buffer.bufferCapacity := by
    simp only [IOBuffer.spaceLen] at hspace
    omega
  obtain ⟨b, hcommit⟩ : ∃ b, (s.buffer.fill ws).commit n = .ok b :=
    ⟨_, IOBuffer.commit_eq_ok.mpr ⟨hpos, rfl⟩⟩
  obtain ⟨hptr, hrem, hcap'⟩ := IOBuffer.fields_of_fill_commit hcommit
  refine ⟨_, by simp only [step, hcommit]; rfl, ⟨hcap'.trans hcap, ?_⟩, fun hq => ?_⟩
  · change b.bufferPtr + b.bufferRemaining ≤ s.capacity
    omega
  · rw [← IOBuffer.data_fill_commit_iff hn hcommit, hq.data]
    refine ⟨fun h => h.data, fun hdata => ⟨hdata, ?_, fun i hi => ?_⟩⟩
    · have hroom := hq.room
      simp only [IOBuffer.spaceLen, IOBuffer.dataLen, hptr, hrem, hcap'] at hroom ⊢
      omega
    · rw [← hq.outside i hi]
      exact IOBuffer.mem_of_fill_commit hfit hn hcommit (hcap.symm ▸ hi)

/-- `IOBuffer_consume` of bytes that are there. -/
theorem consume_spec {s : Fifo} (hp : s.Placed) {n : ℕ} (hn : n ≤ s.buffer.dataLen) :
    ∃ s', s.step (.consume n) = .ok s' ∧ s'.Placed ∧ (s.IsFifo → s'.IsFifo) := by
  obtain ⟨b, hb, hholds⟩ :=
    IOBuffer.consume_spec hp.holds (n := n) (by rwa [IOBuffer.length_data])
  obtain ⟨hptr, hrem, hmem, hcap⟩ := IOBuffer.fields_of_consume hb
  have hcap' := hp.capacity
  have hwindow := hp.window
  have hn' : n ≤ s.buffer.bufferRemaining := hn
  refine ⟨_, by simp only [step, hb]; rfl, ⟨hcap.trans hcap', ?_⟩, fun hq => ⟨?_, ?_, ?_⟩⟩
  · change b.bufferPtr + b.bufferRemaining ≤ s.capacity
    rw [hptr, hrem]
    split <;> omega
  · exact hholds.data_eq.trans (by rw [hq.data])
  · -- the queue runs empty together with the window
    have hempty : s.content.drop n = [] ↔ s.buffer.bufferRemaining - n = 0 := by
      rw [List.drop_eq_nil_iff, hq.length_content]
      omega
    have hconsumed := hq.consumed_eq hp
    simp only [IOBuffer.spaceLen, IOBuffer.dataLen, hptr, hrem, hcap, hcap', hempty]
    split <;> omega
  · intro i hi
    exact (congrFun hmem i).trans (hq.outside i hi)

private theorem reset_spec {s : Fifo} (hp : s.Placed) :
    ∃ s', s.step .reset = .ok s' ∧ s'.Placed ∧ (s.IsFifo → s'.IsFifo) := by
  refine ⟨_, rfl, ⟨hp.capacity, Nat.zero_le _⟩, fun hq => ⟨rfl, ?_, hq.outside⟩⟩
  simp [IOBuffer.spaceLen, IOBuffer.dataLen, IOBuffer.reset, hp.capacity]

/-- `IOBuffer_consolidate_space` of a buffer with data. -/
theorem consolidateSpace_spec {s : Fifo} (hp : s.Placed) (junk : ByteMemory)
    (hpos : 0 < s.buffer.dataLen) :
    ∃ s', s.step (.consolidateSpace junk) = .ok s' ∧ s'.Placed ∧ (s.IsFifo → s'.IsFifo) := by
  have hcap := hp.capacity
  have hwindow := hp.window
  have hlen : s.buffer.data.length = s.buffer.bufferRemaining := IOBuffer.length_data _
  have hspace : (s.buffer.data.length : ℤ) ≤
      (IOBuffer.newWithCapacity junk s.buffer.bufferCapacity).spaceLen := by
    simp only [IOBuffer.spaceLen, IOBuffer.newWithCapacity]
    omega
  -- the new block is a queue of its own to which the data is added
  have hadds : (new junk s.buffer.bufferCapacity).Allowed
      (.commit s.buffer.data s.buffer.data.length) :=
    ⟨by rwa [IOBuffer.length_data], Nat.le_refl _, hspace⟩
  obtain ⟨s₁, hs₁, hp₁, hq₁⟩ := commit_spec (new_placed junk s.buffer.bufferCapacity) hadds
  rw [← step_dataAdd hspace] at hs₁
  simp only [step, Except.bind_eq_ok] at hs₁
  obtain ⟨b, hb, heq⟩ := hs₁
  cases heq
  have hnul : (new junk s.buffer.bufferCapacity).buffer.NulSpares
      (s.buffer.data.take s.buffer.data.length) := by
    intro _
    simp [new, IOBuffer.newWithCapacity, IOBuffer.data]
  have hq₁ := (hq₁ (new_isFifo junk _)).mpr hnul
  refine ⟨{ s with buffer := b, outside := junk, consumed := 0 }, ?_, ⟨?_, ?_⟩,
    fun hq => ⟨?_, ?_, ?_⟩⟩
  · have hb' : s.buffer.consolidateSpace junk = .ok b := hb
    simp only [step, hb']
    rfl
  · exact hp₁.capacity.trans hcap
  · exact hcap ▸ hp₁.window
  · exact hq₁.data.trans hq.data
  · exact hq₁.room.trans (congrArg _ hcap)
  · exact fun i hi => hq₁.outside i (hcap.symm ▸ hi)

/-- `IOBuffer_consolidate_space` of an empty buffer runs into the assertion of
`IOBuffer_commit`. -/
theorem consolidateSpace_empty {s : Fifo} (junk : ByteMemory) (h : s.buffer.dataLen = 0) :
    s.step (.consolidateSpace junk) = .error ⟨"IOBuffer_commit", "bytes_used > 0"⟩ := by
  have hnil : s.buffer.data = [] := List.length_eq_zero_iff.mp (by rwa [IOBuffer.length_data])
  simp only [step, IOBuffer.consolidateSpace, hnil,
    IOBuffer.dataAdd_nil (IOBuffer.newWithCapacity_holds junk _)]
  rfl

/-! ### Whole runs -/

/-- An allowed operation keeps the window in the block. -/
theorem Placed.step {s s' : Fifo} {op : Op} (h : s.Placed) (hal : s.Allowed op)
    (hs : s.step op = .ok s') : s'.Placed := by
  cases op with
  | dataAdd bs =>
    rw [step_dataAdd hal.2] at hs
    obtain ⟨_, h₁, hp, -⟩ := commit_spec h ⟨hal.1, Nat.le_refl _, hal.2⟩
    cases h₁.symm.trans hs
    exact hp
  | commit ws n =>
    obtain ⟨_, h₁, hp, -⟩ := commit_spec h hal
    cases h₁.symm.trans hs
    exact hp
  | consume n =>
    obtain ⟨_, h₁, hp, -⟩ := consume_spec h hal
    cases h₁.symm.trans hs
    exact hp
  | reset =>
    obtain ⟨_, h₁, hp, -⟩ := reset_spec h
    cases h₁.symm.trans hs
    exact hp
  | consolidateSpace junk =>
    rcases Nat.eq_zero_or_pos s.buffer.dataLen with h0 | hpos
    · cases (consolidateSpace_empty junk h0).symm.trans hs
    · obtain ⟨_, h₁, hp, -⟩ := consolidateSpace_spec h junk hpos
      cases h₁.symm.trans hs
      exact hp

/-- An allowed operation goes through and keeps the queue exactly when it is spared. -/
theorem step_isFifo_iff {s : Fifo} {op : Op} (hp : s.Placed) (hal : s.Allowed op)
    (hq : s.IsFifo) : (∃ s', s.step op = .ok s' ∧ s'.IsFifo) ↔ s.Spared op := by
  cases op with
  | dataAdd bs =>
    obtain ⟨s₁, h₁, -, hiff⟩ := commit_spec hp ⟨hal.1, Nat.le_refl _, hal.2⟩
    rw [step_dataAdd hal.2, h₁]
    simpa [Spared] using hiff hq
  | commit ws n =>
    obtain ⟨s₁, h₁, -, hiff⟩ := commit_spec hp hal
    rw [h₁]
    simpa [Spared] using hiff hq
  | consume n =>
    obtain ⟨s₁, h₁, -, hkeep⟩ := consume_spec hp hal
    exact iff_of_true ⟨s₁, h₁, hkeep hq⟩ trivial
  | reset =>
    obtain ⟨s₁, h₁, -, hkeep⟩ := reset_spec hp
    exact iff_of_true ⟨s₁, h₁, hkeep hq⟩ trivial
  | consolidateSpace junk =>
    rcases Nat.eq_zero_or_pos s.buffer.dataLen with h0 | hpos
    · refine iff_of_false ?_ h0.le.not_gt
      simp [consolidateSpace_empty junk h0]
    · obtain ⟨s₁, h₁, -, hkeep⟩ := consolidateSpace_spec hp junk hpos
      exact iff_of_true ⟨s₁, h₁, hkeep hq⟩ hpos

/-- Over any allowed operations an I/O buffer is a byte queue exactly when none of them is a commit
whose NUL falls on other data, or a consolidation of an empty buffer. -/
theorem isFifo_iff_spared (junk : ByteMemory) (capacity : ℕ) (ops : List Op)
    (hal : Machine.Along step Allowed (new junk capacity) ops) :
    ((∃ s, Machine.run step (new junk capacity) ops = .ok s) ∧
      Machine.Always step IsFifo (new junk capacity) ops) ↔
      Machine.Along step Spared (new junk capacity) ops :=
  Machine.run_ok_always_iff_along_of (fun _ _ _ h hal hs => h.step hal hs)
    (fun _ _ h hal hq => step_isFifo_iff h hal hq) (new_placed junk capacity)
    (new_isFifo junk capacity) hal

/-- Eight bytes, seven of them consumed and two more added: the NUL falls before the data, and the
space can be consolidated. -/
theorem isFifo_of_nul_ahead :
    Machine.Always step IsFifo (new (fun _ => 0) 16)
      [.dataAdd [1, 2, 3, 4, 5, 6, 7, 8], .consume 7, .commit [9, 10] 2,
        .consolidateSpace fun _ => 0] :=
  ((isFifo_iff_spared _ _ _ (by decide)).mpr (by decide)).2

/-- Three bytes of which one is consumed, then one more: the NUL falls on the last byte. And an
empty buffer cannot be consolidated. -/
theorem not_isFifo_add_consume_add :
    Machine.Along step Allowed (new (fun _ => 0) 8)
        [.dataAdd [1, 2, 3], .consume 1, .dataAdd [4]] ∧
      (¬ Machine.Always step IsFifo (new (fun _ => 0) 8)
        [.dataAdd [1, 2, 3], .consume 1, .dataAdd [4]]) ∧
      Machine.Along step Allowed (new (fun _ => 0) 8) [.consolidateSpace fun _ => 0] ∧
      Machine.run step (new (fun _ => 0) 8) [.consolidateSpace fun _ => 0] =
        .error ⟨"IOBuffer_commit", "bytes_used > 0"⟩ := by
  refine ⟨by decide, fun h => ?_, by decide, rfl⟩
  have hdata : [2, 3, 0] = [2, 3, (4 : UInt8)] := (h.last rfl).data
  exact absurd hdata (by decide)

end Fifo

end CHttp
