import CHttp.Abort
import CHttp.ForMathlib.ByteMemory
import CHttp.ForMathlib.Except

/-!
# I/O buffers

`iobuffer.c`: a block of fixed capacity with a window `[buffer_ptr, buffer_ptr +
buffer_remaining)` of data that was committed and not consumed. `IOBuffer.Holds` is the
description the other modules use: which bytes the window shows, and that it lies inside the
block. `IOBuffer_commit` writes its NUL at `buffer_remaining` counted from the start of the
block, not of the window, which is harmless as long as the window starts the block; `dataAdd`
is described for such buffers only.
-/

namespace CHttp

/-- `IOBuffer`; `bufferPtr` is the offset of `buffer_ptr` from `mem_p`. The capacity and the count
are `int`s in the source, and lengths are taken to fit one. -/
structure IOBuffer where
  mem : ByteMemory
  bufferCapacity : ℕ
  bufferPtr : ℕ
  bufferRemaining : ℕ

namespace IOBuffer

/-- `IOBuffer_new_with_capacity`; `junk` is what the allocated memory holds. -/
def newWithCapacity (junk : ByteMemory) (capacity : ℕ) : IOBuffer where
  mem := junk
  bufferCapacity := capacity
  bufferPtr := 0
  bufferRemaining := 0

/-- `IOBuffer_data_len`. -/
def dataLen (this : IOBuffer) : ℕ := this.bufferRemaining

/-- `IOBuffer_data`, read up to `IOBuffer_data_len`. -/
def data (this : IOBuffer) : List UInt8 := this.mem.read this.bufferPtr this.bufferRemaining

/-- `IOBuffer_space_len`. -/
def spaceLen (this : IOBuffer) : ℤ :=
  (this.bufferCapacity : ℤ) - (this.bufferPtr + this.bufferRemaining)

/-- `IOBuffer_commit`. -/
def commit (this : IOBuffer) (bytesUsed : ℕ) : Except Abort IOBuffer := do
  assertThat (0 < bytesUsed) "IOBuffer_commit" "bytes_used > 0"
  let remaining := this.bufferRemaining + bytesUsed
  return { this with bufferRemaining := remaining, mem := this.mem.put remaining 0 }

/-- Bytes written to `IOBuffer_space`, by `memcpy` or `recv`, and not yet committed. -/
def fill (this : IOBuffer) (bs : List UInt8) : IOBuffer :=
  { this with mem := this.mem.blit (this.bufferPtr + this.bufferRemaining) bs }

/-- `IOBuffer_from_buf`. -/
def fromBuf (junk : ByteMemory) (buf : List UInt8) : Except Abort IOBuffer :=
  ((newWithCapacity junk (buf.length * 2)).fill buf).commit buf.length

/-- `IOBuffer_data_add`. -/
def dataAdd (this : IOBuffer) (bs : List UInt8) : Except Abort IOBuffer := do
  assertThat (bs.length ≤ this.spaceLen) "IOBuffer_data_add" "mem_len >= len"
  (this.fill bs).commit bs.length

/-- `IOBuffer_consume`. -/
def consume (this : IOBuffer) (byteCount : ℕ) : Except Abort IOBuffer := do
  let ptr := this.bufferPtr + byteCount
  assertThat (ptr ≤ this.bufferCapacity) "IOBuffer_consume"
    "this->buffer_ptr <= (this->mem_p + this->buffer_capacity)"
  assertThat (byteCount ≤ this.bufferRemaining) "IOBuffer_consume"
    "this->buffer_remaining >= 0"
  let remaining := this.bufferRemaining - byteCount
  return { this with
    bufferPtr := if remaining = 0 then 0 else ptr
    bufferRemaining := remaining }

/-- `IOBuffer_reset`. -/
def reset (this : IOBuffer) : IOBuffer := { this with bufferPtr := 0, bufferRemaining := 0 }

/-- `IOBuffer_consolidate_space`: the data goes to a new block, at its start; `junk` is what that
block holds. -/
def consolidateSpace (junk : ByteMemory) (this : IOBuffer) : Except Abort IOBuffer :=
  (newWithCapacity junk this.bufferCapacity).dataAdd this.data

/-- `IOBuffer_dup`: the whole block is copied to a new one, and the window is at the same place. -/
def dup (junk : ByteMemory) (this : IOBuffer) : IOBuffer where
  mem := junk.blit 0 (this.mem.read 0 (this.bufferCapacity + 1))
  bufferCapacity := this.bufferCapacity
  bufferPtr := this.bufferPtr
  bufferRemaining := this.bufferRemaining

/-! ### What a buffer holds -/

/-- The window shows `s` and lies inside the block. -/
structure Holds (this : IOBuffer) (s : List UInt8) : Prop where
  remaining : this.bufferRemaining = s.length
  read : this.mem.read this.bufferPtr s.length = s
  le_capacity : this.bufferPtr + s.length ≤ this.bufferCapacity

theorem Holds.data_eq {b : IOBuffer} {s : List UInt8} (h : b.Holds s) : b.data = s := by
  rw [data, h.remaining, h.read]

@[simp]
theorem length_data (b : IOBuffer) : b.data.length = b.dataLen := by
  simp [data, dataLen]

/-- An `IOBuffer_data_add` that returns has counted the bytes, wherever the window starts. -/
theorem dataLen_of_dataAdd {b b' : IOBuffer} {bs : List UInt8} (h : b.dataAdd bs = .ok b') :
    b'.dataLen = b.dataLen + bs.length ∧ 0 < bs.length := by
  by_cases hspace : (bs.length : ℤ) ≤ b.spaceLen
  · by_cases hpos : 0 < bs.length
    · simp only [dataAdd, hspace, decide_true, assertThat_true, commit, hpos] at h
      cases h
      exact ⟨rfl, hpos⟩
    · simp only [dataAdd, hspace, decide_true, assertThat_true, commit, hpos, decide_false,
        assertThat_false] at h
      cases h
  · simp only [dataAdd, hspace, decide_false, assertThat_false] at h
    cases h

theorem newWithCapacity_holds (junk : ByteMemory) (capacity : ℕ) :
    (newWithCapacity junk capacity).Holds [] :=
  ⟨rfl, rfl, Nat.zero_le _⟩

theorem reset_holds (b : IOBuffer) : b.reset.Holds [] := ⟨rfl, rfl, Nat.zero_le _⟩

/-- Inside the block a copy cannot be told from its original. -/
theorem dup_mem (junk : ByteMemory) (b : IOBuffer) {i : ℕ} (hi : i ≤ b.bufferCapacity) :
    (b.dup junk).mem i = b.mem i := by
  simp only [dup, ByteMemory.blit, Nat.zero_le, true_and, ByteMemory.length_read, Nat.zero_add,
    Nat.sub_zero]
  rw [if_pos (Nat.lt_succ_of_le hi), ByteMemory.getD_read _ _ (Nat.lt_succ_of_le hi),
    Nat.zero_add]

theorem dup_dataLen (junk : ByteMemory) (b : IOBuffer) : (b.dup junk).dataLen = b.dataLen := rfl

/-- A copy holds what its original holds. -/
theorem Holds.dup {b : IOBuffer} {s : List UInt8} (h : b.Holds s) (junk : ByteMemory) :
    (b.dup junk).Holds s := by
  refine ⟨h.remaining, ?_, h.le_capacity⟩
  refine Eq.trans (ByteMemory.read_congr fun i _ hi => ?_) h.read
  exact b.dup_mem junk (Nat.le_of_lt (Nat.lt_of_lt_of_le hi h.le_capacity))

/-- Filling and committing bytes that fit, in a buffer whose window starts the block. -/
theorem fill_commit_spec {b : IOBuffer} {s bs : List UInt8} (h : b.Holds s)
    (hptr : b.bufferPtr = 0) (hbs : bs ≠ []) (hfit : s.length + bs.length ≤ b.bufferCapacity) :
    ∃ b', (b.fill bs).commit bs.length = .ok b' ∧ b'.Holds (s ++ bs) ∧ b'.bufferPtr = 0 ∧
      b'.bufferCapacity = b.bufferCapacity := by
  have hpos : 0 < bs.length := List.length_pos_iff.mpr hbs
  refine ⟨{ b with
    bufferRemaining := b.bufferRemaining + bs.length
    mem := (b.mem.blit (b.bufferPtr + b.bufferRemaining) bs).put
      (b.bufferRemaining + bs.length) 0 }, ?_, ⟨?_, ?_, ?_⟩, hptr, rfl⟩
  · simp only [fill, commit, hpos, decide_true, assertThat_true]
    rfl
  · simp [h.remaining]
  · have hread := h.read
    rw [hptr] at hread
    rw [ByteMemory.read_put_of_notMem _ (by simp [h.remaining, hptr]), h.remaining, hptr,
      List.length_append, ByteMemory.read_blit_append, hread]
  · simpa [hptr] using hfit

/-- `IOBuffer_data_add` of bytes that fit. -/
theorem dataAdd_spec {b : IOBuffer} {s bs : List UInt8} (h : b.Holds s)
    (hptr : b.bufferPtr = 0) (hbs : bs ≠ []) (hfit : s.length + bs.length ≤ b.bufferCapacity) :
    ∃ b', b.dataAdd bs = .ok b' ∧ b'.Holds (s ++ bs) ∧ b'.bufferPtr = 0 ∧
      b'.bufferCapacity = b.bufferCapacity := by
  have hspace : (bs.length : ℤ) ≤ b.spaceLen := by
    have := h.remaining
    simp only [spaceLen, hptr, this]
    omega
  obtain ⟨b', hb', hrest⟩ := fill_commit_spec h hptr hbs hfit
  refine ⟨b', ?_, hrest⟩
  simp only [dataAdd, hspace, decide_true, assertThat_true]
  exact hb'

/-- An `IOBuffer_data_add` that returns has added the bytes. -/
theorem holds_of_dataAdd {b b' : IOBuffer} {s bs : List UInt8} (h : b.Holds s)
    (hptr : b.bufferPtr = 0) (hadd : b.dataAdd bs = .ok b') :
    b'.Holds (s ++ bs) ∧ b'.bufferPtr = 0 := by
  by_cases hspace : (bs.length : ℤ) ≤ b.spaceLen
  · by_cases hbs : bs = []
    · subst hbs
      simp only [dataAdd, hspace, decide_true, assertThat_true] at hadd
      cases hadd
    · have hfit : s.length + bs.length ≤ b.bufferCapacity := by
        have := h.remaining
        simp only [spaceLen, hptr, this] at hspace
        omega
      obtain ⟨b₁, h₁, hh, hp, -⟩ := dataAdd_spec h hptr hbs hfit
      rw [hadd] at h₁
      cases h₁
      exact ⟨hh, hp⟩
  · simp only [dataAdd, hspace, decide_false, assertThat_false] at hadd
    cases hadd

/-- `IOBuffer_data_add` of nothing runs into the assertion of `IOBuffer_commit`. -/
theorem dataAdd_nil {b : IOBuffer} {s : List UInt8} (h : b.Holds s) :
    b.dataAdd [] = .error ⟨"IOBuffer_commit", "bytes_used > 0"⟩ := by
  have hspace : ((([] : List UInt8).length : ℕ) : ℤ) ≤ b.spaceLen := by
    have h1 := h.remaining
    have h2 := h.le_capacity
    simp only [spaceLen, List.length_nil]
    omega
  simp only [dataAdd, hspace, decide_true, assertThat_true]
  rfl

/-- What an `IOBuffer_consume` that returns does to the fields. -/
theorem fields_of_consume {b b' : IOBuffer} {n : ℕ} (h : b.consume n = .ok b') :
    b'.bufferPtr = (if b.bufferRemaining - n = 0 then 0 else b.bufferPtr + n) ∧
      b'.bufferRemaining = b.bufferRemaining - n ∧ b'.mem = b.mem ∧
      b'.bufferCapacity = b.bufferCapacity := by
  simp only [consume, Except.bind_eq_ok] at h
  obtain ⟨⟨⟩, -, ⟨⟩, -, heq⟩ := h
  cases heq
  exact ⟨rfl, rfl, rfl, rfl⟩

/-- `IOBuffer_consume` drops the first bytes of the window. -/
theorem consume_spec {b : IOBuffer} {s : List UInt8} (h : b.Holds s) {n : ℕ}
    (hn : n ≤ s.length) :
    ∃ b', b.consume n = .ok b' ∧ b'.Holds (s.drop n) := by
  have hrem := h.remaining
  have hle := h.le_capacity
  have h1 : b.bufferPtr + n ≤ b.bufferCapacity := by omega
  have h2 : n ≤ b.bufferRemaining := by omega
  refine ⟨{ b with
    bufferPtr := if b.bufferRemaining - n = 0 then 0 else b.bufferPtr + n
    bufferRemaining := b.bufferRemaining - n }, ?_, ⟨?_, ?_, ?_⟩⟩
  · simp only [consume, h1, h2, decide_true, assertThat_true]
    rfl
  · simp [hrem]
  · -- an emptied window goes back to the start of the block, where it reads nothing as well
    change b.mem.read (if b.bufferRemaining - n = 0 then 0 else b.bufferPtr + n) _ = _
    rw [List.length_drop]
    split
    · rename_i h0
      have : s.length - n = 0 := by omega
      rw [this, List.drop_eq_nil_of_le (by omega)]
      rfl
    · have hsplit := b.mem.read_add b.bufferPtr n (s.length - n)
      rw [Nat.add_sub_cancel' hn, h.read] at hsplit
      conv_rhs => rw [hsplit]
      exact (List.drop_left' (ByteMemory.length_read _ _ _)).symm
  · change (if b.bufferRemaining - n = 0 then 0 else b.bufferPtr + n) + _ ≤ b.bufferCapacity
    rw [List.length_drop]
    split <;> omega

end IOBuffer

end CHttp
