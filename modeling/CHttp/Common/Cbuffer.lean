import CHttp.Abort
import CHttp.ForMathlib.ByteMemory
import CHttp.ForMathlib.Except

/-!
# Contiguous buffers

`cbuffer.c`: the growing byte buffer in which the parser collects a url, a reason phrase and the
two halves of a header line. Its memory is not initialised when it is allocated, `Cbuffer_clear`
resets the length but not `m_size`, and `Cbuffer_cstr` insists on a NUL at `m_size`; so what a
buffer holds is said by a relation, `Cbuffer.Holds`, and each operation is described by what it
does to the bytes held.
-/

namespace CHttp

/-- `Cbuffer`. -/
structure Cbuffer where
  mem : ByteMemory
  mLength : ℕ
  mCapacity : ℕ
  mSize : ℕ

namespace Cbuffer

/-- `m_min_size` of `common_strategy`. -/
def minSize : ℕ := 256

/-- `m_max_size` of `common_strategy`. -/
def maxSize : ℕ := 1024 * 1024

/-- `BufferStrategy_reallocate_size`. -/
def reallocateSize (currentCapacity requestedNewSize : ℕ) : Except Abort ℕ := do
  assertThat (requestedNewSize ≤ maxSize) "BufferStrategy_reallocate_size" "0"
  return max requestedNewSize (min maxSize (2 * currentCapacity))

/-- `Cbuffer_new`; `junk` is what the allocated memory holds. -/
def new (junk : ByteMemory) : Cbuffer where
  mem := junk
  mLength := 0
  mCapacity := minSize
  mSize := 0

/-- `Cbuffer_size`. -/
def size (cbuf : Cbuffer) : ℕ := cbuf.mLength

/-- `Cbuffer_data`, read up to `Cbuffer_size`. -/
def data (cbuf : Cbuffer) : List UInt8 := cbuf.mem.read 0 cbuf.mLength

/-- `Cbuffer_cstr`, read as a C string. The asserted NUL ends it at `m_size` at the latest. -/
def cstr (cbuf : Cbuffer) : Except Abort (List UInt8) := do
  assertThat (cbuf.mem cbuf.mSize = 0) "Cbuffer_cstr" "this->m_cPtr[this->m_size] == '\\0'"
  return cbuf.mem.cstr cbuf.mSize

/-- `Cbuffer_clear`: `m_size` keeps its value. -/
def clear (cbuf : Cbuffer) : Cbuffer := { cbuf with mem := cbuf.mem.put 0 0, mLength := 0 }

/-- The capacity for a length `len`: grown by the strategy when `len` reaches the present
one. -/
def growTo (cbuf : Cbuffer) (len : ℕ) : Except Abort ℕ :=
  if len ≥ cbuf.mCapacity then reallocateSize cbuf.mCapacity len else .ok cbuf.mCapacity

/-- `Cbuffer_append`. `realloc` keeps what was written. The NUL goes to `m_size`, which is one
past the block when the new length is the capacity. This memory goes on after the block, so that
the NUL does no harm here and is found again; `Cbuffer.Slot` has memory that ends. -/
def append (cbuf : Cbuffer) (bs : List UInt8) : Except Abort Cbuffer :=
  if bs.length = 0 then .ok cbuf
  else do
    let len := cbuf.mLength + bs.length
    let capacity ← cbuf.growTo len
    return { mem := (cbuf.mem.blit cbuf.mLength bs).put len 0, mLength := len,
             mCapacity := capacity, mSize := len }

/-- `Cbuffer_append_cstr`: the bytes up to the first NUL. -/
def appendCstr (cbuf : Cbuffer) (s : List UInt8) : Except Abort Cbuffer :=
  cbuf.append (s.takeWhile (· ≠ 0))

/-- `Cbuffer_move`: the destination and the source afterwards. The two buffers change places, both
emptied of what the destination had. -/
def move (dest src : Cbuffer) : Cbuffer × Cbuffer := (src, dest.clear.clear)

/-! ### What a buffer holds -/

/-- The buffer holds the bytes `s`: they are the first `m_length` bytes, and within the limit
of the allocation strategy. -/
structure Holds (cbuf : Cbuffer) (s : List UInt8) : Prop where
  mLength : cbuf.mLength = s.length
  read : cbuf.mem.read 0 s.length = s
  capacity_le : cbuf.mCapacity ≤ maxSize
  length_le : s.length ≤ maxSize

/-- The buffer holds `s` and a NUL stands where `Cbuffer_cstr` looks for it, and right after
the bytes held. A buffer that was cleared or appended to is in this state, a fresh one need not
be. -/
structure HoldsCstr (cbuf : Cbuffer) (s : List UInt8) : Prop extends cbuf.Holds s where
  nul_size : cbuf.mem cbuf.mSize = 0
  nul_length : cbuf.mem s.length = 0
  length_le_size : s.length ≤ cbuf.mSize

/-- The bytes after an append, when the strategy allows them. -/
def appendBytes (s bs : List UInt8) : Except Abort (List UInt8) :=
  if bs = [] then .ok s
  else if s.length + bs.length ≤ maxSize then .ok (s ++ bs)
  else .error ⟨"BufferStrategy_reallocate_size", "0"⟩

/-- A piece that fits. -/
theorem appendBytes_ok {s p : List UInt8} (h : (s ++ p).length ≤ maxSize) :
    appendBytes s p = .ok (s ++ p) := by
  unfold appendBytes
  split
  · next hp => rw [hp, List.append_nil]
  · rw [if_pos (by rwa [List.length_append] at h)]

/-- A piece that goes past the limit. -/
theorem appendBytes_error {s p : List UInt8} (hs : s.length ≤ maxSize)
    (h : ¬ (s ++ p).length ≤ maxSize) :
    appendBytes s p = .error ⟨"BufferStrategy_reallocate_size", "0"⟩ := by
  have hp : p ≠ [] := by
    rintro rfl
    exact h (by simpa using hs)
  rw [appendBytes, if_neg hp, if_neg (by rwa [List.length_append] at h)]

theorem new_holds (junk : ByteMemory) : (new junk).Holds [] :=
  ⟨rfl, rfl, show minSize ≤ maxSize by decide, Nat.zero_le _⟩

theorem Holds.data_eq {cbuf : Cbuffer} {s : List UInt8} (h : cbuf.Holds s) : cbuf.data = s := by
  rw [data, h.mLength, h.read]

theorem Holds.size_eq {cbuf : Cbuffer} {s : List UInt8} (h : cbuf.Holds s) :
    cbuf.size = s.length := h.mLength

/-- Clearing leaves the empty string, with its NUL. -/
theorem HoldsCstr.clear {cbuf : Cbuffer} {s : List UInt8} (h : cbuf.HoldsCstr s) :
    cbuf.clear.HoldsCstr [] := by
  refine ⟨⟨rfl, rfl, h.capacity_le, Nat.zero_le _⟩, ?_, by simp [Cbuffer.clear], Nat.zero_le _⟩
  -- `m_size` is not reset: the NUL found there is the one written by the last append
  rcases Nat.eq_zero_or_pos cbuf.mSize with h0 | hpos
  · simp [Cbuffer.clear, h0]
  · change cbuf.mem.put 0 0 cbuf.mSize = 0
    rw [ByteMemory.put_of_ne _ _ hpos.ne', h.nul_size]

theorem new_clear_holdsCstr (junk : ByteMemory) : (new junk).clear.HoldsCstr [] := by
  refine ⟨⟨rfl, rfl, show minSize ≤ maxSize by decide, Nat.zero_le _⟩, ?_, ?_, Nat.zero_le _⟩
  · simp [Cbuffer.clear, new]
  · simp [Cbuffer.clear]

/-- Within the limit the buffer grows, and never past the limit. -/
theorem growTo_ok {cbuf : Cbuffer} {len : ℕ} (hcap : cbuf.mCapacity ≤ maxSize)
    (hlen : len ≤ maxSize) : ∃ capacity, cbuf.growTo len = .ok capacity ∧ capacity ≤ maxSize := by
  unfold growTo
  split
  · refine ⟨max len (min maxSize (2 * cbuf.mCapacity)), ?_, max_le hlen (min_le_left _ _)⟩
    simp only [reallocateSize, hlen, decide_true, assertThat_true]
    rfl
  · exact ⟨_, rfl, hcap⟩

/-- Past the limit the strategy asserts. -/
theorem growTo_error {cbuf : Cbuffer} {len : ℕ} (hcap : cbuf.mCapacity ≤ maxSize)
    (hlen : ¬ len ≤ maxSize) :
    cbuf.growTo len = .error ⟨"BufferStrategy_reallocate_size", "0"⟩ := by
  have hge : len ≥ cbuf.mCapacity := by omega
  simp only [growTo, hge, if_true, reallocateSize, hlen, decide_false, assertThat_false]
  rfl

/-- A non-empty append within the limit writes the bytes and their NUL. -/
theorem append_holdsCstr {cbuf : Cbuffer} {s bs : List UInt8} (h : cbuf.Holds s) (hbs : bs ≠ [])
    (hfit : s.length + bs.length ≤ maxSize) :
    ∃ cbuf', cbuf.append bs = .ok cbuf' ∧ cbuf'.HoldsCstr (s ++ bs) := by
  have hne : bs.length ≠ 0 := fun h0 => hbs (List.length_eq_zero_iff.mp h0)
  obtain ⟨capacity, hcap, hle⟩ := growTo_ok h.capacity_le (h.mLength.symm ▸ hfit)
  refine ⟨⟨(cbuf.mem.blit cbuf.mLength bs).put (cbuf.mLength + bs.length) 0,
    cbuf.mLength + bs.length, capacity, cbuf.mLength + bs.length⟩, ?_, ?_⟩
  · simp only [append, hne, if_false, hcap]
    rfl
  · refine ⟨⟨?_, ?_, hle, ?_⟩, ?_, ?_, ?_⟩
    · simp [h.mLength]
    · rw [ByteMemory.read_put_of_notMem _ (by simp [h.mLength]), h.mLength, List.length_append]
      have := cbuf.mem.read_blit_append 0 s.length bs
      rwa [Nat.zero_add, h.read] at this
    · simpa using hfit
    · simp
    · simp [h.mLength]
    · simp [h.mLength]

/-- What an append does: nothing to do, the bytes fit, or the strategy asserts. -/
theorem Holds.append_cases {cbuf : Cbuffer} {s : List UInt8} (h : cbuf.Holds s)
    (bs : List UInt8) :
    cbuf.append bs = .ok cbuf ∧ appendBytes s bs = .ok s ∨
      (∃ cbuf', cbuf.append bs = .ok cbuf' ∧ appendBytes s bs = .ok (s ++ bs) ∧
        cbuf'.HoldsCstr (s ++ bs)) ∨
      ∃ e, cbuf.append bs = .error e ∧ appendBytes s bs = .error e := by
  by_cases hbs : bs = []
  · exact Or.inl ⟨by simp [append, hbs], by simp [appendBytes, hbs]⟩
  · by_cases hfit : s.length + bs.length ≤ maxSize
    · obtain ⟨cbuf', heq, hh⟩ := append_holdsCstr h hbs hfit
      exact Or.inr (Or.inl ⟨cbuf', heq, by simp [appendBytes, hbs, hfit], hh⟩)
    · refine Or.inr (Or.inr ⟨⟨"BufferStrategy_reallocate_size", "0"⟩, ?_, ?_⟩)
      · have hne : bs.length ≠ 0 := fun h0 => hbs (List.length_eq_zero_iff.mp h0)
        simp only [append, hne, if_false, growTo_error h.capacity_le (h.mLength.symm ▸ hfit)]
        rfl
      · simp [appendBytes, hbs, hfit]

/-- `Cbuffer_append` on a buffer with its NUL in place. -/
theorem HoldsCstr.append_rel {cbuf : Cbuffer} {s : List UInt8} (h : cbuf.HoldsCstr s)
    (bs : List UInt8) : Except.Rel HoldsCstr (cbuf.append bs) (appendBytes s bs) := by
  rcases h.toHolds.append_cases bs with ⟨h1, h2⟩ | ⟨cbuf', h1, h2, hh⟩ | ⟨e, h1, h2⟩
  · exact h1 ▸ h2 ▸ Except.Rel.ok h
  · exact h1 ▸ h2 ▸ Except.Rel.ok hh
  · exact h1 ▸ h2 ▸ Except.Rel.error e

/-- `Cbuffer_append` on any buffer. -/
theorem Holds.append_rel {cbuf : Cbuffer} {s : List UInt8} (h : cbuf.Holds s)
    (bs : List UInt8) : Except.Rel Holds (cbuf.append bs) (appendBytes s bs) := by
  rcases h.append_cases bs with ⟨h1, h2⟩ | ⟨cbuf', h1, h2, hh⟩ | ⟨e, h1, h2⟩
  · exact h1 ▸ h2 ▸ Except.Rel.ok h
  · exact h1 ▸ h2 ▸ Except.Rel.ok hh.toHolds
  · exact h1 ▸ h2 ▸ Except.Rel.error e

/-- `Cbuffer_cstr` gives the bytes held up to the first NUL among them. -/
theorem HoldsCstr.cstr_eq {cbuf : Cbuffer} {s : List UInt8} (h : cbuf.HoldsCstr s) :
    cbuf.cstr = .ok (s.takeWhile (· ≠ 0)) := by
  simp only [cstr, h.nul_size, decide_true, assertThat_true]
  rw [ByteMemory.cstr_eq_takeWhile _ h.nul_length h.length_le_size, h.read]
  rfl

/-! ### Texts -/

/-- A text buffer of a message: nothing has been put in it yet, or it holds a C string that is
not empty and ends inside the block or on the byte after it. -/
def Text (cbuf : Cbuffer) : Prop :=
  cbuf.Holds [] ∨ ∃ s, s ≠ [] ∧ 0 ∉ s ∧ cbuf.HoldsCstr s ∧ s.length ≤ cbuf.mCapacity

private theorem le_of_growTo {cbuf : Cbuffer} {len capacity : ℕ}
    (h : cbuf.growTo len = .ok capacity) :
    len ≤ capacity := by
  unfold growTo at h
  split at h
  · simp only [reallocateSize, Except.bind_eq_ok] at h
    obtain ⟨-, -, h⟩ := h
    cases h
    exact le_max_left _ _
  · cases h
    omega

/-- `Cbuffer_append_cstr` into an empty text buffer. -/
theorem Text.of_appendCstr {cbuf cbuf' : Cbuffer} (h : cbuf.Holds []) {s : List UInt8}
    (happ : cbuf.appendCstr s = .ok cbuf') : cbuf'.Text := by
  rw [appendCstr] at happ
  have hnul : 0 ∉ s.takeWhile (· ≠ 0) := fun h0 => by simpa using List.mem_takeWhile_imp h0
  generalize s.takeWhile (· ≠ 0) = t at happ hnul
  by_cases ht : t = []
  · simp only [append, ht, List.length_nil, if_true] at happ
    cases happ
    exact Or.inl h
  · rcases h.append_cases t with ⟨h1, h2⟩ | ⟨c, h1, -, hc⟩ | ⟨e, h1, -⟩
    · simp [appendBytes, ht] at h2
      split at h2 <;> cases h2
      exact absurd rfl ht
    · cases h1.symm.trans happ
      refine Or.inr ⟨t, ht, hnul, by simpa using hc, ?_⟩
      have hne : t.length ≠ 0 := fun h0 => ht (List.length_eq_zero_iff.mp h0)
      simp only [append, hne, if_false, Except.bind_eq_ok] at happ
      obtain ⟨capacity, hcap, heq⟩ := happ
      cases heq
      exact (Nat.le_add_left _ _).trans (le_of_growTo hcap)
    · cases h1.symm.trans happ

/-- A copy of a C string has the same text, if it has one. -/
theorem eq_of_copy {junk : ByteMemory} {copy : Cbuffer} {s t : List UInt8} (h0 : 0 ∉ s)
    (happ : (new junk).appendCstr s = .ok copy) (ht : copy.cstr = .ok t) : s = t := by
  have hs : s.takeWhile (· ≠ 0) = s := by
    rw [List.takeWhile_eq_self_iff]
    exact fun b hb => by simpa using fun h : b = 0 => h0 (h ▸ hb)
  rw [appendCstr, hs] at happ
  by_cases hne : s = []
  · simp only [append, hne, List.length_nil, if_true] at happ
    cases happ
    simp only [cstr, Except.bind_eq_ok] at ht
    obtain ⟨-, -, heq⟩ := ht
    cases heq
    exact hne
  · rcases (new_holds junk).append_cases s with ⟨h1, h2⟩ | ⟨c, h1, -, hc⟩ | ⟨e, h1, -⟩
    · simp only [appendBytes, if_neg hne, List.length_nil, List.nil_append] at h2
      split at h2 <;> cases h2
      exact absurd rfl hne
    · cases h1.symm.trans happ
      rw [hc.cstr_eq, List.nil_append, hs] at ht
      exact Except.ok.inj ht
    · cases h1.symm.trans happ

/-- A text buffer with something in it. -/
theorem Text.holdsCstr {cbuf : Cbuffer} (h : cbuf.Text) (hne : cbuf.data ≠ []) :
    cbuf.HoldsCstr cbuf.data ∧ 0 ∉ cbuf.data ∧ cbuf.data.length ≤ cbuf.mCapacity := by
  rcases h with h | ⟨s, -, h0, hs, hcap⟩
  · exact absurd h.data_eq hne
  · rw [hs.data_eq]
    exact ⟨hs, h0, hcap⟩

end Cbuffer

end CHttp
