import CHttp.Common.IOBuffer

/-!
# Buffer chains

`buffer_chain.c`: a list of I/O buffers with its total length. Bodies are collected in one, and
`Message_serialize` builds its result in one. `BufferChain.Holds` is what a chain stands for: the
bytes of its buffers one after another.
-/

namespace CHttp

/-- `BufferChain`. The size is an `int` that each operation adjusts by itself, so nothing keeps it
from being wrong, or negative. Here it does not wrap: totals are taken to fit an `int`. -/
structure BufferChain where
  mChain : List IOBuffer
  mSize : ℤ

namespace BufferChain

/-- `BufferChain_new`. -/
def new : BufferChain := ⟨[], 0⟩

/-- `BufferChain_size`. -/
def size (this : BufferChain) : ℤ := this.mSize

/-- The capacity of the buffer that `BufferChain_append` adds for `len` bytes. -/
def requiredLen (len : ℕ) : ℕ := if len > 256 * 4 * 8 then len + 100 else 256 * 4 * 8

/-- The branch of `BufferChain_append` that adds a buffer. -/
def appendNew (junk : ByteMemory) (this : BufferChain) (bs : List UInt8) :
    Except Abort BufferChain := do
  let newIob ← (IOBuffer.newWithCapacity junk (requiredLen bs.length)).dataAdd bs
  return ⟨this.mChain ++ [newIob], this.mSize + bs.length⟩

/-- `BufferChain_append`; `junk` is the memory of the buffer it may have to add. A chain of
positive size is taken to have a last buffer. -/
def append (junk : ByteMemory) (this : BufferChain) (bs : List UInt8) :
    Except Abort BufferChain :=
  if 0 < this.mSize then
    match this.mChain.getLast? with
    | some lastIob =>
      if (bs.length : ℤ) ≤ lastIob.spaceLen then do
        let lastIob ← lastIob.dataAdd bs
        return ⟨this.mChain.dropLast ++ [lastIob], this.mSize + bs.length⟩
      else this.appendNew junk bs
    | none => .error ⟨"IOBuffer_space_len", "last_iob is NULL"⟩
  else this.appendNew junk bs

/-- `BufferChain_append_cstr` of a C string. -/
def appendCstr (junk : ByteMemory) (this : BufferChain) (cstr : List UInt8) :
    Except Abort BufferChain := this.append junk (cstr.takeWhile (· ≠ 0))

/-- `BufferChain_append_IOBuffer`. -/
def appendIOBuffer (junk : ByteMemory) (this : BufferChain) (iobuf : IOBuffer) :
    Except Abort BufferChain := this.append junk iobuf.data

/-- `BufferChain_add_back`. -/
def addBack (this : BufferChain) (iobuf : IOBuffer) : BufferChain :=
  ⟨this.mChain ++ [iobuf], this.mSize + iobuf.dataLen⟩

/-- `BufferChain_add_front`: the size becomes that of the new buffer. -/
def addFront (this : BufferChain) (iobuf : IOBuffer) : BufferChain :=
  ⟨iobuf :: this.mChain, iobuf.dataLen⟩

/-- `BufferChain_pop_front`. -/
def popFront (this : BufferChain) : Option IOBuffer × BufferChain :=
  match this.mChain with
  | [] => (none, this)
  | front :: rest => (some front, ⟨rest, this.mSize - front.dataLen⟩)

/-- `BufferChain_remove_iter`, with the iterator on the buffer of index `iter`: the size keeps its
value. -/
def removeIter (this : BufferChain) (iter : ℕ) : Except Abort BufferChain := do
  assertThat (iter < this.mChain.length) "List_itr_remove" "itr != NULL"
  return { this with mChain := this.mChain.eraseIdx iter }

/-- The loop of `BufferChain_append_bufferchain` over what is left of the other chain; `junk n` is
what the block of the `n`th copy holds. -/
def appendLoop (junk : ℕ → ByteMemory) (this : BufferChain) : List IOBuffer → BufferChain
  | [] => this
  | iob :: rest => appendLoop (fun n => junk (n + 1)) (this.addBack (iob.dup (junk 0))) rest

/-- `BufferChain_append_bufferchain` of a chain other than `this`. -/
def appendBufferchain (junk : ℕ → ByteMemory) (this other : BufferChain) : BufferChain :=
  appendLoop junk this other.mChain

/-- The loop of `BufferChain_steal_bufferchain`: the buffers left in the other chain, and its
size. -/
def stealLoop (this : BufferChain) : List IOBuffer → ℤ → BufferChain × BufferChain
  | [], size => (this, ⟨[], size⟩)
  | iob :: rest, size => stealLoop (this.addBack iob) rest (size - iob.dataLen)

/-- `BufferChain_steal_bufferchain` from a chain other than `this`: both chains afterwards. -/
def stealBufferchain (this other : BufferChain) : BufferChain × BufferChain :=
  stealLoop this other.mChain other.mSize

/-- The loop of `BufferChain_compact`. -/
def copyTo (iobFinal : IOBuffer) : List IOBuffer → Except Abort IOBuffer
  | [] => .ok iobFinal
  | tmp :: rest => do copyTo (← iobFinal.dataAdd tmp.data) rest

/-- `BufferChain_compact`. -/
def compact (junk : ByteMemory) (this : BufferChain) : Except Abort IOBuffer := do
  assertThat (0 ≤ this.size) "IOBuffer_new_with_capacity" "a block of negative size"
  copyTo (IOBuffer.newWithCapacity junk this.size.toNat) this.mChain

/-- The bytes of a chain's buffers, one after another. -/
def data (this : BufferChain) : List UInt8 := this.mChain.flatMap IOBuffer.data

/-! ### What a chain holds -/

/-- Every buffer of the chain has data, from its start on, and the size counts it all. -/
structure Valid (bc : BufferChain) : Prop where
  buffers : ∀ b ∈ bc.mChain, b.Holds b.data ∧ b.bufferPtr = 0 ∧ b.data ≠ []
  size_eq : bc.mSize = bc.data.length

theorem new_valid : new.Valid := ⟨by simp [new], rfl⟩

/-- Adding a buffer at the back. -/
theorem Valid.push {bc : BufferChain} (h : bc.Valid) {b : IOBuffer} {s : List UInt8}
    (hb : b.Holds s) (hptr : b.bufferPtr = 0) (hs : s ≠ []) :
    Valid ⟨bc.mChain ++ [b], bc.mSize + s.length⟩ ∧
      (⟨bc.mChain ++ [b], bc.mSize + s.length⟩ : BufferChain).data = bc.data ++ s := by
  have hdata : (⟨bc.mChain ++ [b], bc.mSize + s.length⟩ : BufferChain).data = bc.data ++ s := by
    simp [data, hb.data_eq]
  refine ⟨⟨fun b' hb' => ?_, ?_⟩, hdata⟩
  · rcases List.mem_append.mp hb' with hmem | hmem
    · exact h.buffers b' hmem
    · rw [List.mem_singleton.mp hmem, hb.data_eq]
      exact ⟨hb, hptr, hs⟩
  · rw [hdata, List.length_append, Int.natCast_add, ← h.size_eq]

private theorem le_requiredLen (n : ℕ) : n ≤ requiredLen n := by
  unfold requiredLen
  split <;> omega

/-- The buffer that `BufferChain_append` adds for some bytes. -/
theorem appendNew_eq (junk : ByteMemory) (bc : BufferChain) {bs : List UInt8} (hbs : bs ≠ []) :
    ∃ b : IOBuffer, bc.appendNew junk bs = .ok ⟨bc.mChain ++ [b], bc.mSize + bs.length⟩ ∧
      b.Holds bs ∧ b.bufferPtr = 0 := by
  obtain ⟨b, hb, hh, hptr, -⟩ :=
    IOBuffer.dataAdd_spec (IOBuffer.newWithCapacity_holds junk (requiredLen bs.length)) rfl hbs
      (by simpa [IOBuffer.newWithCapacity] using le_requiredLen bs.length)
  refine ⟨b, ?_, hh, hptr⟩
  simp only [appendNew, hb]
  rfl

private theorem appendNew_spec (junk : ByteMemory) {bc : BufferChain} (h : bc.Valid)
    {bs : List UInt8}
    (hbs : bs ≠ []) :
    ∃ bc', bc.appendNew junk bs = .ok bc' ∧ bc'.Valid ∧ bc'.data = bc.data ++ bs := by
  obtain ⟨b, heq, hh, hptr⟩ := appendNew_eq junk bc hbs
  obtain ⟨hv, hd⟩ := h.push hh hptr hbs
  exact ⟨_, heq, hv, hd⟩

/-- A chain is its last buffer and the chain before it. -/
theorem Valid.splitLast {bc : BufferChain} (h : bc.Valid) {last : IOBuffer}
    (hlast : bc.mChain.getLast? = some last) :
    ∃ bc₀ : BufferChain, bc₀.Valid ∧ bc₀.mChain = bc.mChain.dropLast ∧
      bc.mSize = bc₀.mSize + last.data.length ∧ bc.data = bc₀.data ++ last.data := by
  have hdata : bc.data = bc.mChain.dropLast.flatMap IOBuffer.data ++ last.data := by
    rw [data, ← List.dropLast_append_getLast? last hlast, List.flatMap_append,
      List.flatMap_singleton, List.dropLast_concat]
  refine ⟨⟨bc.mChain.dropLast, (bc.mChain.dropLast.flatMap IOBuffer.data).length⟩,
    ⟨fun b hb => ?_, rfl⟩, rfl, ?_, hdata⟩
  · exact h.buffers b ((List.dropLast_sublist _).subset hb)
  · rw [h.size_eq, hdata, List.length_append, Int.natCast_add]

/-- The ways that `BufferChain_append` goes: the last buffer takes the bytes, a new one does, or
there is no last buffer where the size says that there is one. -/
theorem append_cases (junk : ByteMemory) (bc : BufferChain) (bs : List UInt8) :
    (∃ last, 0 < bc.mSize ∧ bc.mChain.getLast? = some last ∧ (bs.length : ℤ) ≤ last.spaceLen ∧
      bc.append junk bs = (do
        let lastIob ← last.dataAdd bs
        return ⟨bc.mChain.dropLast ++ [lastIob], bc.mSize + bs.length⟩)) ∨
    bc.append junk bs = bc.appendNew junk bs ∧
      (0 < bc.mSize → ∀ last, bc.mChain.getLast? = some last → last.spaceLen < bs.length) ∨
    0 < bc.mSize ∧ bc.mChain = [] ∧
      bc.append junk bs = .error ⟨"IOBuffer_space_len", "last_iob is NULL"⟩ := by
  unfold append
  by_cases hpos : 0 < bc.mSize
  · rw [if_pos hpos]
    cases hlast : bc.mChain.getLast? with
    | none => exact Or.inr (Or.inr ⟨hpos, List.getLast?_eq_none_iff.mp hlast, rfl⟩)
    | some last =>
      by_cases hroom : (bs.length : ℤ) ≤ last.spaceLen
      · exact Or.inl ⟨last, hpos, rfl, hroom, if_pos hroom⟩
      · refine Or.inr (Or.inl ⟨if_neg hroom, fun _ last' hl => ?_⟩)
        cases hl
        exact Int.not_le.mp hroom
  · rw [if_neg hpos]
    exact Or.inr (Or.inl ⟨rfl, fun h => absurd h hpos⟩)

/-- `BufferChain_append` of some bytes. -/
theorem append_spec (junk : ByteMemory) {bc : BufferChain} (h : bc.Valid) {bs : List UInt8}
    (hbs : bs ≠ []) :
    ∃ bc', bc.append junk bs = .ok bc' ∧ bc'.Valid ∧ bc'.data = bc.data ++ bs := by
  rcases append_cases junk bc bs with ⟨last, -, hlast, hroom, heq⟩ | ⟨heq, -⟩ | ⟨hpos, hnil, -⟩
  · obtain ⟨hh, hptr, hne⟩ := h.buffers last (List.mem_of_getLast? hlast)
    have hfit : last.data.length + bs.length ≤ last.bufferCapacity := by
      simp only [IOBuffer.spaceLen, hptr, hh.remaining] at hroom
      omega
    obtain ⟨b, hb, hbh, hbp, -⟩ := IOBuffer.dataAdd_spec hh hptr hbs hfit
    -- the grown buffer goes back to the end of the chain before it
    obtain ⟨bc₀, hv₀, hchain, hsize, hdata⟩ := h.splitLast hlast
    obtain ⟨hv, hd⟩ := hv₀.push hbh hbp (by simp [hbs])
    have hgrown : (⟨bc.mChain.dropLast ++ [b], bc.mSize + bs.length⟩ : BufferChain) =
        ⟨bc₀.mChain ++ [b], bc₀.mSize + (last.data ++ bs).length⟩ := by
      rw [hchain, hsize, List.length_append, Int.natCast_add, Int.add_assoc]
    refine ⟨_, ?_, hv, ?_⟩
    · rw [heq, hb, ← hgrown]
      rfl
    · rw [hd, hdata, List.append_assoc]
  · rw [heq]
    exact appendNew_spec junk h hbs
  · rw [h.size_eq, data, hnil] at hpos
    exact absurd hpos (Int.lt_irrefl _)

theorem appendNew_nil (junk : ByteMemory) (bc : BufferChain) :
    bc.appendNew junk [] = .error ⟨"IOBuffer_commit", "bytes_used > 0"⟩ := by
  simp only [appendNew, IOBuffer.dataAdd_nil (IOBuffer.newWithCapacity_holds junk _)]
  rfl

/-- `BufferChain_append` of nothing aborts. -/
theorem append_nil (junk : ByteMemory) {bc : BufferChain} (h : bc.Valid) :
    bc.append junk [] = .error ⟨"IOBuffer_commit", "bytes_used > 0"⟩ := by
  rcases append_cases junk bc [] with ⟨last, -, hlast, -, heq⟩ | ⟨heq, -⟩ | ⟨hpos, hnil, -⟩
  · rw [heq, IOBuffer.dataAdd_nil (h.buffers last (List.mem_of_getLast? hlast)).1]
    rfl
  · rw [heq]
    exact appendNew_nil junk bc
  · rw [h.size_eq, data, hnil] at hpos
    exact absurd hpos (Int.lt_irrefl _)

/-- A `BufferChain_append` that returns has appended the bytes. -/
theorem valid_of_append {junk : ByteMemory} {bc bc' : BufferChain} (h : bc.Valid)
    {bs : List UInt8} (happ : bc.append junk bs = .ok bc') :
    bc'.Valid ∧ bc'.data = bc.data ++ bs := by
  by_cases hbs : bs = []
  · subst hbs
    rw [append_nil junk h] at happ
    cases happ
  · obtain ⟨bc₁, h₁, hv, hd⟩ := append_spec junk h hbs
    rw [happ] at h₁
    cases h₁
    exact ⟨hv, hd⟩

/-- The loop of `BufferChain_compact`, into a buffer with room for all that is left. -/
theorem copyTo_spec {bs : List IOBuffer} {b : IOBuffer} {s : List UInt8} (hb : b.Holds s)
    (hptr : b.bufferPtr = 0) (hbs : ∀ c ∈ bs, c.data ≠ [])
    (hfit : s.length + (bs.flatMap IOBuffer.data).length ≤ b.bufferCapacity) :
    ∃ b', copyTo b bs = .ok b' ∧ b'.Holds (s ++ bs.flatMap IOBuffer.data) ∧
      b'.bufferPtr = 0 := by
  induction bs generalizing b s with
  | nil => exact ⟨b, rfl, by simpa using hb, hptr⟩
  | cons c bs ih =>
    rw [List.flatMap_cons, List.length_append] at hfit
    obtain ⟨b₁, h₁, hh, hp, hc⟩ :=
      IOBuffer.dataAdd_spec hb hptr (hbs c List.mem_cons_self) (by omega)
    obtain ⟨b₂, h₂, hh₂, hp₂⟩ := ih hh hp (fun d hd => hbs d (List.mem_cons_of_mem _ hd))
      (by rw [List.length_append, hc]; omega)
    refine ⟨b₂, ?_, by rwa [List.flatMap_cons, ← List.append_assoc], hp₂⟩
    rw [copyTo, h₁]
    exact h₂

/-- The loop of `BufferChain_compact`, when it returns. -/
theorem holds_of_copyTo {bs : List IOBuffer} {b b' : IOBuffer} {s : List UInt8} (hb : b.Holds s)
    (hptr : b.bufferPtr = 0) (h : copyTo b bs = .ok b') :
    b'.Holds (s ++ bs.flatMap IOBuffer.data) := by
  induction bs generalizing b s with
  | nil =>
    cases h
    simpa using hb
  | cons c bs ih =>
    rw [copyTo, Except.bind_eq_ok] at h
    obtain ⟨b₁, h₁, h₂⟩ := h
    obtain ⟨hh, hp⟩ := IOBuffer.holds_of_dataAdd hb hptr h₁
    rw [List.flatMap_cons, ← List.append_assoc]
    exact ih hh hp h₂

/-- The loop of `BufferChain_compact` returns only if it meets no empty buffer. -/
theorem dataLen_of_copyTo {bs : List IOBuffer} {b b' : IOBuffer} (h : copyTo b bs = .ok b') :
    ∀ c ∈ bs, 0 < c.dataLen := by
  induction bs generalizing b with
  | nil => simp
  | cons c bs ih =>
    rw [copyTo, Except.bind_eq_ok] at h
    obtain ⟨b₁, h₁, h₂⟩ := h
    have hc := (IOBuffer.dataLen_of_dataAdd h₁).2
    rw [IOBuffer.length_data] at hc
    exact List.forall_mem_cons.mpr ⟨hc, ih h₂⟩

/-! ### Chains whose buffers start anywhere -/

/-- No buffer of the chain is empty, and the size counts them all. Nothing is said about where in
its block a buffer's data starts. -/
structure Sound (bc : BufferChain) : Prop where
  buffers : ∀ b ∈ bc.mChain, b.data ≠ []
  size_eq : bc.mSize = bc.data.length

theorem Valid.sound {bc : BufferChain} (h : bc.Valid) : bc.Sound :=
  ⟨fun b hb => (h.buffers b hb).2.2, h.size_eq⟩

/-- A chain built with `BufferChain_append` and with `BufferChain_add_back` of buffers that have
data. -/
inductive Built : BufferChain → Prop
  | new : Built new
  | append {bc bc' : BufferChain} (junk : ByteMemory) (bs : List UInt8) (h : Built bc)
      (happ : bc.append junk bs = .ok bc') : Built bc'
  | addBack {bc : BufferChain} (iobuf : IOBuffer) (h : Built bc) (hdata : iobuf.data ≠ []) :
      Built (bc.addBack iobuf)

/-- Adding a buffer with data at the back. -/
theorem Sound.addBack {bc : BufferChain} (h : bc.Sound) {iobuf : IOBuffer}
    (hdata : iobuf.data ≠ []) :
    (bc.addBack iobuf).Sound ∧ (bc.addBack iobuf).data = bc.data ++ iobuf.data := by
  have heq : (bc.addBack iobuf).data = bc.data ++ iobuf.data := by
    simp [BufferChain.addBack, data]
  refine ⟨⟨fun b hb => ?_, ?_⟩, heq⟩
  · rcases List.mem_append.mp hb with hmem | hmem
    · exact h.buffers b hmem
    · rw [List.mem_singleton.mp hmem]
      exact hdata
  · rw [heq, List.length_append, IOBuffer.length_data, Int.natCast_add, ← h.size_eq]
    rfl

/-- Replacing the last buffer by one with `n` bytes more. -/
theorem Sound.replaceLast {bc : BufferChain} (h : bc.Sound) {last last' : IOBuffer} {n : ℕ}
    (hlast : bc.mChain.getLast? = some last) (hlen : last'.dataLen = last.dataLen + n) :
    Sound ⟨bc.mChain.dropLast ++ [last'], bc.mSize + n⟩ := by
  have hmem : last ∈ bc.mChain := List.mem_of_getLast? hlast
  have hpos : 0 < last.dataLen := by
    rw [← IOBuffer.length_data]
    exact List.length_pos_iff.mpr (h.buffers last hmem)
  refine ⟨fun b hb => ?_, ?_⟩
  · rcases List.mem_append.mp hb with hb | hb
    · exact h.buffers b ((List.dropLast_sublist _).subset hb)
    · rw [List.mem_singleton.mp hb, ne_eq, ← List.length_eq_zero_iff, IOBuffer.length_data]
      omega
  · have hdata : bc.data = bc.mChain.dropLast.flatMap IOBuffer.data ++ last.data := by
      rw [data, ← List.dropLast_append_getLast? last hlast, List.flatMap_append,
        List.flatMap_singleton, List.dropLast_concat]
    change bc.mSize + n = ((bc.mChain.dropLast ++ [last']).flatMap IOBuffer.data).length
    rw [h.size_eq, hdata, List.flatMap_append, List.flatMap_singleton, List.length_append,
      List.length_append, IOBuffer.length_data, IOBuffer.length_data, hlen, ← Int.natCast_add,
      Nat.add_assoc]

theorem Sound.of_appendNew {bc bc' : BufferChain} (h : bc.Sound) {junk : ByteMemory}
    {bs : List UInt8} (happ : bc.appendNew junk bs = .ok bc') : bc'.Sound := by
  simp only [appendNew, Except.bind_eq_ok] at happ
  obtain ⟨b, hb, heq⟩ := happ
  cases heq
  obtain ⟨hlen, hpos⟩ := IOBuffer.dataLen_of_dataAdd hb
  have hb0 : b.dataLen = bs.length := hlen.trans (Nat.zero_add _)
  have hdata : b.data ≠ [] := by
    rw [ne_eq, ← List.length_eq_zero_iff, IOBuffer.length_data]
    omega
  have hadd := (h.addBack hdata).1
  rwa [BufferChain.addBack, hb0] at hadd

/-- A `BufferChain_append` that returns leaves a sound chain. -/
theorem Sound.of_append {bc bc' : BufferChain} (h : bc.Sound) {junk : ByteMemory}
    {bs : List UInt8} (happ : bc.append junk bs = .ok bc') : bc'.Sound := by
  rcases append_cases junk bc bs with ⟨last, -, hlast, -, heq⟩ | ⟨heq, -⟩ | ⟨-, -, heq⟩
  · rw [heq, Except.bind_eq_ok] at happ
    obtain ⟨b, hb, hbc⟩ := happ
    cases hbc
    exact h.replaceLast hlast (IOBuffer.dataLen_of_dataAdd hb).1
  · exact h.of_appendNew (heq ▸ happ)
  · rw [heq] at happ
    cases happ

theorem Built.sound {bc : BufferChain} (h : bc.Built) : bc.Sound := by
  induction h with
  | new => exact new_valid.sound
  | append junk bs _ happ ih => exact ih.of_append happ
  | addBack iobuf _ hdata ih => exact (ih.addBack hdata).1

/-- `BufferChain_compact` of a chain of buffers with data. -/
theorem Sound.compact_spec {bc : BufferChain} (h : bc.Sound) (junk : ByteMemory) :
    ∃ b, bc.compact junk = .ok b ∧ b.Holds bc.data ∧ b.bufferPtr = 0 := by
  have hsize : bc.size = (bc.data.length : ℤ) := h.size_eq
  have hroom : ([] : List UInt8).length + (bc.mChain.flatMap IOBuffer.data).length ≤
      (IOBuffer.newWithCapacity junk bc.size.toNat).bufferCapacity := by
    rw [List.length_nil, Nat.zero_add, hsize, Int.toNat_natCast]
    exact Nat.le_refl _
  have hcopy :=
    copyTo_spec (IOBuffer.newWithCapacity_holds junk bc.size.toNat) rfl h.buffers hroom
  rw [List.nil_append] at hcopy
  have hpos : 0 ≤ bc.size := by
    rw [hsize]
    exact Int.natCast_nonneg _
  rw [compact, decide_eq_true hpos, assertThat_true, Except.ok_bind]
  exact hcopy

/-- A `BufferChain_compact` that returns has all bytes in its buffer, whatever chain it was
given. -/
theorem holds_of_compact {bc : BufferChain} {junk : ByteMemory} {b : IOBuffer}
    (h : bc.compact junk = .ok b) : b.Holds bc.data := by
  rw [compact, Except.bind_eq_ok] at h
  obtain ⟨⟨⟩, -, hcopy⟩ := h
  have hholds := holds_of_copyTo (IOBuffer.newWithCapacity_holds junk bc.size.toNat) rfl hcopy
  rwa [List.nil_append] at hholds

end BufferChain

end CHttp
