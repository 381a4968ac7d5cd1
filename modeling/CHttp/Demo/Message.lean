import CHttp.Common.BufferChain

/-!
# Demo messages

`demo_message.c`: the message of the demo protocol and its frame, `SOH`, an opcode, `STX`, the body,
`ETX`, a check byte that is always `'L'`, and `EOT`.
-/

namespace CHttp

/-- `DemoMessage`; `opcode` says whether it is a request. -/
structure DemoMessage where
  opcode : Bool
  lrc : UInt8
  body : BufferChain

/-- What the memory that demo messages and their bodies are allocated in happens to hold. -/
structure DemoHeap where
  lrc : UInt8
  body : ByteMemory

namespace DemoMessage

/-- `CH_SOH`. -/
def chSoh : UInt8 := 0x01

/-- `CH_STX`. -/
def chStx : UInt8 := 0x02

/-- `CH_ETX`. -/
def chEtx : UInt8 := 0x03

/-- `CH_EOT`. -/
def chEot : UInt8 := 0x04

/-- `demo_message_new`; the check byte is not set. -/
def new (heap : DemoHeap) : DemoMessage := ⟨false, heap.lrc, BufferChain.new⟩

/-- `demo_message_set_is_request`. -/
def setIsRequest (this : DemoMessage) (yn : Bool) : DemoMessage := { this with opcode := yn }

/-- `demo_message_set_lrc`. -/
def setLrc (this : DemoMessage) (lrc : UInt8) : DemoMessage := { this with lrc := lrc }

/-- `demo_message_set_body`. -/
def setBody (this : DemoMessage) (bc : BufferChain) : DemoMessage := { this with body := bc }

/-- The opcode of a frame: `'Q'` or `'R'`. -/
def opcodeByte (isRequest : Bool) : UInt8 := if isRequest then 81 else 82

/-- `demo_message_serialize`; `junk` is the memory of its buffers. -/
def serialize (junk : ByteMemory) (mref : DemoMessage) : Except Abort IOBuffer := do
  let b ← IOBuffer.fromBuf junk [chSoh, opcodeByte mref.opcode, chStx]
  let bc ← BufferChain.new.appendIOBuffer junk b
  let bc := bc.appendBufferchain (fun _ => junk) mref.body
  let bc ← bc.append junk [chEtx, 76, chEot]
  bc.compact junk

/-- The frame of a message with these contents. -/
def frame (isRequest : Bool) (body : List UInt8) : List UInt8 :=
  [chSoh, opcodeByte isRequest, chStx] ++ body ++ [chEtx, 76, chEot]

end DemoMessage

/-! ### The frame of a message -/

namespace BufferChain

/-- Copies of the buffers of a valid chain make a valid chain longer. -/
theorem Valid.appendLoop {bs : List IOBuffer} {bc : BufferChain} (h : bc.Valid)
    (hbs : ∀ b ∈ bs, b.Holds b.data ∧ b.bufferPtr = 0 ∧ b.data ≠ []) (junk : ℕ → ByteMemory) :
    (BufferChain.appendLoop junk bc bs).Valid ∧
      (BufferChain.appendLoop junk bc bs).data = bc.data ++ bs.flatMap IOBuffer.data := by
  induction bs generalizing bc junk with
  | nil => exact ⟨h, by simp [BufferChain.appendLoop]⟩
  | cons b bs ih =>
    obtain ⟨⟨hb, hptr, hne⟩, hbs⟩ := List.forall_mem_cons.mp hbs
    have hdup := hb.dup (junk 0)
    obtain ⟨hv, hd⟩ := h.push hdup hptr hne
    have hlen : (b.dup (junk 0)).dataLen = b.data.length := (IOBuffer.length_data b).symm
    have hadd : bc.addBack (b.dup (junk 0)) =
        ⟨bc.mChain ++ [b.dup (junk 0)], bc.mSize + b.data.length⟩ := by
      rw [BufferChain.addBack, hlen]
    rw [← hadd] at hv hd
    obtain ⟨hv', hd'⟩ := ih hv hbs fun n => junk (n + 1)
    refine ⟨hv', ?_⟩
    rw [BufferChain.appendLoop, hd', hd, List.flatMap_cons, List.append_assoc]

end BufferChain

theorem IOBuffer.fromBuf_spec (junk : ByteMemory) {buf : List UInt8} (h : buf ≠ []) :
    ∃ b, IOBuffer.fromBuf junk buf = .ok b ∧ b.Holds buf := by
  obtain ⟨b, hb, hh, -⟩ := IOBuffer.fill_commit_spec
    (IOBuffer.newWithCapacity_holds junk (buf.length * 2)) rfl h
    (by simp only [List.length_nil, IOBuffer.newWithCapacity]; omega)
  exact ⟨b, hb, hh⟩

namespace DemoMessage

/-- `demo_message_serialize` of a message whose body is valid. -/
theorem serialize_spec (junk : ByteMemory) {m : DemoMessage} (h : m.body.Valid) :
    ∃ b, m.serialize junk = .ok b ∧ b.Holds (frame m.opcode m.body.data) := by
  obtain ⟨b, hb, hholds⟩ :=
    IOBuffer.fromBuf_spec junk (List.cons_ne_nil chSoh [opcodeByte m.opcode, chStx])
  obtain ⟨bc₁, h₁, hv₁, hd₁⟩ := BufferChain.append_spec junk BufferChain.new_valid
    (show b.data ≠ [] by rw [hholds.data_eq]; exact List.cons_ne_nil _ _)
  obtain ⟨hv₂, hd₂⟩ := hv₁.appendLoop h.buffers fun _ => junk
  obtain ⟨bc₃, h₃, hv₃, hd₃⟩ := BufferChain.append_spec junk hv₂
    (List.cons_ne_nil chEtx [76, chEot])
  obtain ⟨r, hr, hrh, -⟩ := hv₃.sound.compact_spec junk
  have hdata : bc₃.data = frame m.opcode m.body.data := by
    rw [hd₃, hd₂, hd₁, hholds.data_eq]
    rfl
  refine ⟨r, ?_, hdata ▸ hrh⟩
  simp only [serialize, hb, BufferChain.appendIOBuffer, h₁, BufferChain.appendBufferchain,
    Except.ok_bind, h₃, hr]

end DemoMessage

end CHttp
