import CHttp.Demo.Message

/-!
# The parser of the demo protocol

`demo_parser.c`. `DemoParser_consume` runs a state machine over the data of an I/O buffer. It stops
after the check byte of a frame, when the message is complete, or at the end of the data; what is
left in the buffer is for the next call. The `EOT` of a frame is not waited for: the idle state
skips it, as it skips everything up to the next `SOH`.
-/

namespace CHttp

/-- `enum State`. -/
inductive DemoState
  | idle
  | sohWait
  | opcode
  | stxWait
  | body
  | extWait
  | lrc
  | eotWait
  | errorRecovery
  deriving DecidableEq, Repr

/-- `DemoParser`. -/
structure DemoParser where
  mState : DemoState
  mCurrentMessage : Option DemoMessage
  heap : DemoHeap

/-- The arguments of a call of `on_message_complete`. -/
structure DemoCall where
  message : Option DemoMessage
  errorCode : ℤ

namespace DemoParser

/-- `DemoParserErr_expected_stx`. -/
def errExpectedStx : ℤ := -12

/-- `isprint` in the C locale. -/
def isprint (ch : UInt8) : Bool := 32 ≤ ch ∧ ch ≤ 126

/-- `DemoParser_new`. -/
def new (heap : DemoHeap) : DemoParser := ⟨.idle, none, heap⟩

/-- `m_current_message_ptr`, dereferenced in `func`. -/
def current (this : DemoParser) (func : String) : Except Abort DemoMessage :=
  match this.mCurrentMessage with
  | some msg => .ok msg
  | none => .error ⟨func, "m_current_message_ptr is NULL"⟩

/-- `STATE_BODY` at a printable character. The body is compacted for the debugger. -/
def addToBody (this : DemoParser) (ch : UInt8) : Except Abort DemoParser := do
  let msg ← this.current "demo_message_get_body"
  let bc ← msg.body.append this.heap.body [ch]
  let _iobtmp ← bc.compact this.heap.body
  return { this with mCurrentMessage := some (msg.setBody bc) }

/-- One character of `DemoParser_consume`; `atEnd` says that it is the last one of the buffer. The
calls of `on_message_complete` are listed. The function returns after this character when there is
a return code. The error codes of the other states are set and never returned. -/
def step (this : DemoParser) (calls : List DemoCall) (atEnd : Bool) (ch : UInt8) :
    Except Abort (DemoParser × List DemoCall × Option ℤ) :=
  match this.mState with
  | .idle =>
    let msg := this.mCurrentMessage.getD (DemoMessage.new this.heap)
    let state := if ch = DemoMessage.chSoh then .opcode else this.mState
    .ok ({ this with mCurrentMessage := some msg, mState := state }, calls, none)
  | .opcode =>
    if ch = 82 ∨ ch = 81 then do
      let msg ← this.current "demo_message_set_is_request"
      return ({ this with
        mCurrentMessage := some (msg.setIsRequest (ch = 81)), mState := .stxWait }, calls, none)
    else .ok ({ this with mState := .errorRecovery }, calls, none)
  | .stxWait =>
    let state := if ch = DemoMessage.chStx then .body else .errorRecovery
    .ok ({ this with mState := state }, calls, none)
  | .body =>
    if isprint ch then do return (← this.addToBody ch, calls, none)
    else
      let state := if ch = DemoMessage.chEtx then .lrc else .errorRecovery
      .ok ({ this with mState := state }, calls, none)
  | .lrc => do
    let msg ← this.current "demo_message_set_lrc"
    return ({ this with
      mState := .idle, mCurrentMessage := some (DemoMessage.new this.heap) },
      calls ++ [⟨some (msg.setLrc ch), 0⟩], some 0)
  | .eotWait => .ok (this, calls, none)
  | .errorRecovery =>
    if ch = DemoMessage.chSoh ∧ ¬ atEnd then
      .ok ({ this with mState := .opcode }, calls, none)
    else if atEnd then
      .ok ({ this with mCurrentMessage := some (DemoMessage.new this.heap) },
        calls ++ [⟨none, errExpectedStx⟩], some errExpectedStx)
    else .ok (this, calls, none)
  | .sohWait | .extWait => .error ⟨"DemoParser_consume", "false"⟩

/-- The loop of `DemoParser_consume` over the characters from index `i` on. -/
def loop (this : DemoParser) (calls : List DemoCall) (iob : IOBuffer) (i : ℕ) :
    List UInt8 → Except Abort (DemoParser × List DemoCall × IOBuffer × ℤ)
  | [] => do return (this, calls, ← iob.consume i, 0)
  | ch :: rest => do
    match ← this.step calls rest.isEmpty ch with
    | (this, calls, some rc) => return (this, calls, ← iob.consume (i + 1), rc)
    | (this, calls, none) => loop this calls iob (i + 1) rest

/-- `DemoParser_consume`. -/
def consume (this : DemoParser) (calls : List DemoCall) (iob : IOBuffer) :
    Except Abort (DemoParser × List DemoCall × IOBuffer × ℤ) :=
  loop this calls iob 0 iob.data

/-! ### Presenting buffers -/

/-- A parser in use: the calls it made of `on_message_complete`, and the codes it returned. -/
structure Reader where
  parser : DemoParser
  calls : List DemoCall
  codes : List ℤ

/-- A buffer is presented while it has data, as the comment on `DemoParser_consume` asks; nothing
is returned when `fuel` calls are not enough. -/
def present (r : Reader) (iob : IOBuffer) : ℕ → Except Abort (Option Reader)
  | 0 => .ok (if iob.dataLen = 0 then some r else none)
  | fuel + 1 =>
    if iob.dataLen = 0 then .ok (some r)
    else do
      let (parser, calls, iob, code) ← r.parser.consume r.calls iob
      present ⟨parser, calls, r.codes ++ [code]⟩ iob fuel

/-- One buffer after another is presented. -/
def feed (fuel : ℕ) (r : Reader) : List IOBuffer → Except Abort (Option Reader)
  | [] => .ok (some r)
  | iob :: rest => do
    match ← present r iob fuel with
    | some r => feed fuel r rest
    | none => return none

/-! ### Every call consumes -/

/-- The loop ends with one `IOBuffer_consume`, of more than it had read before. -/
theorem exists_consume_of_loop {s : List UInt8} {p p' : DemoParser} {calls calls' : List DemoCall}
    {iob iob' : IOBuffer} {i : ℕ} {code : ℤ}
    (h : p.loop calls iob i s = .ok (p', calls', iob', code)) :
    ∃ k, iob.consume k = .ok iob' ∧ i ≤ k ∧ (s ≠ [] → i < k) := by
  induction s generalizing p calls i with
  | nil =>
    simp only [loop, Except.bind_eq_ok] at h
    obtain ⟨b, hb, heq⟩ := h
    cases heq
    exact ⟨i, hb, Nat.le_refl _, by simp⟩
  | cons ch rest ih =>
    simp only [loop, Except.bind_eq_ok] at h
    obtain ⟨⟨p₁, calls₁, code₁⟩, -, h⟩ := h
    cases code₁ with
    | some rc =>
      simp only [Except.bind_eq_ok] at h
      obtain ⟨b, hb, heq⟩ := h
      cases heq
      exact ⟨i + 1, hb, Nat.le_succ i, fun _ => Nat.lt_succ_self i⟩
    | none =>
      obtain ⟨k, hk, hle, -⟩ := ih h
      exact ⟨k, hk, (Nat.le_succ i).trans hle, fun _ => hle⟩

/-- **Every call consumes.** A call with data in the buffer leaves less of it. -/
theorem dataLen_of_consume {p p' : DemoParser} {calls calls' : List DemoCall}
    {iob iob' : IOBuffer} {code : ℤ} (h : p.consume calls iob = .ok (p', calls', iob', code))
    (hpos : 0 < iob.dataLen) : iob'.dataLen < iob.dataLen := by
  have hne : iob.data ≠ [] := by
    intro hnil
    rw [← IOBuffer.length_data, hnil] at hpos
    exact Nat.lt_irrefl _ hpos
  obtain ⟨k, hk, -, hlt⟩ := exists_consume_of_loop h
  have hrem : iob'.dataLen = iob.dataLen - k := (IOBuffer.fields_of_consume hk).2.1
  have := hlt hne
  omega

end DemoParser

end CHttp
