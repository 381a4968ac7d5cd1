import CHttp.Demo.Message
import CHttp.ForMathlib.Machine

/-!
# Writing on a demo connection

The write side of `demo_connection.c`. `democonnection_write` serializes a response and posts
`postable_writer`, which sends what the socket takes. A send that takes only part of the frame posts
it again; one that would block leaves it to `write_epollout` to do so. Both set `write_state` to
active first, and `postable_writer` asserts that it is idle.

Every list of actions is an interleaving of calls of `democonnection_write`, posted functions, each
with the result of the `send` it may make, and `EPOLLOUT` events.
-/

namespace CHttp

/-- `WRITE_STATE_IDLE` and so on. -/
inductive DemoWriteState
  | idle
  | eagained
  | active
  | stop
  deriving DecidableEq, Repr

/-- What the write side posts to the reactor. -/
inductive DemoPosted
  | writer
  | writeCallCb
  | cleanup
  deriving DecidableEq, Repr

/-- What `send` returns: a count, `-1` with `EAGAIN`, or `-1` with another error. -/
inductive DemoSend
  | sent (n : ℕ)
  | eagain
  | error
  deriving DecidableEq, Repr

/-- `DemoConnection`, the fields of the write side, and the functions it has posted. `onWriteCb`
says that the callback is not `NULL`. The history is that of the last response given to
`democonnection_write`: its frame, the bytes that `send` took of it, what `send` returned, and the
codes that `on_write_cb` was called with. -/
structure DemoConnection where
  writeState : DemoWriteState
  activeOutputBuffer : Option IOBuffer
  onWriteCb : Bool
  posted : List DemoPosted
  started : Bool
  frame : List UInt8
  accepted : List UInt8
  sends : List DemoSend
  codes : List ℤ

namespace DemoConnection

/-- `DemoConnectionErrCode_is_closed`. -/
def errIsClosed : ℤ := -31

/-- `DemoConnectionErrCode_io_error`. -/
def errIoError : ℤ := -32

/-- `democonnection_init`. -/
def init : DemoConnection := ⟨.idle, none, false, [], false, [], [], [], []⟩

/-- `post_to_reactor`. -/
def post (this : DemoConnection) (f : DemoPosted) : DemoConnection :=
  { this with posted := this.posted ++ [f] }

/-- `on_write_cb` is called, in the function `func`. -/
def callWriteCb (this : DemoConnection) (func : String) (code : ℤ) :
    Except Abort DemoConnection := do
  assertThat this.onWriteCb func "NULL is called"
  return { this with codes := this.codes ++ [code] }

/-- `democonnection_write`. The state is compared with the active one where it is to be set. -/
def democonnectionWrite (this : DemoConnection) (junk : ByteMemory) (response : DemoMessage) :
    Except Abort DemoConnection := do
  assertThat (this.writeState = .idle) "democonnection_write" "a write is already active"
  let iob ← response.serialize junk
  let this := { this with
    onWriteCb := true
    activeOutputBuffer := some iob
    started := true
    frame := iob.data
    accepted := []
    sends := []
    codes := [] }
  if this.writeState = .stop then this.callWriteCb "democonnection_write" errIsClosed
  else return this.post .writer

/-- `write_error`. -/
def writeError (this : DemoConnection) : Except Abort DemoConnection := do
  let this ← { this with writeState := .stop }.callWriteCb "write_error" errIoError
  return { this with onWriteCb := false }.post .cleanup

/-- `writer`, after `send` has taken `n` bytes. -/
def sent (this : DemoConnection) (iob : IOBuffer) (n : ℕ) : Except Abort DemoConnection := do
  let this := { this with accepted := this.accepted ++ iob.data.take n }
  let iob ← iob.consume n
  if iob.dataLen = 0 then
    return { this with writeState := .idle, activeOutputBuffer := none }.post .writeCallCb
  else
    return { this with writeState := .active, activeOutputBuffer := some iob }.post .writer

/-- `writer`. -/
def writer (this : DemoConnection) (result : DemoSend) : Except Abort DemoConnection :=
  match this.activeOutputBuffer with
  | none => .error ⟨"writer", "writer"⟩
  | some iob =>
    let this := { this with sends := this.sends ++ [result] }
    match result with
    | .sent 0 => this.writeError
    | .sent (n + 1) => this.sent iob (n + 1)
    | .eagain => .ok { this with writeState := .eagained }
    | .error => this.writeError

/-- `postable_writer`. -/
def postableWriter (this : DemoConnection) (result : DemoSend) : Except Abort DemoConnection :=
  if this.writeState = .stop then
    { this with activeOutputBuffer := none }.callWriteCb "postable_writer" errIsClosed
  else do
    assertThat this.activeOutputBuffer.isSome "postable_writer" "post_write_handler"
    assertThat (this.writeState = .idle) "postable_writer"
      "cannot call write while write state is not idle"
    this.writer result

/-- `postable_write_call_cb`. -/
def postableWriteCallCb (this : DemoConnection) : Except Abort DemoConnection := do
  assertThat this.onWriteCb "postable_write_call_cb" "write call back is NULL"
  this.callWriteCb "postable_write_call_cb" 0

/-- `write_epollout`. -/
def writeEpollout (this : DemoConnection) : DemoConnection :=
  if this.writeState = .eagained then { this with writeState := .active }.post .writer else this

/-- A posted function; `postable_cleanup` does nothing to the write side. -/
def call (this : DemoConnection) (result : DemoSend) :
    DemoPosted → Except Abort DemoConnection
  | .writer => this.postableWriter result
  | .writeCallCb => this.postableWriteCallCb
  | .cleanup => .ok this

/-- What can happen next. -/
inductive Act
  | write (junk : ByteMemory) (response : DemoMessage)
  | run (result : DemoSend)
  | epollout

/-- One action. -/
def step (this : DemoConnection) : Act → Except Abort DemoConnection
  | .write junk response => this.democonnectionWrite junk response
  | .run result =>
    match this.posted with
    | [] => .ok this
    | f :: rest => { this with posted := rest }.call result f
  | .epollout => .ok this.writeEpollout

/-- The writes in progress: what is still to be run for one, or is waiting for `EPOLLOUT`. -/
def pending (this : DemoConnection) : ℕ :=
  this.posted.count .writer + this.posted.count .writeCallCb +
    if this.writeState = .eagained then 1 else 0

/-- What the callers and the kernel keep to: a response is a message with a valid body and is given
when no write is in progress, and `send` does not take more than it is given. -/
def Contract (this : DemoConnection) : Act → Prop
  | .write _ response => this.pending = 0 ∧ response.body.Valid
  | .run (.sent n) => this.posted.head? = some .writer →
      ∀ iob, this.activeOutputBuffer = some iob → n ≤ iob.dataLen
  | _ => True

/-- The write of the last response: the bytes taken are the first ones of its frame, there is one
write in progress at most, and `on_write_cb` is called once, when the write has ended, with 0 if all
bytes were taken and another code if not. -/
structure Delivers (this : DemoConnection) : Prop where
  accepted : this.accepted <+: this.frame
  pending : this.pending ≤ 1
  early : this.pending = 1 → this.codes = []
  ended : this.started = true → this.pending = 0 → this.codes.length = 1
  code : ∀ code ∈ this.codes, code = 0 ↔ this.accepted = this.frame

/-- No response needs a second `send`, and none is given to a connection whose last write failed. -/
def WholeSend (this : DemoConnection) : Act → Prop
  | .write _ _ => this.writeState ≠ .stop
  | .run _ => this.posted.head? = some .writer → this.sends = []
  | .epollout => True

/-! ### Where a write stands -/

/-- Part of the frame was taken, and the buffer holds the rest. -/
structure Partly (this : DemoConnection) : Prop where
  buffer : ∃ iob rest, this.activeOutputBuffer = some iob ∧ iob.Holds rest ∧ rest ≠ [] ∧
    this.accepted ++ rest = this.frame
  callback : this.onWriteCb = true
  codes : this.codes = []

/-- Where the write side is, in every run: nothing was written yet, or a write is over; a write is
posted and has not sent anything; it is posted again; it waits for `EPOLLOUT`; its callback is
posted; it failed. -/
inductive Phase (this : DemoConnection) : Prop
  | fresh (hw : this.writeState = .idle) (hq : this.posted = []) (hs : this.started = false)
      (ha : this.accepted = []) (hc : this.codes = [])
  | finished (hw : this.writeState = .idle) (hq : this.posted = [])
      (ha : this.accepted = this.frame) (hc : this.codes = [0])
  | queued (hw : this.writeState = .idle) (hq : this.posted = [.writer]) (hs : this.sends = [])
      (hp : this.Partly)
  | resumed (hw : this.writeState = .active) (hq : this.posted = [.writer])
      (hs : this.sends ≠ []) (hp : this.Partly)
  | blocked (hw : this.writeState = .eagained) (hq : this.posted = []) (hs : this.sends ≠ [])
      (hp : this.Partly)
  | complete (hw : this.writeState = .idle) (hq : this.posted = [.writeCallCb])
      (hcb : this.onWriteCb = true) (ha : this.accepted = this.frame) (hc : this.codes = [])
  | failed (hw : this.writeState = .stop) (hq : this.posted = [.cleanup] ∨ this.posted = [])
      (ha : this.accepted <+: this.frame) (hne : this.accepted ≠ this.frame)
      (hc : this.codes = [errIoError])

variable {c c' : DemoConnection}

private theorem init_phase : init.Phase := .fresh rfl rfl rfl rfl rfl

private theorem Partly.accepted_of_frame (h : c.Partly) :
    c.accepted <+: c.frame ∧ c.accepted ≠ c.frame := by
  obtain ⟨iob, rest, -, -, hne, heq⟩ := h.buffer
  refine ⟨⟨rest, heq⟩, fun hsame => hne ?_⟩
  rw [← heq] at hsame
  exact List.append_right_eq_self.mp hsame.symm

/-- A write in progress has called nothing back. -/
theorem Partly.delivers (h : c.Partly) (hp : c.pending = 1) : c.Delivers :=
  ⟨h.accepted_of_frame.1, Nat.le_of_eq hp, fun _ => h.codes,
    fun _ hzero => absurd (hzero.symm.trans hp) (by decide), by simp [h.codes]⟩

/-- In every phase the write is as it should be. -/
theorem Phase.delivers (h : c.Phase) : c.Delivers := by
  cases h with
  | fresh hw hq hs ha hc =>
    have hp : c.pending = 0 := by simp [pending, hw, hq]
    exact ⟨ha ▸ List.nil_prefix, by omega, by omega, by simp [hs], by simp [hc]⟩
  | finished hw hq ha hc =>
    have hp : c.pending = 0 := by simp [pending, hw, hq]
    refine ⟨ha ▸ List.prefix_refl _, by omega, by omega, fun _ _ => by rw [hc]; rfl, ?_⟩
    rw [hc]
    exact List.forall_mem_singleton.mpr (iff_of_true rfl ha)
  | queued hw hq hs hp => exact hp.delivers (by simp [pending, hw, hq])
  | resumed hw hq hs hp => exact hp.delivers (by simp [pending, hw, hq])
  | blocked hw hq hs hp => exact hp.delivers (by simp [pending, hw, hq])
  | complete hw hq hcb ha hc =>
    have hp : c.pending = 1 := by simp [pending, hw, hq]
    exact ⟨ha ▸ List.prefix_refl _, by omega, fun _ => hc, by omega, by simp [hc]⟩
  | failed hw hq ha hne hc =>
    have hp : c.pending = 0 := by rcases hq with hq | hq <;> simp [pending, hw, hq]
    refine ⟨ha, by omega, by omega, fun _ _ => by rw [hc]; rfl, ?_⟩
    rw [hc]
    exact List.forall_mem_singleton.mpr (iff_of_false (by decide) hne)

/-! ### Steps -/

/-- `write_error`, with bytes left to send. -/
theorem writeError_spec (h : c.Partly) (hq : c.posted = []) :
    ∃ c', c.writeError = .ok c' ∧ c'.Phase := by
  obtain ⟨ha, hne⟩ := h.accepted_of_frame
  refine ⟨{ c with
    writeState := .stop
    codes := c.codes ++ [errIoError]
    onWriteCb := false
    posted := c.posted ++ [.cleanup] }, ?_, .failed rfl (.inl ?_) ha hne ?_⟩
  · simp only [writeError, callWriteCb, h.callback, assertThat_true, Except.ok_bind]
    rfl
  · exact congrArg (· ++ [DemoPosted.cleanup]) hq
  · exact congrArg (· ++ [errIoError]) h.codes

/-- `send` took bytes. -/
theorem sent_spec {iob : IOBuffer} {rest : List UInt8} {n : ℕ} (hiob : iob.Holds rest)
    (heq : c.accepted ++ rest = c.frame) (hn : n ≤ rest.length) (hcb : c.onWriteCb = true)
    (hcodes : c.codes = []) (hq : c.posted = []) (hs : c.sends ≠ []) :
    ∃ c', c.sent iob n = .ok c' ∧ c'.Phase := by
  obtain ⟨iob', hconsume, hholds⟩ := IOBuffer.consume_spec hiob hn
  have hlen : iob'.dataLen = (rest.drop n).length := hholds.remaining
  simp only [DemoConnection.sent, hiob.data_eq, hconsume, Except.ok_bind]
  by_cases hzero : iob'.dataLen = 0
  · rw [if_pos hzero]
    have hall : rest.take n = rest := by
      rw [hlen, List.length_drop] at hzero
      exact List.take_of_length_le (by omega)
    refine ⟨_, rfl, .complete rfl ?_ hcb ?_ hcodes⟩
    · exact congrArg (· ++ [DemoPosted.writeCallCb]) hq
    · change c.accepted ++ rest.take n = c.frame
      rw [hall, heq]
  · rw [if_neg hzero]
    have hleft : rest.drop n ≠ [] := by
      intro hnil
      rw [hnil] at hlen
      exact hzero hlen
    refine ⟨_, rfl, .resumed rfl ?_ hs ⟨⟨iob', rest.drop n, rfl, hholds, hleft, ?_⟩, hcb, hcodes⟩⟩
    · exact congrArg (· ++ [DemoPosted.writer]) hq
    · change c.accepted ++ rest.take n ++ rest.drop n = c.frame
      rw [List.append_assoc, List.take_append_drop, heq]

/-- **The first send** of a write, whatever it returns. -/
theorem writer_spec (h : c.Partly) (hw : c.writeState = .idle) (hq : c.posted = [])
    {result : DemoSend}
    (hn : ∀ n, result = .sent n → ∀ iob, c.activeOutputBuffer = some iob → n ≤ iob.dataLen) :
    ∃ c', c.postableWriter result = .ok c' ∧ c'.Phase := by
  obtain ⟨iob, rest, hbuf, hiob, hne, heq⟩ := h.buffer
  have hp : ∀ state, Partly { c with
      writeState := state, activeOutputBuffer := some iob, sends := c.sends ++ [result] } :=
    fun _ => ⟨⟨iob, rest, rfl, hiob, hne, heq⟩, h.callback, h.codes⟩
  have hs : c.sends ++ [result] ≠ [] := by simp
  simp only [postableWriter, hbuf, Option.isSome_some, hw, decide_true, assertThat_true,
    Except.ok_bind, writer]
  cases result with
  | sent n =>
    cases n with
    | zero => exact writeError_spec (hp .idle) hq
    | succ n =>
      have hle : n + 1 ≤ rest.length := by
        have hlen : iob.dataLen = rest.length := hiob.remaining
        exact hlen ▸ hn (n + 1) rfl iob hbuf
      exact sent_spec hiob heq hle h.callback h.codes hq hs
  | eagain => exact ⟨_, rfl, .blocked rfl hq hs (hp .eagained)⟩
  | error => exact writeError_spec (hp .idle) hq

/-- A response is given to a connection on which nothing is in progress. -/
theorem write_spec (hw : c.writeState = .idle) (hq : c.posted = []) (junk : ByteMemory)
    {response : DemoMessage} (hv : response.body.Valid) :
    ∃ c', c.democonnectionWrite junk response = .ok c' ∧ c'.Phase := by
  obtain ⟨iob, hser, hholds⟩ := DemoMessage.serialize_spec junk hv
  have hframe : iob.data = DemoMessage.frame response.opcode response.body.data := hholds.data_eq
  have hne : DemoMessage.frame response.opcode response.body.data ≠ [] := by
    simp [DemoMessage.frame]
  simp only [democonnectionWrite, hw, decide_true, assertThat_true, Except.ok_bind, hser]
  refine ⟨_, rfl, .queued rfl ?_ rfl ⟨⟨iob, _, rfl, hholds, hne, ?_⟩, rfl, rfl⟩⟩
  · exact congrArg (· ++ [DemoPosted.writer]) hq
  · exact (List.nil_append _).trans hframe.symm

/-- What an action does: it goes through to a state of some phase, or aborts. The first is so
exactly if it is no second send of a response, and no response after an error. -/
def Outcome (c : DemoConnection) (a : Act) : Prop :=
  (c.WholeSend a ∧ ∃ c', c.step a = .ok c' ∧ c'.Phase) ∨
    (¬ c.WholeSend a ∧ ∃ e, c.step a = .error e)

/-- Nothing is posted. -/
theorem run_nothing (h : c.Phase) (hq : c.posted = []) (result : DemoSend) :
    c.Outcome (.run result) := by
  refine .inl ⟨fun hhead => ?_, c, ?_, h⟩
  · simp [hq] at hhead
  · simp only [step, hq]

/-- A posted function runs. -/
theorem run_outcome (h : c.Phase) {result : DemoSend} (hc : c.Contract (.run result)) :
    c.Outcome (.run result) := by
  have hsend : ∀ n, c.posted.head? = some .writer → result = .sent n →
      ∀ iob, c.activeOutputBuffer = some iob → n ≤ iob.dataLen := by
    rintro n hhead rfl
    exact hc hhead
  cases h with
  | fresh hw hq hs ha hcodes => exact run_nothing (.fresh hw hq hs ha hcodes) hq result
  | finished hw hq ha hcodes => exact run_nothing (.finished hw hq ha hcodes) hq result
  | queued hw hq hs hp =>
    refine .inl ⟨fun _ => hs, ?_⟩
    have hp' : Partly { c with posted := [] } := ⟨hp.buffer, hp.callback, hp.codes⟩
    simp only [step, hq, call]
    exact writer_spec hp' hw rfl fun n => hsend n (by simp [hq])
  | resumed hw hq hs hp =>
    -- the state is active, and `postable_writer` wants it idle
    obtain ⟨iob, rest, hbuf, -⟩ := hp.buffer
    refine .inr ⟨fun hwhole => hs (hwhole (by simp [hq])),
      ⟨"postable_writer", "cannot call write while write state is not idle"⟩, ?_⟩
    simp only [step, hq, call, postableWriter, hw, hbuf]
    rfl
  | blocked hw hq hs hp => exact run_nothing (.blocked hw hq hs hp) hq result
  | complete hw hq hcb ha hcodes =>
    refine .inl ⟨fun hhead => ?_, { c with posted := [], codes := c.codes ++ [0] }, ?_,
      .finished hw rfl ha ?_⟩
    · simp [hq] at hhead
    · simp only [step, hq, call, postableWriteCallCb, callWriteCb, hcb, assertThat_true,
        Except.ok_bind]
      rfl
    · exact congrArg (· ++ [(0 : ℤ)]) hcodes
  | failed hw hq ha hne hcodes =>
    rcases hq with hq | hq
    · refine .inl ⟨fun hhead => ?_, { c with posted := [] }, ?_,
        .failed hw (.inr rfl) ha hne hcodes⟩
      · simp [hq] at hhead
      · simp only [step, hq, call]
    · exact run_nothing (.failed hw (.inr hq) ha hne hcodes) hq result

/-- A response is given. -/
theorem write_outcome (h : c.Phase) {junk : ByteMemory} {response : DemoMessage}
    (hc : c.Contract (.write junk response)) : c.Outcome (.write junk response) := by
  obtain ⟨hpending, hv⟩ := hc
  cases h with
  | fresh hw hq hs ha hcodes =>
    exact .inl ⟨by simp [WholeSend, hw], write_spec hw hq junk hv⟩
  | finished hw hq ha hcodes => exact .inl ⟨by simp [WholeSend, hw], write_spec hw hq junk hv⟩
  | queued hw hq hs hp => simp [pending, hw, hq] at hpending
  | resumed hw hq hs hp => simp [pending, hw, hq] at hpending
  | blocked hw hq hs hp => simp [pending, hw, hq] at hpending
  | complete hw hq hcb ha hcodes => simp [pending, hw, hq] at hpending
  | failed hw hq ha hne hcodes =>
    -- the assertion comes before the test for a connection that was stopped
    refine .inr ⟨by simp [WholeSend, hw],
      ⟨"democonnection_write", "a write is already active"⟩, ?_⟩
    simp only [step, democonnectionWrite, hw]
    rfl

/-- `EPOLLOUT` resumes a write that is blocked, and does nothing otherwise. -/
theorem writeEpollout_phase (h : c.Phase) : c.writeEpollout.Phase := by
  have hother : c.writeState ≠ .eagained → c.writeEpollout.Phase := by
    intro hw
    rw [writeEpollout, if_neg hw]
    exact h
  cases h with
  | blocked hw hq hs hp =>
    rw [writeEpollout, if_pos hw]
    refine .resumed rfl ?_ hs ⟨hp.buffer, hp.callback, hp.codes⟩
    exact congrArg (· ++ [DemoPosted.writer]) hq
  | fresh hw _ _ _ _ => exact hother (by simp [hw])
  | finished hw _ _ _ => exact hother (by simp [hw])
  | queued hw _ _ _ => exact hother (by simp [hw])
  | resumed hw _ _ _ => exact hother (by simp [hw])
  | complete hw _ _ _ _ => exact hother (by simp [hw])
  | failed hw _ _ _ _ => exact hother (by simp [hw])

/-- **One action**, in any phase. -/
theorem Phase.outcome (h : c.Phase) {a : Act} (hc : c.Contract a) : c.Outcome a := by
  cases a with
  | write junk response => exact write_outcome h hc
  | run result => exact run_outcome h hc
  | epollout => exact .inl ⟨trivial, _, rfl, writeEpollout_phase h⟩

private theorem phase_step (c : DemoConnection) (a : Act) (c' : DemoConnection) (h : c.Phase)
    (hc : c.Contract a) (hs : c.step a = .ok c') : c'.Phase := by
  rcases h.outcome hc with ⟨-, c₁, h₁, hphase⟩ | ⟨-, e, he⟩
  · cases h₁.symm.trans hs
    exact hphase
  · cases he.symm.trans hs

/-- **Writing on a demo connection.** No assertion fails and every response is delivered as it
should be, in every state of a run, exactly if no response needs a second `send` and none is written
after an error. -/
theorem delivers_iff_wholeSend {as : List Act} (hc : Machine.Along step Contract init as) :
    ((∃ c, Machine.run step init as = .ok c) ∧ Machine.Always step Delivers init as) ↔
      Machine.Along step WholeSend init as := by
  refine Machine.run_ok_always_iff_along_of phase_step (fun c a h hca _ => ?_) init_phase
    init_phase.delivers hc
  rcases h.outcome hca with ⟨hwhole, c', hs, hphase⟩ | ⟨hnot, e, he⟩
  · exact iff_of_true ⟨c', hs, hphase.delivers⟩ hwhole
  · refine iff_of_false ?_ hnot
    rintro ⟨c', hs, -⟩
    cases hs.symm.trans he

/-- A response with an empty body. -/
def emptyResponse : DemoMessage := ⟨false, 0, BufferChain.new⟩

/-- The six bytes of its frame are sent at once. -/
theorem delivers_emptyResponse :
    Machine.Always step Delivers init
      [.write (fun _ => 0) emptyResponse, .run (.sent 6), .run .error] := by
  refine ((delivers_iff_wholeSend ?_).mpr ?_).2
  · refine ⟨⟨rfl, BufferChain.new_valid⟩, fun _ iob hiob => ?_, trivial, trivial⟩
    cases hiob
    exact Nat.le_refl 6
  · have hidle : init.writeState ≠ .stop := by decide
    exact ⟨hidle, fun _ => rfl, nofun, trivial⟩

/-- The socket takes three of the six bytes. -/
theorem not_delivers_partial_send :
    Machine.Along step Contract init
      [.write (fun _ => 0) emptyResponse, .run (.sent 3), .run (.sent 3)] ∧
    Machine.run step init [.write (fun _ => 0) emptyResponse, .run (.sent 3), .run (.sent 3)] =
      .error ⟨"postable_writer", "cannot call write while write state is not idle"⟩ := by
  refine ⟨⟨⟨rfl, BufferChain.new_valid⟩, fun _ iob hiob => ?_, fun _ iob hiob => ?_, trivial⟩, rfl⟩
  · cases hiob
    decide
  · cases hiob
    decide

end DemoConnection

end CHttp
