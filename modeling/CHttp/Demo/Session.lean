import CHttp.Demo.Connection
import CHttp.Demo.Handler
import CHttp.Demo.Recovery

/-!
# A whole demo connection

`demo_connection.c` and `demo_handler.c` together, over one reactor: the handler asks for a message,
the connection reads and parses, the handler puts an echo on its list, the connection writes it. The
connection goes on from `epoll` events and from the functions that it and its handler post; each
posted function runs with the results of the system calls it may make.

A `DemoSession` has both sides of the connection, the handler, the posted functions in order, and a
history of what came in and went out. A function that is run after the connection was freed is an
error of its own.
-/

namespace CHttp

/-- `READ_STATE_IDLE` and so on. -/
inductive DemoReadState
  | idle
  | eagained
  | active
  | stop
  deriving DecidableEq, Repr

/-- What a connection and its handler post. -/
inductive DemoTask
  | postableReader
  | postableWriter
  | postableWriteCallCb
  | postableCleanup
  | postableWriteStart
  | postableReadStart
  deriving DecidableEq, Repr

/-- What `recv` reports: the bytes that are there, none at the end of the stream, `EAGAIN`, or
another error. -/
inductive DemoRecv
  | got (bs : List UInt8)
  | eagain
  | error
  deriving DecidableEq, Repr

/-- The environment's part in one posted function. -/
structure DemoIo where
  recv : DemoRecv
  send : DemoSend
  heap : DemoHeap

/-- `DemoConnection` with its `DemoHandler`, and what is posted for them. The callbacks are those of
the handler or `NULL`. The history: the bytes received, each with whether it was the last one of its
`recv`, the responses put on the output list, the error codes given to `handle_request`, and the
bytes that `send` took. -/
structure DemoSession where
  readState : DemoReadState
  onReadCb : Bool
  activeInputBuffer : Option IOBuffer
  parser : DemoParser
  writeState : DemoWriteState
  onWriteCb : Bool
  activeOutputBuffer : Option IOBuffer
  outputList : List DemoMessage
  activeResponse : Option DemoMessage
  readyList : List DemoTask
  freed : Bool
  received : List (UInt8 × Bool)
  replies : List DemoMessage
  codes : List ℤ
  sent : List UInt8

namespace DemoSession

open DemoConnection (errIsClosed errIoError)

/-- `post_to_reactor`, and `rtor_reactor_post` in the handler. -/
def post (this : DemoSession) (f : DemoTask) : DemoSession :=
  { this with readyList := this.readyList ++ [f] }

/-! ### Reading -/

/-- `handle_request`. -/
def handleRequest (this : DemoSession) (heap : DemoHeap) (msgref : Option DemoMessage)
    (errorCode : ℤ) : Except Abort DemoSession :=
  if errorCode ≠ 0 then .ok { this with codes := this.codes ++ [errorCode] }
  else
    match msgref with
    | none => .error ⟨"process_request", "request is NULL"⟩
    | some request =>
      let response := processRequest heap request
      let this := { this with
        outputList := this.outputList ++ [response]
        replies := this.replies ++ [response] }
      let this := if this.outputList.length = 1 then this.post .postableWriteStart else this
      .ok (this.post .postableReadStart)

/-- `on_read_cb` is called, in the function `func`; `tmp` says that it is not `NULL`. -/
def callReadCb (this : DemoSession) (func : String) (tmp : Bool) (heap : DemoHeap)
    (msgref : Option DemoMessage) (errorCode : ℤ) : Except Abort DemoSession := do
  assertThat tmp func "NULL is called"
  this.handleRequest heap msgref errorCode

/-- `democonnection_read`, with `handle_request` for the callback. -/
def democonnectionRead (this : DemoSession) (heap : DemoHeap) : Except Abort DemoSession := do
  assertThat (this.readState ≠ .active) "democonnection_read" "a read is already active"
  match this.readState with
  | .idle => return ({ this with readState := .active, onReadCb := true }).post .postableReader
  | .eagained => return { this with onReadCb := true }
  | .stop => ({ this with onReadCb := false }).handleRequest heap none errIsClosed
  -- ruled out by the assertion
  | .active => return this

/-- `on_read_complete`, the `on_message_complete` of the parser. -/
def onReadComplete (heap : DemoHeap) (this : DemoSession) (c : DemoCall) :
    Except Abort DemoSession := do
  assertThat (c.message.isSome && c.errorCode = 0 || c.message.isNone && c.errorCode ≠ 0)
    "on_read_complete"
    "msg != NULL and error_code == 0 failed OR msg == NULL and error_code != 0 failed"
  let tmp := this.onReadCb
  let this := { this with readState := .idle, onReadCb := false }
  this.callReadCb "on_read_complete" tmp heap c.message c.errorCode

/-- `read_error`. -/
def readError (this : DemoSession) (heap : DemoHeap) : Except Abort DemoSession := do
  let this := { this with readState := .stop }
  let this ← this.callReadCb "read_error" this.onReadCb heap none errIoError
  return { this with onReadCb := false }.post .postableCleanup

/-- `reader` with data in its buffer. The callbacks of the parser touch neither the parser nor the
buffer, so they are made after it has returned. -/
def consumeInput (this : DemoSession) (heap : DemoHeap) (iob : IOBuffer) :
    Except Abort DemoSession := do
  let (parser, calls, iob, ec) ← this.parser.consume [] iob
  let this ← calls.foldlM (onReadComplete heap)
    { this with parser := parser, activeInputBuffer := some iob }
  if ec = 0 ∧ this.readState = .active then return this.post .postableReader
  -- an error code ends the reading, whatever is still to come
  else return this

/-- The input buffer at the start of `reader`. -/
def inputBuffer (this : DemoSession) (heap : DemoHeap) : IOBuffer :=
  this.activeInputBuffer.getD (IOBuffer.newWithCapacity heap.body 1000)

/-- `reader` from the call of `recv` on. -/
def receive (this : DemoSession) (io : DemoIo) (iob : IOBuffer) : Except Abort DemoSession :=
  match io.recv with
  | .got bs =>
    let nread := bs.take iob.spaceLen.toNat
    if nread = [] then { this with activeInputBuffer := some iob }.readError io.heap
    else do
      let iob ← (iob.fill nread).commit nread.length
      let this := { this with received := this.received ++ DemoParser.marked nread }
      this.consumeInput io.heap iob
  | .eagain => .ok { this with activeInputBuffer := some iob, readState := .eagained }
  | .error => { this with activeInputBuffer := some iob }.readError io.heap

/-- `reader`. -/
def reader (this : DemoSession) (io : DemoIo) : Except Abort DemoSession := do
  let this ← if this.readState = .stop then
      this.callReadCb "reader" this.onReadCb io.heap none errIsClosed
    else pure this
  let iob := this.inputBuffer io.heap
  if iob.dataLen = 0 then this.receive io iob else this.consumeInput io.heap iob

/-- `postable_reader`. -/
def postableReader (this : DemoSession) (io : DemoIo) : Except Abort DemoSession :=
  if this.readState = .stop then
    this.callReadCb "postable_reader" this.onReadCb io.heap none errIsClosed
  else this.reader io

/-! ### Writing -/

/-- `on_write_complete_cb`. -/
def onWriteCompleteCb (this : DemoSession) : DemoSession :=
  let this := { this with activeResponse := none }
  if this.outputList.length = 1 then this.post .postableWriteStart else this

/-- `on_write_cb` is called, in the function `func`. -/
def callWriteCb (this : DemoSession) (func : String) : Except Abort DemoSession := do
  assertThat this.onWriteCb func "NULL is called"
  return this.onWriteCompleteCb

/-- `democonnection_write`, with `on_write_complete_cb` for the callback. -/
def democonnectionWrite (this : DemoSession) (junk : ByteMemory) (response : DemoMessage) :
    Except Abort DemoSession := do
  assertThat (this.writeState = .idle) "democonnection_write" "a write is already active"
  let iob ← response.serialize junk
  let this := { this with onWriteCb := true, activeOutputBuffer := some iob }
  if this.writeState = .stop then this.callWriteCb "democonnection_write"
  else return this.post .postableWriter

/-- `write_error`. -/
def writeError (this : DemoSession) : Except Abort DemoSession := do
  let this ← { this with writeState := .stop }.callWriteCb "write_error"
  return { this with onWriteCb := false }.post .postableCleanup

/-- `writer`, after `send` has taken these bytes, the first ones of the buffer. -/
def sentSome (this : DemoSession) (iob : IOBuffer) (bs : List UInt8) :
    Except Abort DemoSession := do
  let iob ← iob.consume bs.length
  let this := { this with sent := this.sent ++ bs }
  if iob.dataLen = 0 then
    return { this with writeState := .idle, activeOutputBuffer := none }.post .postableWriteCallCb
  else
    return { this with writeState := .active, activeOutputBuffer := some iob }.post .postableWriter

/-- `writer`. -/
def writer (this : DemoSession) (result : DemoSend) : Except Abort DemoSession :=
  match this.activeOutputBuffer with
  | none => .error ⟨"writer", "writer"⟩
  | some iob =>
    match result with
    | .sent n =>
      if iob.data.take n = [] then this.writeError else this.sentSome iob (iob.data.take n)
    | .eagain => .ok { this with writeState := .eagained }
    | .error => this.writeError

/-- `postable_writer`. -/
def postableWriter (this : DemoSession) (result : DemoSend) : Except Abort DemoSession :=
  if this.writeState = .stop then
    { this with activeOutputBuffer := none }.callWriteCb "postable_writer"
  else do
    assertThat this.activeOutputBuffer.isSome "postable_writer" "post_write_handler"
    assertThat (this.writeState = .idle) "postable_writer"
      "cannot call write while write state is not idle"
    this.writer result

/-- `postable_write_call_cb`. -/
def postableWriteCallCb (this : DemoSession) : Except Abort DemoSession := do
  assertThat this.onWriteCb "postable_write_call_cb" "write call back is NULL"
  return this.onWriteCompleteCb

/-- `postable_write_start`. -/
def postableWriteStart (this : DemoSession) (junk : ByteMemory) : Except Abort DemoSession :=
  if this.activeResponse.isSome then .ok this
  else do
    let response := this.outputList.head?
    let this := { this with outputList := this.outputList.tail }
    assertThat this.activeResponse.isNone "postable_write_start"
      "handler active response should be NULL"
    let this := { this with activeResponse := response }
    match response with
    | some response => this.democonnectionWrite junk response
    | none => return this

/-! ### Events and steps -/

/-- `write_epollout`. -/
def writeEpollout (this : DemoSession) : DemoSession :=
  if this.writeState = .eagained then { this with writeState := .active }.post .postableWriter
  else this

/-- `read_epollin`. -/
def readEpollin (this : DemoSession) : DemoSession :=
  if this.readState = .eagained then { this with readState := .active }.post .postableReader
  else this

/-- `event_handler`. -/
def eventHandler (this : DemoSession) (epollin epollout : Bool) : DemoSession :=
  let this := if epollout then this.writeEpollout else this
  if epollin then this.readEpollin else this

/-- A posted function. `postable_cleanup` deregisters the stream and calls back to the server, which
frees the handler and the connection; nothing sets the flag that it asserts to be clear. -/
def call (this : DemoSession) (io : DemoIo) : DemoTask → Except Abort DemoSession
  | .postableReader => this.postableReader io
  | .postableWriter => this.postableWriter io.send
  | .postableWriteCallCb => this.postableWriteCallCb
  | .postableCleanup => .ok { this with freed := true }
  | .postableWriteStart => this.postableWriteStart io.heap.body
  | .postableReadStart => this.democonnectionRead io.heap

/-- What can happen next: `epoll` reports events, or the reactor runs the oldest posted function. -/
inductive Act
  | event (epollin epollout : Bool)
  | run (io : DemoIo)

/-- The tag of a freed connection is checked. -/
def useAfterFree : Abort := ⟨"check_tag", "use after free"⟩

/-- One action. A connection that was freed has no events, as its stream is deregistered. -/
def step (this : DemoSession) : Act → Except Abort DemoSession
  | .event epollin epollout => .ok (if this.freed then this else this.eventHandler epollin epollout)
  | .run io =>
    match this.readyList with
    | [] => .ok this
    | f :: rest =>
      if this.freed then .error useAfterFree else { this with readyList := rest }.call io f

/-- `democonnection_init`, and `demohandler_init` up to the first read. -/
def democonnectionInit (heap : DemoHeap) : DemoSession where
  readState := .idle
  onReadCb := false
  activeInputBuffer := none
  parser := DemoParser.new heap
  writeState := .idle
  onWriteCb := false
  activeOutputBuffer := none
  outputList := []
  activeResponse := none
  readyList := []
  freed := false
  received := []
  replies := []
  codes := []
  sent := []

/-- `demohandler_init` has started the first read. -/
def init (heap : DemoHeap) : DemoSession :=
  { democonnectionInit heap with
    readState := .active, onReadCb := true, readyList := [.postableReader] }

theorem democonnectionRead_init (heap heap' : DemoHeap) :
    (democonnectionInit heap).democonnectionRead heap' = .ok (init heap) := rfl

end DemoSession

end CHttp
