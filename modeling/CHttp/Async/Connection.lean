import CHttp.Http.Parser

/-!
# One asynchronous connection

`connection_api.c`, `connection_read.c`, `connection_write.c`, `connection_event.c` and
`async_handler.c`: one `AsyncConnection` with its `AsyncHandler`, from the accepted socket to the
last `free`. The connection never blocks. It goes on from `epoll` events and from functors it posts
to the reactor's ready list, and each continuation checks with assertions that the state is the one
it expects.

A `World` is the connection, its functors on the ready list, and a history of what went in and out.
Everything the environment decides is in the action: the `epoll` mask, what `errno` held, what
`recv` and `send` report, what the application answers and when. `World.step` runs one action, and
a list of actions is an interleaving.
-/

namespace CHttp

/-- `read_state`; the other values of `connection_internal.h` are never assigned. -/
inductive ReadState
  | idle
  | eagained
  | active
  | stop
  deriving DecidableEq, Repr

/-- `write_state`. -/
inductive WriteState
  | idle
  | eagained
  | active
  | stop
  deriving DecidableEq, Repr

/-- The functions a connection or its handler puts on the ready list. `appFunctor` is the
application's: it calls `handle_response` for a request that was not answered at once. -/
inductive Postable
  | postableReader
  | postableHandleRequest
  | postableCloseConnection
  | asyncPostableWriter
  | postableWriteComplete
  | appFunctor
  deriving DecidableEq, Repr

/-- `EAGAIN`. -/
def eagain : ℕ := 11

/-- `EPOLLIN`. -/
def epollin : UInt64 := 1

/-- `EPOLLOUT`. -/
def epollout : UInt64 := 4

/-- What `recv` reports: the bytes that are there, none at the end of the stream, or an error. It
copies as many as fit and leaves `errno` alone when it succeeds. -/
inductive RecvResult
  | got (bs : List UInt8)
  | fail (errno : ℕ)
  deriving DecidableEq, Repr

/-- What `send` reports: it takes up to `n` bytes, or fails. -/
inductive SendResult
  | accepted (n : ℕ)
  | fail (errno : ℕ)
  deriving DecidableEq, Repr

/-- The environment's part in one functor: `errno` as earlier calls left it, the results of the
system call it may make, and the application's answer, given at once or from a later functor. -/
structure Io where
  errno : ℕ
  recv : RecvResult
  send : SendResult
  reply : Message
  atOnce : Bool

/-- `AsyncConnection`. Nothing reads `writeside_posted`, so it is left out. -/
structure AsyncConnection (L : Llhttp) where
  readState : ReadState
  writeState : WriteState
  readsidePosted : Bool
  activeInputBuffer : Option IOBuffer
  activeOutputBuffer : Option IOBuffer
  llhttp : L.State
  parser : HttpParser
  inputMessage : Option Message
  scratchRequest : Option Message

/-- How a run of the connection can end early: one of its own assertions on its state, a functor
that runs after the connection was freed, or an assertion of a library function. -/
inductive Fault
  | state (func text : String)
  | useAfterFree (f : Postable)
  | library (e : Abort)
  deriving DecidableEq, Repr

/-- Whether the connection exists: before `accept`, from then on, after it was freed. -/
inductive Life
  | embryo
  | open
  | freed
  deriving DecidableEq, Repr

/-- History of one response: the message given to `async_connection_write`, whether it was marked
`close`, the bytes the socket accepted for it, the calls of `handle_write_complete`, whether writing
it failed, and how many requests had been handed over. -/
structure Answer where
  response : Message
  closes : Bool
  accepted : List UInt8
  completions : ℕ
  failed : Bool
  handedBefore : ℕ

/-- A connection, its functors on the ready list (oldest first), the request the application is
working on, and the history: the chunks received, the requests handed to `process_request`, the
responses (newest first) and the number of times a close was posted. `memory` is what freshly
allocated buffers hold. -/
structure World (L : Llhttp) where
  life : Life
  cref : AsyncConnection L
  readyList : List Postable
  pending : Option Message
  received : List (List UInt8)
  handed : List Message
  answers : List Answer
  closesPosted : ℕ
  memory : ByteMemory

/-- A state assertion. -/
def assertState (test : Bool) (func text : String) : Except Fault Unit :=
  if test then .ok () else .error (.state func text)

@[simp]
theorem assertState_true (func text : String) : assertState true func text = .ok () := rfl

/-- A library call. -/
def library {α : Type} : Except Abort α → Except Fault α
  | .ok a => .ok a
  | .error e => .error (.library e)

namespace World

variable {L : Llhttp}

/-- `async_connection_init`, before the connection is accepted. -/
def init (L : Llhttp) (heap : Heap) (memory : ByteMemory) : World L where
  life := .embryo
  cref :=
    { readState := .idle
      writeState := .idle
      readsidePosted := false
      activeInputBuffer := none
      activeOutputBuffer := none
      llhttp := L.init
      parser := HttpParser.new heap memory
      inputMessage := none
      scratchRequest := none }
  readyList := []
  pending := none
  received := []
  handed := []
  answers := []
  closesPosted := 0
  memory := memory

/-- `rtor_reactor_post` by this connection or its handler. -/
def post (w : World L) (f : Postable) : World L := { w with readyList := w.readyList ++ [f] }

/-- `rtor_reactor_post(.., &postable_close_connection, href)`. -/
def postClose (w : World L) : World L :=
  { w.post .postableCloseConnection with closesPosted := w.closesPosted + 1 }

/-! ### Reading -/

/-- `read_buffer_size`. -/
def readBufferSize : ℕ := 1000000

/-- `async_on_read_message_complete`: the message goes to the one slot there is. The caller has
just asserted that `read_state` is `ACTIVE`, and the parser changes nothing of the connection. -/
def asyncOnReadMessageComplete (_inputMessage : Option Message) (msg : Message) :
    Option Message := some msg

/-- `post_delegate_handle_request`. -/
def postDelegateHandleRequest (w : World L) (request : Message) : World L :=
  { w with cref.scratchRequest := some request }.post .postableHandleRequest

/-- `read_new_message`. -/
def readNewMessage (w : World L) : Except Fault (World L) := do
  assertState (w.cref.readState = .active) "read_new_message" "invalid state"
  assertState w.cref.inputMessage.isSome "read_new_message" "input_message_ptr null on new message"
  assertState (!w.cref.readsidePosted) "read_new_message"
    "nothing should be posted on readside at this point"
  match w.cref.inputMessage with
  | some msg =>
    let w := { w with cref.inputMessage := none, cref.readState := .idle }
    return w.postDelegateHandleRequest msg
  -- ruled out by the second assertion
  | none => return w

/-- The assertions that `read_eagain`, `read_need_data` and `read_error` begin with; the second
has another text in each. -/
def assertReadEnd (w : World L) (func text : String) : Except Fault Unit := do
  assertState (w.cref.readState = .active) func "invalid state"
  assertState w.cref.inputMessage.isNone func text
  assertState (!w.cref.readsidePosted) func "nothing should be posted on readside at this point"

/-- `read_eagain`. -/
def readEagain (w : World L) : Except Fault (World L) := do
  w.assertReadEnd "read_eagain"
    "input_message_ptr NOT null should be handled by read_new_message"
  return { w with cref.readState := .eagained }

/-- `post_read_start`. -/
def postReadStart (w : World L) : Except Fault (World L) := do
  assertState (!w.cref.readsidePosted) "post_read_start" "read_side posted should be false"
  return { w with cref.readsidePosted := true }.post .postableReader

/-- `read_need_data`. -/
def readNeedData (w : World L) : Except Fault (World L) := do
  w.assertReadEnd "read_need_data" "input_message_ptr NOT null on incomplete read"
  w.postReadStart

/-- `read_error`. -/
def readError (w : World L) : Except Fault (World L) := do
  w.assertReadEnd "read_error" "input_message_ptr NOT null should not happen on read error"
  return { w with cref.readState := .stop, cref.writeState := .stop }.postClose

/-- The input buffer at the start of `reader`: allocated once, then reset. -/
def inputBuffer (w : World L) : IOBuffer :=
  match w.cref.activeInputBuffer with
  | none => IOBuffer.newWithCapacity w.memory readBufferSize
  | some iob => iob.reset

/-- The bytes `recv` puts into the input buffer. -/
def recvBytes (w : World L) (bs : List UInt8) : List UInt8 := bs.take w.inputBuffer.spaceLen.toNat

/-- `reader` once `recv` has returned some bytes: commit them and run the parser over them. -/
def consumeInput (w : World L) (nread : List UInt8) :
    Except Fault (World L × LlhttpErrno) := do
  let iob ← library ((w.inputBuffer.fill nread).commit nread.length)
  let (llhttp, (parser, inputMessage), ec) ← library
    (HttpParser.consume L asyncOnReadMessageComplete w.cref.llhttp
      (w.cref.parser, w.cref.inputMessage) iob.data)
  return ({ w with
    cref.activeInputBuffer := some iob
    cref.llhttp := llhttp
    cref.parser := parser
    cref.inputMessage := inputMessage
    received := w.received ++ [nread] }, ec)

/-- `reader` after the parser ran; `errno_save` is what `errno` held before `recv`, which
succeeded. -/
def afterConsume (w : World L) (errno : ℕ) (ec : LlhttpErrno) : Except Fault (World L) :=
  if w.cref.inputMessage.isSome then w.readNewMessage
  -- `errno` comes before the parser's verdict
  else if errno = eagain then w.readEagain
  else if ec = .ok then w.readNeedData
  else w.readError

/-- `reader` when `recv` returned no bytes. -/
def withInputBuffer (w : World L) : World L :=
  { w with cref.activeInputBuffer := some w.inputBuffer }

/-- `reader` from the call of `recv` on. -/
def receive (w : World L) (io : Io) : Except Fault (World L) :=
  match io.recv with
  | .got bs =>
    if w.recvBytes bs ≠ [] then do
      let (w, ec) ← w.consumeInput (w.recvBytes bs)
      w.afterConsume io.errno ec
    -- `nread == 0`: the peer closed the connection
    else w.withInputBuffer.readError
  | .fail errno =>
    if errno = eagain then w.withInputBuffer.readEagain else w.withInputBuffer.readError

/-- `reader`. -/
def reader (w : World L) (io : Io) : Except Fault (World L) := do
  assertState (w.cref.readState = .active) "reader" "invalid state"
  assertState w.cref.inputMessage.isNone "reader" "input_message_ptr not null - invalid state"
  w.receive io

/-- `async_connection_read`. -/
def asyncConnectionRead (w : World L) (io : Io) : Except Fault (World L) := do
  assertState (w.cref.readState = .idle) "async_connection_read"
    "can only call async_connection_read once"
  assertState w.cref.inputMessage.isNone "async_connection_read" "already a message waiting"
  let w := { w with cref.readState := .active }
  if w.cref.readsidePosted then return w else w.reader io

/-- `postable_reader`. -/
def postableReader (w : World L) (io : Io) : Except Fault (World L) := do
  assertState (w.cref.readState = .active) "postable_reader" "invalid state"
  assertState w.cref.readsidePosted "postable_reader" "read_side posted should be true"
  let w := { w with cref.readsidePosted := false }
  w.reader io

/-- `async_read_start`. -/
def asyncReadStart (w : World L) : Except Fault (World L) := do
  assertState (w.cref.readState = .active) "async_read_start" "invalid state"
  assertState (!w.cref.readsidePosted) "async_read_start" "read_side posted should be false"
  return { w with cref.readsidePosted := true }.post .postableReader

/-! ### Writing -/

/-- History: the newest response, changed. -/
def noteAnswer (w : World L) (f : Answer → Answer) : World L :=
  { w with answers := match w.answers with
      | [] => []
      | a :: as => f a :: as }

/-- `async_connection_write`. -/
def asyncConnectionWrite (w : World L) (response : Message) : Except Fault (World L) := do
  assertState (w.cref.writeState = .idle) "async_connection_write" "a write is already active"
  let iob ← library (response.serialize w.memory)
  return { w with
    cref.activeOutputBuffer := some iob
    cref.writeState := .active }.post .asyncPostableWriter

/-- `write_error`. -/
def writeError (w : World L) : World L :=
  { w with cref.readState := .stop, cref.writeState := .stop }.postClose.noteAnswer
    fun a => { a with failed := true }

/-- `writer` after `send` took the bytes `sent`, the first ones of the buffer. -/
def sentSome (w : World L) (iob : IOBuffer) (sent : List UInt8) : Except Fault (World L) := do
  let iob ← library (iob.consume sent.length)
  let w := w.noteAnswer fun a => { a with accepted := a.accepted ++ sent }
  -- an empty buffer is disposed of, any other stays where it is
  if iob.dataLen = 0 then
    return { w with
      cref.writeState := .idle
      cref.activeOutputBuffer := none }.post .postableWriteComplete
  else
    return { w with
      cref.writeState := .active
      cref.activeOutputBuffer := some iob }.post .asyncPostableWriter

/-- `writer`. -/
def writer (w : World L) (io : Io) : Except Fault (World L) :=
  match w.cref.activeOutputBuffer with
  | none => .error (.state "writer" "writer")
  | some iob =>
    match io.send with
    | .accepted n =>
      -- `nsend == 0` is taken for a closed socket
      if iob.data.take n ≠ [] then w.sentSome iob (iob.data.take n) else .ok w.writeError
    | .fail errno =>
      if errno = eagain then .ok { w with cref.writeState := .eagained } else .ok w.writeError

/-- `async_postable_writer`. -/
def asyncPostableWriter (w : World L) (io : Io) : Except Fault (World L) := do
  assertState w.cref.activeOutputBuffer.isSome "async_postable_writer" "post_write_handler"
  assertState (w.cref.writeState = .active) "async_postable_writer"
    "expect write_state to be active"
  w.writer io

/-! ### The handler -/

/-- `HEADER_CONNECTION_KEY`. -/
def headerConnectionKey : List UInt8 := ascii "CONNECTION"

/-- `HEADER_CONNECTION_CLOSE`. -/
def headerConnectionClose : List UInt8 := ascii "close"

/-- `HEADER_CONNECTION_KEEPALIVE`. -/
def headerConnectionKeepalive : List UInt8 := ascii "keep-alive"

/-- The request asks for the connection to be kept. -/
def keepAlive (request : Message) : Bool :=
  request.cmpHeader headerConnectionKey headerConnectionKeepalive = 1

/-- The response as `async_handler_handle_response` marks it. -/
def markConnection (request response : Message) : Message :=
  if keepAlive request then response.addHeaderCstring headerConnectionKey headerConnectionKeepalive
  else response.addHeaderCstring headerConnectionKey headerConnectionClose

/-- `async_handler_handle_response`. -/
def handleResponse (w : World L) (request response : Message) : Except Fault (World L) := do
  let w ← w.asyncConnectionWrite (markConnection request response)
  return { w with answers :=
    ⟨markConnection request response, !keepAlive request, [], 0, false, w.handed.length⟩ ::
      w.answers }

/-- `postable_handle_request` and the handler's `handle_request`: `process_request` answers at once
or keeps the request for later. -/
def postableHandleRequest (w : World L) (io : Io) : Except Fault (World L) :=
  match w.cref.scratchRequest with
  | none => .error (.state "postable_handle_request" "request should not be null")
  | some tmp =>
    let w := { w with cref.scratchRequest := none, handed := w.handed ++ [tmp] }
    if io.atOnce then w.handleResponse tmp io.reply else .ok { w with pending := some tmp }

/-- The application's functor. -/
def appFunctor (w : World L) (io : Io) : Except Fault (World L) :=
  match w.pending with
  | none => .ok w
  | some request => { w with pending := none }.handleResponse request io.reply

/-- `postable_write_complete` and `handle_write_complete`. -/
def postableWriteComplete (w : World L) (io : Io) : Except Fault (World L) :=
  (w.noteAnswer fun a => { a with completions := a.completions + 1 }).asyncConnectionRead io

/-- `postable_close_connection`, `handle_close_connection` and the disposals it leads to. -/
def postableCloseConnection (w : World L) : World L := { w with life := .freed }

/-! ### Events and steps -/

/-- `write_epollout`. -/
def writeEpollout (w : World L) : World L :=
  if w.cref.writeState = .eagained then
    { w with cref.writeState := .active }.post .asyncPostableWriter
  else w

/-- `read_epollin`. -/
def readEpollin (w : World L) : Except Fault (World L) :=
  if w.cref.readState = .eagained then { w with cref.readState := .active }.asyncReadStart
  else .ok w

/-- `async_event_handler`. -/
def asyncEventHandler (w : World L) (event : UInt64) : Except Fault (World L) :=
  -- both sides look at the event, the write side first
  let w := if event &&& epollout ≠ 0 then w.writeEpollout else w
  if event &&& epollin ≠ 0 then w.readEpollin else .ok w

/-- Call a functor taken off the ready list. -/
def call (w : World L) (io : Io) : Postable → Except Fault (World L)
  | .postableReader => w.postableReader io
  | .postableHandleRequest => w.postableHandleRequest io
  | .postableCloseConnection => .ok w.postableCloseConnection
  | .asyncPostableWriter => w.asyncPostableWriter io
  | .postableWriteComplete => w.postableWriteComplete io
  | .appFunctor => w.appFunctor io

/-- What can happen next: the connection is accepted (`async_handler_new`), `epoll` reports events
on its descriptor, the reactor calls its oldest functor, or the application posts the functor that
will answer the request it kept. -/
inductive Act
  | accept (io : Io)
  | event (mask : UInt64)
  | run (io : Io)
  | appPost

/-- One step; an action that cannot happen changes nothing. There are no events for a connection
that was freed: its descriptor is deregistered, and the reactor handles the events of one
`epoll_wait` before it runs functors. A functor that is called after the connection was freed is a
fault. -/
def step (w : World L) : Act → Except Fault (World L)
  | .accept io =>
    if w.life = .embryo then { w with life := .open }.asyncConnectionRead io else .ok w
  | .event mask => if w.life = .open then w.asyncEventHandler mask else .ok w
  | .run io =>
    match w.readyList with
    | [] => .ok w
    | f :: rest =>
      -- `CHECK_TAG` on a block whose tag `free` has spoiled
      if w.life = .open then { w with readyList := rest }.call io f
      else .error (.useAfterFree f)
  | .appPost =>
    if w.pending.isSome ∧ Postable.appFunctor ∉ w.readyList then .ok (w.post .appFunctor)
    else .ok w

end World

end CHttp
