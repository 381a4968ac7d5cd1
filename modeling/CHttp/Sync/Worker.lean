import CHttp.Async.Connection

/-!
# A worker of the synchronous server

`sync_connection.c` and `worker.c`. A worker accepts a connection, reads requests from it and
answers them one by one with blocking calls, then accepts the next. Requests that a read completes
beyond the first wait in `input_list`; the worker reads again when the list is empty.

A `Worker` is the point where `Worker_main` waits for the world outside, with the connection it has
there, and a history. `Worker.step` runs it from one such point to the next: the action is what
`accept` or `read` returns, or what the application and `write` answer. `SYNC_WORKER_QUEUE` is not
defined, so each worker calls `accept` itself.

`sync_connection_close` is the one function that closes a socket, and `Worker_main` does not reach
it: the list of closed sockets is never added to.
-/

namespace CHttp

/-- `sync_connection_t`. `m_iobuffer` is made and disposed of, and `read_buffer_size` is stored;
neither is used. -/
structure SyncConnection (L : Llhttp) where
  llhttp : L.State
  parser : HttpParser
  socketfd : ℤ
  inputList : List Message
  readerStatus : Bool

namespace SyncConnection

variable {L : Llhttp}

/-- `sync_connection_new`. -/
def new (L : Llhttp) (socketfd : ℤ) (heap : Heap) (memory : ByteMemory) : SyncConnection L where
  llhttp := L.init
  parser := HttpParser.new heap memory
  socketfd := socketfd
  inputList := []
  readerStatus := false

/-- `parser_on_message_handler`, on `input_list` and `reader_status`. -/
def parserOnMessageHandler (s : List Message × Bool) (msg : Message) : List Message × Bool :=
  (s.1 ++ [msg], true)

/-- `HPE_USER`. -/
def hpeUser : LlhttpErrno := .error 24

/-- The length that `sync_connection_read` gives to `read`. -/
def readLength : ℕ := 999000

/-- The parser runs over a buffer. -/
def consume (this : SyncConnection L) (buffer : List UInt8) :
    Except Fault (SyncConnection L × LlhttpErrno) := do
  let (llhttp, (parser, inputList, readerStatus), rc) ← library
    (HttpParser.consume L parserOnMessageHandler this.llhttp
      (this.parser, this.inputList, this.readerStatus) buffer)
  return ({ this with llhttp, parser, inputList, readerStatus }, rc)

/-- `sync_connection_read` after the parser ran: the code it returns, or none when it goes round the
loop again. -/
def afterConsume (this : SyncConnection L) (rc : LlhttpErrno) :
    Except Fault (Option LlhttpErrno) :=
  -- the handler may have closed the socket
  if this.socketfd = -1 then .ok (some hpeUser)
  else if rc ≠ .ok then .ok (some rc)
  else if this.readerStatus then do
    assertState (0 < this.inputList.length) "sync_connection_read" "checking"
    return some .ok
  else .ok none

/-- One turn of the loop in `sync_connection_read`, with what `read` returned. A timeout is an error
of `read`. -/
def syncConnectionRead (this : SyncConnection L) (nread : RecvResult) :
    Except Fault (SyncConnection L × Option LlhttpErrno) :=
  match nread with
  | .got bs =>
    if bs.take readLength ≠ [] then do
      let (this, rc) ← this.consume (bs.take readLength)
      return (this, ← this.afterConsume rc)
    else .ok (this, some hpeUser)
  | .fail _ => .ok (this, some hpeUser)

/-- The end of `sync_connection_read_message`, which takes the first message of the list. -/
def takeMessage (this : SyncConnection L) :
    Except Fault (SyncConnection L × ℤ × Option Message) :=
  match this.inputList with
  | [] => .error (.state "sync_connection_read_message" "")
  | mref :: rest => .ok ({ this with inputList := rest }, 1, some mref)

/-- `invariant_gotone`. -/
def invariantGotone (this : SyncConnection L) (rc : LlhttpErrno) : Bool :=
  rc = .ok && this.readerStatus && 0 < this.inputList.length

/-- `invariant_goterror`. -/
def invariantGoterror (this : SyncConnection L) (rc : LlhttpErrno) : Bool :=
  rc ≠ .ok && !this.readerStatus && this.inputList.length ≤ 0

/-- `sync_connection_read_message` from the return of `sync_connection_read` on: what it returns and
what it puts into `msg_ptr`. -/
def afterRead (this : SyncConnection L) (rc : LlhttpErrno) :
    Except Fault (SyncConnection L × ℤ × Option Message) := do
  assertState (this.invariantGotone rc || this.invariantGoterror rc) "sync_connection_read_message"
    "invariants failed"
  -- `sync.h` says that the value for an error is 0
  if this.invariantGoterror rc then return (this, -1, none) else this.takeMessage

end SyncConnection

/-- Where `Worker_main` waits: in `accept`, in `read` with an empty list, in `app_handler` with a
request; or it has returned. -/
inductive Control (L : Llhttp)
  | accepting
  | reading (conn : SyncConnection L)
  | handling (conn : SyncConnection L) (request : Message)
  | exited

/-- What the application sees of the worker: a call of `app_handler`, and a `write` of the bytes of
a response. -/
inductive Note
  | called (request : Message)
  | wrote (response : Message) (bytes : List UInt8) (rc : SendResult)

/-- A worker. The history is about the connection it has now, the chunks read from it and the notes
(oldest first), and about all of them: the sockets accepted and those closed. -/
structure Worker (L : Llhttp) where
  control : Control L
  received : List (List UInt8)
  notes : List Note
  accepted : List ℤ
  closed : List ℤ

namespace Worker

variable {L : Llhttp}

/-- What the environment does next: `accept` returns, with the memory a new connection gets;
`read` returns; the application answers, with `NULL` or a response, and `write` returns, `memory`
being that of the buffers allocated meanwhile. -/
inductive Act
  | accept (sock2 : ℤ) (heap : Heap) (memory : ByteMemory)
  | read (nread : RecvResult)
  | handle (reply : Option Message) (memory : ByteMemory) (rc : SendResult)

/-- `Worker_main` at its first `accept`. -/
def init (L : Llhttp) : Worker L := ⟨.accepting, [], [], [], []⟩

/-- The worker's loop over a connection, from the return of `sync_connection_read_message` on. -/
def gotMessage (w : Worker L) (conn : SyncConnection L) (gotone : ℤ) (request : Option Message) :
    Except Fault (Worker L) :=
  if gotone ≠ 0 then
    match request with
    | none => .error (.state "Worker_main" "request should not be NULL")
    | some request => .ok { w with control := .handling conn request }
  -- out of the loop: `sync_connection_dispose`
  else .ok { w with control := .accepting }

/-- The worker calls `sync_connection_read_message`. -/
def readMessage (w : Worker L) (conn : SyncConnection L) : Except Fault (Worker L) :=
  if conn.inputList.length ≤ 0 then
    .ok { w with control := .reading { conn with readerStatus := false } }
  else do
    let (conn, gotone, request) ← conn.takeMessage
    w.gotMessage conn gotone request

/-- `accept` returns. -/
def accept (w : Worker L) (sock2 : ℤ) (heap : Heap) (memory : ByteMemory) :
    Except Fault (Worker L) :=
  if sock2 ≤ 0 then .ok { w with control := .exited }
  else { w with received := [], notes := [], accepted := w.accepted ++ [sock2] }.readMessage
    (.new L sock2 heap memory)

/-- History: the bytes that `read` returned. -/
def arrived (w : Worker L) : RecvResult → Worker L
  | .got bs =>
    if bs.take SyncConnection.readLength ≠ [] then
      { w with received := w.received ++ [bs.take SyncConnection.readLength] }
    else w
  | .fail _ => w

/-- `read` returns. -/
def read (w : Worker L) (conn : SyncConnection L) (nread : RecvResult) :
    Except Fault (Worker L) := do
  let w := w.arrived nread
  let (conn, rc) ← conn.syncConnectionRead nread
  match rc with
  | none => return { w with control := .reading conn }
  | some rc => do
    let (conn, gotone, request) ← conn.afterRead rc
    w.gotMessage conn gotone request

/-- `sync_connection_write`: one `write`, whose result the worker does not look at. -/
def syncConnectionWrite (w : Worker L) (response : Message) (memory : ByteMemory)
    (rc : SendResult) : Except Fault (Worker L) := do
  let serialized ← library (response.serialize memory)
  return { w with notes := w.notes ++ [Note.wrote response serialized.data rc] }

/-- The rest of the worker's loop: `app_handler` returns, the response is marked, both messages are
dumped, the response is written. -/
def handle (w : Worker L) (conn : SyncConnection L) (request : Message) (reply : Option Message)
    (memory : ByteMemory) (rc : SendResult) : Except Fault (Worker L) := do
  let w := { w with notes := w.notes ++ [Note.called request] }
  match reply with
  -- the header is added before the response is compared with `NULL`
  | none => .error (.library ⟨"Message_add_header_cstring", "this is NULL"⟩)
  | some response => do
    let response := World.markConnection request response
    let _ ← library (request.dump memory)
    let _ ← library (response.dump memory)
    let w ← w.syncConnectionWrite response memory rc
    if World.keepAlive request then w.readMessage conn
    -- out of the loop: `sync_connection_dispose`
    else return { w with control := .accepting }

/-- One action. What does not fit the point where the worker waits does nothing. -/
def step (w : Worker L) : Act → Except Fault (Worker L)
  | .accept sock2 heap memory =>
    match w.control with
    | .accepting => w.accept sock2 heap memory
    | _ => .ok w
  | .read nread =>
    match w.control with
    | .reading conn => w.read conn nread
    | _ => .ok w
  | .handle reply memory rc =>
    match w.control with
    | .handling conn request => w.handle conn request reply memory rc
    | _ => .ok w

end Worker

end CHttp
