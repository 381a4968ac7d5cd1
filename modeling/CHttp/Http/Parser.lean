import CHttp.Http.Message

/-!
# The parser's callbacks

`parser.c`. The bytes are tokenised by `llhttp`, which reports what it finds through callbacks; the
callbacks collect texts in four buffers and build one `Message` at a time, which
`message_complete_cb` hands to `on_message_handler`. A text may be reported in several pieces.

`LlEvent` lists the callbacks that do something, each with what it reads from the `llhttp` parser;
the others return `0` at once. `Llhttp` is the tokeniser: for a chunk of bytes, the callbacks it
makes and the error it returns, given that every callback returns `HPE_OK`.
-/

namespace CHttp

/-- A callback of `llhttp`, with its data and the parser fields it looks at. -/
inductive LlEvent
  | messageBegin
  | url (data : List UInt8)
  | status (statusCode : ℕ) (data : List UInt8)
  | headerField (data : List UInt8)
  | headerValue (data : List UInt8)
  | headersComplete (httpMajor httpMinor method : ℕ)
  | body (data : List UInt8)
  | messageComplete
  deriving DecidableEq, Repr

/-- `llhttp_errno_t`: `HPE_OK`, or one of the error codes. -/
inductive LlhttpErrno
  | ok
  | error (code : ℕ)
  deriving DecidableEq, Repr

/-- The tokeniser `llhttp`: its state, and for each call the callbacks made and the value
returned. -/
structure Llhttp where
  State : Type
  /-- `llhttp_init`. -/
  init : State
  /-- `llhttp_execute`. -/
  execute : State → List UInt8 → State × List LlEvent × LlhttpErrno
  /-- `llhttp_finish`. -/
  finish : State → State × List LlEvent × LlhttpErrno

/-- `m_header_state`. -/
inductive HeaderState
  | nothing
  | field
  | value
  deriving DecidableEq, Repr

/-- What the memory allocated for a parser's messages and bodies holds: one block for each
`Message_new`, and the memory of body buffers. -/
structure Heap where
  message : ℕ → Message.Junk
  body : ByteMemory

/-- Every block holds the same. -/
def Heap.const (j : Message.Junk) : Heap := ⟨fun _ => j, fun _ => 0⟩

/-- `http_parser_t`, its `llhttp` state apart. `allocated` counts the calls of `Message_new`. -/
structure HttpParser where
  headerState : HeaderState
  statusBuf : Cbuffer
  urlBuf : Cbuffer
  nameBuf : Cbuffer
  valueBuf : Cbuffer
  currentMessage : Option Message
  heap : Heap
  allocated : ℕ

namespace HttpParser

/-- `http_parser_new` and `http_parser_initialize`: the four buffers are made and cleared. A
message is allocated and dropped. -/
def new (heap : Heap) (junk : ByteMemory) : HttpParser where
  headerState := .nothing
  statusBuf := (Cbuffer.new junk).clear
  urlBuf := (Cbuffer.new junk).clear
  nameBuf := (Cbuffer.new junk).clear
  valueBuf := (Cbuffer.new junk).clear
  currentMessage := none
  heap := heap
  allocated := 1

/-- `Message_new` into `current_message_ptr`. -/
def newMessage (this : HttpParser) : HttpParser :=
  { this with
    currentMessage := some (Message.new (this.heap.message this.allocated))
    allocated := this.allocated + 1 }

/-- `current_message_ptr`, dereferenced in `func`. -/
def current (this : HttpParser) (func : String) : Except Abort Message :=
  match this.currentMessage with
  | some msg => .ok msg
  | none => .error ⟨func, "current_message_ptr is NULL"⟩

/-- `message_begin_cb`. `m_header_state` is left as it is. -/
def messageBeginCb (this : HttpParser) : HttpParser :=
  { this.newMessage with
    statusBuf := this.statusBuf.clear
    urlBuf := this.urlBuf.clear
    nameBuf := this.nameBuf.clear
    valueBuf := this.valueBuf.clear }

/-- `url_data_cb`. -/
def urlDataCb (this : HttpParser) (data : List UInt8) : Except Abort HttpParser := do
  let msg ← this.current "url_data_cb"
  let urlBuf ← this.urlBuf.append data
  return { this with currentMessage := some (msg.setIsRequest true), urlBuf }

/-- `status_data_cb`: the running total of the reason phrase goes into the message each time. -/
def statusDataCb (this : HttpParser) (statusCode : ℕ) (data : List UInt8) :
    Except Abort HttpParser := do
  let msg ← this.current "status_data_cb"
  let statusBuf ← this.statusBuf.append data
  -- asserts that the message has no reason yet, which a second piece finds false
  let msg ← ((msg.setIsRequest false).setStatus statusCode).setReasonCbuffer statusBuf
  return { this with currentMessage := some msg, statusBuf }

/-- The pair in the name and value buffers goes to the message, if there is a name. -/
def flushHeader (this : HttpParser) (func : String) : Except Abort HttpParser :=
  if this.nameBuf.size ≠ 0 then do
    let msg ← this.current func
    return { this with
      currentMessage := some (msg.addHeaderCbuf this.nameBuf this.valueBuf)
      nameBuf := this.nameBuf.clear
      valueBuf := this.valueBuf.clear }
  else .ok this

/-- The start of `header_field_data_cb`: a field after a value (or the first one) begins a new
pair. -/
def startField (this : HttpParser) : Except Abort HttpParser :=
  match this.headerState with
  | .nothing | .value => this.flushHeader "header_field_data_cb"
  | .field => .ok this

/-- `header_field_data_cb`. -/
def headerFieldDataCb (this : HttpParser) (data : List UInt8) : Except Abort HttpParser := do
  let this ← this.startField
  return { this with nameBuf := ← this.nameBuf.append data, headerState := .field }

/-- `header_value_data_cb`. -/
def headerValueDataCb (this : HttpParser) (data : List UInt8) : Except Abort HttpParser :=
  match this.headerState with
  | .field => do
    -- the first piece of a value replaces what the buffer held
    return { this with valueBuf := ← this.valueBuf.clear.append data, headerState := .value }
  | .value => do
    return { this with valueBuf := ← this.valueBuf.append data, headerState := .value }
  | .nothing => .error ⟨"header_value_data_cb", "false"⟩

/-- The end of `headers_complete_cb`: a message with a url gets its method and target. -/
def setRequestLine (this : HttpParser) (msg : Message) (method : ℕ) : Except Abort Message :=
  if this.urlBuf.size = 0 then .ok msg else (msg.setMethod method).setTargetCbuffer this.urlBuf

/-- `headers_complete_cb`. -/
def headersCompleteCb (this : HttpParser) (httpMajor httpMinor method : ℕ) :
    Except Abort HttpParser := do
  let this ← this.flushHeader "headers_complete_cb"
  let msg ← this.current "headers_complete_cb"
  let msg ← this.setRequestLine (msg.setVersion httpMajor httpMinor) method
  return { this with currentMessage := some msg }

/-- `body_data_cb`. -/
def bodyDataCb (this : HttpParser) (data : List UInt8) : Except Abort HttpParser := do
  let msg ← this.current "body_data_cb"
  let chain ← (msg.body.getD BufferChain.new).append this.heap.body data
  return { this with currentMessage := some (msg.setBody chain) }

variable {κ : Type}

/-- `message_complete_cb`. The next message is allocated before the handler is called; `onMessage`
is a handler that returns `HPE_OK`, acting on its context. -/
def messageCompleteCb (onMessage : κ → Message → κ) (this : HttpParser) (ctx : κ) :
    Except Abort (HttpParser × κ) := do
  let tmp ← this.current "message_complete_cb"
  return (this.newMessage, onMessage ctx tmp)

/-- The callback for an event. -/
def callback (onMessage : κ → Message → κ) (s : HttpParser × κ) :
    LlEvent → Except Abort (HttpParser × κ)
  | .messageBegin => .ok (s.1.messageBeginCb, s.2)
  | .url data => do return (← s.1.urlDataCb data, s.2)
  | .status code data => do return (← s.1.statusDataCb code data, s.2)
  | .headerField data => do return (← s.1.headerFieldDataCb data, s.2)
  | .headerValue data => do return (← s.1.headerValueDataCb data, s.2)
  | .headersComplete major minor method => do
    return (← s.1.headersCompleteCb major minor method, s.2)
  | .body data => do return (← s.1.bodyDataCb data, s.2)
  | .messageComplete => s.1.messageCompleteCb onMessage s.2

/-- The callbacks made in one call of `llhttp`. -/
def callbacks (onMessage : κ → Message → κ) (s : HttpParser × κ) (evs : List LlEvent) :
    Except Abort (HttpParser × κ) :=
  evs.foldlM (callback onMessage) s

/-- `http_parser_consume`: with no bytes `llhttp_finish`, else `llhttp_execute`. -/
def consume (L : Llhttp) (onMessage : κ → Message → κ) (ll : L.State) (s : HttpParser × κ)
    (buffer : List UInt8) : Except Abort (L.State × (HttpParser × κ) × LlhttpErrno) := do
  let (ll, evs, errno) := if buffer.length = 0 then L.finish ll else L.execute ll buffer
  return (ll, ← callbacks onMessage s evs, errno)

end HttpParser

end CHttp
