import CHttp.Common.BufferChain
import CHttp.Common.Cbuffer
import CHttp.ForMathlib.Http1
import CHttp.Http.HeaderList

/-!
# Messages

`message.c`. `Message_new` sets the body, the header list and the version and allocates the two
text buffers; the other fields, and the memory of the buffers, keep what the allocated block held
before. That block is a `Message.Junk`, so a field nobody has set yet reads as an arbitrary value.
-/

namespace CHttp

/-- `Message`. -/
structure Message where
  body : Option BufferChain
  headers : HdrList
  majorVers : ℕ
  minorVers : ℕ
  isRequest : Bool
  statusCode : ℕ
  reason : Cbuffer
  method : ℕ
  target : Cbuffer

namespace Message

/-- What the memory that `Message_new` allocates happens to hold. -/
structure Junk where
  isRequest : Bool
  statusCode : ℕ
  method : ℕ
  reason : ByteMemory
  target : ByteMemory

/-- Memory that happens to hold zeros. -/
def Junk.zeros : Junk := ⟨false, 0, 0, fun _ => 0, fun _ => 0⟩

/-- `Message_new`. -/
def new (junk : Junk) : Message where
  body := none
  headers := []
  majorVers := 1
  minorVers := 1
  isRequest := junk.isRequest
  statusCode := junk.statusCode
  reason := Cbuffer.new junk.reason
  method := junk.method
  target := Cbuffer.new junk.target

/-- `Message_new_request`. -/
def newRequest (junk : Junk) : Message := { new junk with isRequest := true }

/-- `Message_new_response`. -/
def newResponse (junk : Junk) : Message := { new junk with isRequest := false }

/-- `Message_set_is_request`. -/
def setIsRequest (this : Message) (yn : Bool) : Message := { this with isRequest := yn }

/-- `Message_set_status`. -/
def setStatus (this : Message) (status : ℕ) : Message := { this with statusCode := status }

/-- `Message_set_minor_version`. -/
def setMinorVersion (this : Message) (mv : ℕ) : Message := { this with minorVers := mv }

/-- `Message_set_version`: the major version is not used. -/
def setVersion (this : Message) (_majorVers minorVers : ℕ) : Message :=
  { this with minorVers := minorVers }

/-- `Message_set_method`. -/
def setMethod (this : Message) (method : ℕ) : Message := { this with method := method }

/-- `Message_set_target`. -/
def setTarget (this : Message) (targ : List UInt8) : Except Abort Message := do
  assertThat (this.target.size = 0) "Message_set_target"
    "(this->target != NULL) && (Cbuffer_size(this->target) == 0)"
  return { this with target := ← this.target.appendCstr targ }

/-- `Message_set_target_cbuffer`. -/
def setTargetCbuffer (this : Message) (target : Cbuffer) : Except Abort Message := do
  assertThat (this.target.size = 0) "Message_set_target_cbuffer"
    "(this->target != NULL) && (Cbuffer_size(this->target) == 0)"
  return { this with target := ← this.target.appendCstr (← target.cstr) }

/-- `Message_get_target_cbuffer`: a copy of the target, in a new buffer. -/
def getTargetCbuffer (junk : ByteMemory) (this : Message) : Except Abort Cbuffer := do
  (Cbuffer.new junk).appendCstr (← this.target.cstr)

/-- `Message_set_reason`. -/
def setReason (this : Message) (reason : List UInt8) : Except Abort Message := do
  assertThat (this.reason.size = 0) "Message_set_reason"
    "(this->reason != NULL) && (Cbuffer_size(this->reason) == 0)"
  return { this with reason := ← this.reason.appendCstr reason }

/-- `Message_set_reason_cbuffer`. -/
def setReasonCbuffer (this : Message) (target : Cbuffer) : Except Abort Message := do
  assertThat (this.reason.size = 0) "Message_set_reason_cbuffer"
    "(this->reason != NULL) && (Cbuffer_size(this->reason) == 0)"
  return { this with reason := ← this.reason.appendCstr (← target.cstr) }

/-- `Message_add_header_cbuf`. -/
def addHeaderCbuf (this : Message) (key value : Cbuffer) : Message :=
  { this with headers := this.headers.addBack (KVPair.new key.data value.data) }

/-- `Message_add_header_cstring`. -/
def addHeaderCstring (this : Message) (key value : List UInt8) : Message :=
  { this with headers := this.headers.addCstr key value }

/-- `Message_set_headers_arr`. -/
def setHeadersArr (this : Message) (ar : List (List UInt8 × List UInt8)) : Message :=
  { this with headers := this.headers.addArr ar }

/-- `Message_set_body`. -/
def setBody (this : Message) (bc : BufferChain) : Message := { this with body := some bc }

/-- `Message_get_header_value`. -/
def getHeaderValue (this : Message) (labptr : List UInt8) : Option (List UInt8) :=
  (this.headers.find labptr).map fun kvp => cString kvp.value

/-- `Message_cmp_header`: `-1` when there is no such header, else whether the first one has the
value, letter case apart. -/
def cmpHeader (this : Message) (key testValue : List UInt8) : ℤ :=
  match this.headers.find key with
  | none => -1
  | some kvp => if (cString kvp.value).map toUpper = (cString testValue).map toUpper then 1 else 0

/-! ### Serialising -/

/-- `llhttp_method_name`'s table, `HTTP_ALL_METHOD_MAP`. -/
def methodNames : List String :=
  ["DELETE", "GET", "HEAD", "POST", "PUT", "CONNECT", "OPTIONS", "TRACE", "COPY", "LOCK", "MKCOL",
    "MOVE", "PROPFIND", "PROPPATCH", "SEARCH", "UNLOCK", "BIND", "REBIND", "UNBIND", "ACL",
    "REPORT", "MKACTIVITY", "CHECKOUT", "MERGE", "M-SEARCH", "NOTIFY", "SUBSCRIBE", "UNSUBSCRIBE",
    "PATCH", "PURGE", "MKCALENDAR", "LINK", "UNLINK", "SOURCE", "PRI", "DESCRIBE", "ANNOUNCE",
    "SETUP", "PLAY", "PAUSE", "TEARDOWN", "GET_PARAMETER", "SET_PARAMETER", "REDIRECT", "RECORD",
    "FLUSH"]

/-- `llhttp_method_name`. -/
def llhttpMethodName (method : ℕ) : Except Abort (List UInt8) :=
  match methodNames[method]? with
  | some name => .ok (ascii name)
  | none => .error ⟨"llhttp_method_name", "abort"⟩

/-- `%d`. -/
def formatNat (n : ℕ) : List UInt8 := Http1.decimal n

/-- `Message_set_content_length`: the number is formatted into ten bytes. -/
def setContentLength (this : Message) (length : ℤ) : Except Abort Message := do
  assertThat (0 ≤ length) "Message_set_content_length" "length >= 0"
  let text := formatNat length.toNat
  assertThat (text.length < 10) "Message_set_content_length" "buf[10] overflows"
  return { this with
    headers := match this.headers.find (ascii "Content-length") with
      | some _ => this.headers.setValue (ascii "Content-length") text
      | none => this.headers.addCstr (ascii "Content-length") text }

/-- `%s` of `Cbuffer_data`: the bytes up to the first NUL, looked for in the block and in the
byte after it, where `Cbuffer_append` may have put it. -/
def formatCbuffer (cbuf : Cbuffer) : Except Abort (List UInt8) :=
  if 0 ∈ cbuf.mem.read 0 (cbuf.mCapacity + 1) then .ok (cbuf.mem.cstr (cbuf.mCapacity + 1))
  else .error ⟨"Message_serialize", "string runs past the end of its block"⟩

/-- The `HTTP/%d.%d` of a first line. -/
def formatVersion (this : Message) : List UInt8 :=
  ascii "HTTP/" ++ formatNat this.majorVers ++ ascii "." ++ formatNat this.minorVers

/-- The first line: `"%s %s HTTP/%d.%d\r\n"` or `"HTTP/%d.%d  %d %s\r\n"`. -/
def firstLine (this : Message) : Except Abort (List UInt8) :=
  if this.isRequest then do
    let meth ← llhttpMethodName this.method
    let target ← formatCbuffer this.target
    return meth ++ ascii " " ++ target ++ ascii " " ++ this.formatVersion ++ ascii "\r\n"
  else do
    let reason ← formatCbuffer this.reason
    return this.formatVersion ++ ascii "  " ++ formatNat this.statusCode ++ ascii " " ++ reason ++
      ascii "\r\n"

/-- A header line, `"%s: %s\r\n"`. -/
def headerLine (item : KVPair) : List UInt8 :=
  cString item.label ++ ascii ": " ++ cString item.value ++ ascii "\r\n"

/-- The loop of `Message_serialize` over the header list. -/
def appendHeaders (junk : ByteMemory) (bc : BufferChain) : HdrList → Except Abort BufferChain
  | [] => .ok bc
  | item :: rest => do appendHeaders junk (← bc.appendCstr junk (headerLine item)) rest

/-- The end of `Message_serialize`: the body's bytes as one more buffer. -/
def appendBody (junk : ByteMemory) (bc : BufferChain) (body : Option BufferChain) :
    Except Abort BufferChain :=
  match body with
  | some b => if b.size ≠ 0 then do return bc.addBack (← b.compact junk) else .ok bc
  | none => .ok bc

/-- `Message_serialize`; `junk` is the memory of the buffers it allocates. -/
def serialize (junk : ByteMemory) (this : Message) : Except Abort IOBuffer := do
  let bc ← BufferChain.new.appendCstr junk (← this.firstLine)
  let bc ← appendHeaders junk bc this.headers
  let bc ← bc.appendCstr junk (ascii "\r\n")
  let bc ← appendBody junk bc this.body
  bc.compact junk

/-- The rest of the lines that `Message_dump` puts around the body. -/
def dumpBar : List UInt8 :=
  ascii "===========================================================\r\n"

/-- `Message_dump`: as `Message_serialize`, with a line before and after the body. -/
def dump (junk : ByteMemory) (this : Message) : Except Abort IOBuffer := do
  let bc ← BufferChain.new.appendCstr junk (← this.firstLine)
  let bc ← appendHeaders junk bc this.headers
  let bc ← bc.appendCstr junk (ascii "\r\n")
  let bc ← bc.appendCstr junk (ascii "body begin " ++ dumpBar)
  let bc ← appendBody junk bc this.body
  let bc ← bc.appendCstr junk (ascii "body end " ++ dumpBar)
  bc.compact junk

private theorem valid_of_appendHeaders {junk : ByteMemory} {hdrs : HdrList} {bc bc' : BufferChain}
    (h : bc.Valid) (happ : appendHeaders junk bc hdrs = .ok bc') : bc'.Valid := by
  induction hdrs generalizing bc with
  | nil =>
    cases happ
    exact h
  | cons item rest ih =>
    rw [appendHeaders, Except.bind_eq_ok] at happ
    obtain ⟨bc₁, h₁, h₂⟩ := happ
    exact ih (BufferChain.valid_of_append h h₁).1 h₂

/-- The body adds its bytes after those that are there. -/
theorem data_of_appendBody {junk : ByteMemory} {bc bc' : BufferChain} {body : Option BufferChain}
    (happ : appendBody junk bc body = .ok bc') : bc.data <+: bc'.data := by
  cases body with
  | none =>
    cases happ
    exact List.prefix_rfl
  | some b =>
    by_cases h0 : b.size ≠ 0
    · simp only [appendBody, h0, ne_eq, not_false_eq_true, if_true] at happ
      rw [Except.bind_eq_ok] at happ
      obtain ⟨iob, -, hiob⟩ := happ
      cases hiob
      exact ⟨iob.data, by simp [BufferChain.data, BufferChain.addBack]⟩
    · simp only [appendBody, h0, if_false] at happ
      cases happ
      exact List.prefix_rfl

/-- **`Message_serialize`.** A buffer it returns has data, all of it unread. -/
theorem serialize_holds {junk : ByteMemory} {m : Message} {iob : IOBuffer}
    (h : m.serialize junk = .ok iob) : iob.Holds iob.data ∧ iob.data ≠ [] := by
  simp only [serialize, Except.bind_eq_ok] at h
  obtain ⟨line, -, bc₁, h₁, bc₂, h₂, bc₃, h₃, bc₄, h₄, h₅⟩ := h
  have hv₁ := (BufferChain.valid_of_append BufferChain.new_valid h₁).1
  have hv₂ := valid_of_appendHeaders hv₁ h₂
  have hd₃ := (BufferChain.valid_of_append hv₂ h₃).2
  have hne₃ : bc₃.data ≠ [] := by
    rw [hd₃]
    exact List.append_ne_nil_of_right_ne_nil _ (by decide)
  have hne₄ : bc₄.data ≠ [] := fun h0 =>
    hne₃ (List.prefix_nil.mp (h0 ▸ data_of_appendBody h₄))
  have hholds := BufferChain.holds_of_compact h₅
  rw [hholds.data_eq]
  exact ⟨hholds, hne₄⟩

end Message

end CHttp
