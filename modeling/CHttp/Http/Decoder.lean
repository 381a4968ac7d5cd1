import CHttp.Http.Parser

/-!
# The decoder behind the parser

What the callbacks of `Http.Parser` do, without buffers: a `Decoder` has a byte string where the
parser has a `Cbuffer`, and a `MessageView` where it has a `Message`. Both keep the parser's
control structure, so `callbacks_rel` holds for every sequence of events: the parser aborts
exactly when the decoder does, and delivers the messages the decoder delivers. What is true of
the decoder is then true of the code.
-/

namespace CHttp

/-- What a message says, whatever memory it lies in. -/
structure MessageView where
  body : List UInt8
  headers : HdrList
  minorVers : ℕ
  isRequest : Bool
  statusCode : ℕ
  reason : List UInt8
  method : ℕ
  target : List UInt8
  deriving DecidableEq, Repr

/-- A message as its readers see it. -/
def Message.view (m : Message) : MessageView where
  body := m.body.elim [] BufferChain.data
  headers := m.headers
  minorVers := m.minorVers
  isRequest := m.isRequest
  statusCode := m.statusCode
  reason := m.reason.data
  method := m.method
  target := m.target.data

/-- The parser's state with byte strings for buffers. -/
structure Decoder where
  headerState : HeaderState
  status : List UInt8
  url : List UInt8
  name : List UInt8
  value : List UInt8
  current : Option MessageView
  allocated : ℕ
  deriving DecidableEq, Repr

namespace Decoder

variable (junk : ℕ → Message.Junk)

/-- A parser at its start. -/
def new : Decoder := ⟨.nothing, [], [], [], [], none, 1⟩

/-- A fresh message: the fields that `Message_new` does not set are those of the block. -/
def freshView (j : Message.Junk) : MessageView :=
  ⟨[], [], 1, j.isRequest, j.statusCode, [], j.method, []⟩

/-- `Message_new` into `current_message_ptr`. -/
def newMessage (d : Decoder) : Decoder :=
  { d with current := some (freshView (junk d.allocated)), allocated := d.allocated + 1 }

/-- `current_message_ptr`, dereferenced in `func`. -/
def getCurrent (d : Decoder) (func : String) : Except Abort MessageView :=
  match d.current with
  | some v => .ok v
  | none => .error ⟨func, "current_message_ptr is NULL"⟩

/-- `message_begin_cb`. -/
def messageBegin (d : Decoder) : Decoder :=
  { d.newMessage junk with status := [], url := [], name := [], value := [] }

/-- `url_data_cb`. -/
def urlData (d : Decoder) (data : List UInt8) : Except Abort Decoder := do
  let v ← d.getCurrent "url_data_cb"
  let url ← Cbuffer.appendBytes d.url data
  return { d with current := some { v with isRequest := true }, url }

/-- `Message_set_reason_cbuffer`. -/
def setReason (v : MessageView) (s : List UInt8) : Except Abort MessageView := do
  assertThat (v.reason.length = 0) "Message_set_reason_cbuffer"
    "(this->reason != NULL) && (Cbuffer_size(this->reason) == 0)"
  return { v with reason := ← Cbuffer.appendBytes v.reason (cString s) }

/-- `Message_set_target_cbuffer`. -/
def setTarget (v : MessageView) (s : List UInt8) : Except Abort MessageView := do
  assertThat (v.target.length = 0) "Message_set_target_cbuffer"
    "(this->target != NULL) && (Cbuffer_size(this->target) == 0)"
  return { v with target := ← Cbuffer.appendBytes v.target (cString s) }

/-- `status_data_cb`. -/
def statusData (d : Decoder) (statusCode : ℕ) (data : List UInt8) : Except Abort Decoder := do
  let v ← d.getCurrent "status_data_cb"
  let status ← Cbuffer.appendBytes d.status data
  let v ← setReason { v with isRequest := false, statusCode := statusCode } status
  return { d with current := some v, status }

/-- The pending pair goes to the message, if it has a name. -/
def flushHeader (d : Decoder) (func : String) : Except Abort Decoder :=
  if d.name.length ≠ 0 then do
    let v ← d.getCurrent func
    return { d with
      current := some { v with headers := v.headers.addBack (KVPair.new d.name d.value) }
      name := []
      value := [] }
  else .ok d

/-- The start of `header_field_data_cb`. -/
def startField (d : Decoder) : Except Abort Decoder :=
  match d.headerState with
  | .nothing | .value => d.flushHeader "header_field_data_cb"
  | .field => .ok d

/-- `header_field_data_cb`. -/
def headerFieldData (d : Decoder) (data : List UInt8) : Except Abort Decoder := do
  let d ← d.startField
  return { d with name := ← Cbuffer.appendBytes d.name data, headerState := .field }

/-- `header_value_data_cb`. -/
def headerValueData (d : Decoder) (data : List UInt8) : Except Abort Decoder :=
  match d.headerState with
  | .field => do
    return { d with value := ← Cbuffer.appendBytes [] data, headerState := .value }
  | .value => do
    return { d with value := ← Cbuffer.appendBytes d.value data, headerState := .value }
  | .nothing => .error ⟨"header_value_data_cb", "false"⟩

/-- The end of `headers_complete_cb`. -/
def setRequestLine (d : Decoder) (v : MessageView) (method : ℕ) : Except Abort MessageView :=
  if d.url.length = 0 then .ok v else setTarget { v with method := method } d.url

/-- `headers_complete_cb`. -/
def headersComplete (d : Decoder) (httpMinor method : ℕ) : Except Abort Decoder := do
  let d ← d.flushHeader "headers_complete_cb"
  let v ← d.getCurrent "headers_complete_cb"
  let v ← d.setRequestLine { v with minorVers := httpMinor } method
  return { d with current := some v }

/-- `BufferChain_append` to the body. -/
def extendBody (v : MessageView) (data : List UInt8) : Except Abort MessageView := do
  assertThat (data ≠ []) "IOBuffer_commit" "bytes_used > 0"
  return { v with body := v.body ++ data }

/-- `body_data_cb`. -/
def bodyData (d : Decoder) (data : List UInt8) : Except Abort Decoder := do
  let v ← d.getCurrent "body_data_cb"
  let v ← extendBody v data
  return { d with current := some v }

/-- `message_complete_cb`; the messages delivered are listed. -/
def messageComplete (d : Decoder) (ds : List MessageView) :
    Except Abort (Decoder × List MessageView) := do
  let tmp ← d.getCurrent "message_complete_cb"
  return (d.newMessage junk, ds ++ [tmp])

/-- The callback for an event. -/
def callback (s : Decoder × List MessageView) :
    LlEvent → Except Abort (Decoder × List MessageView)
  | .messageBegin => .ok (s.1.messageBegin junk, s.2)
  | .url data => do return (← s.1.urlData data, s.2)
  | .status code data => do return (← s.1.statusData code data, s.2)
  | .headerField data => do return (← s.1.headerFieldData data, s.2)
  | .headerValue data => do return (← s.1.headerValueData data, s.2)
  | .headersComplete _ minor method => do return (← s.1.headersComplete minor method, s.2)
  | .body data => do return (← s.1.bodyData data, s.2)
  | .messageComplete => s.1.messageComplete junk s.2

/-- The callbacks made in one call of `llhttp`. -/
def callbacks (s : Decoder × List MessageView) (evs : List LlEvent) :
    Except Abort (Decoder × List MessageView) :=
  evs.foldlM (callback junk) s

end Decoder

/-! ### The parser implements the decoder -/

/-- The message `m` says `v`, and its buffers are sound. -/
structure Message.Rep (m : Message) (v : MessageView) : Prop where
  body : match m.body with
    | none => v.body = []
    | some bc => bc.Valid ∧ bc.data = v.body
  headers : m.headers = v.headers
  minorVers : m.minorVers = v.minorVers
  isRequest : m.isRequest = v.isRequest
  statusCode : m.statusCode = v.statusCode
  reason : m.reason.Holds v.reason
  method : m.method = v.method
  target : m.target.Holds v.target

private theorem Message.Rep.view_eq {m : Message} {v : MessageView} (h : m.Rep v) : m.view = v := by
  have hbody : m.body.elim [] BufferChain.data = v.body := by
    have := h.body
    cases hb : m.body with
    | none =>
      rw [hb] at this
      exact this.symm
    | some bc =>
      rw [hb] at this
      exact this.2
  rw [Message.view, hbody, h.headers, h.minorVers, h.isRequest, h.statusCode, h.method,
    h.reason.data_eq, h.target.data_eq]

/-- A fresh message. -/
theorem Message.new_rep (j : Message.Junk) : (Message.new j).Rep (Decoder.freshView j) :=
  ⟨rfl, rfl, rfl, rfl, rfl, Cbuffer.new_holds _, rfl, Cbuffer.new_holds _⟩

namespace Message.Rep

variable {m : Message} {v : MessageView} (h : m.Rep v)

include h

theorem setIsRequest (yn : Bool) : (m.setIsRequest yn).Rep { v with isRequest := yn } :=
  { h with isRequest := rfl }

theorem setStatus (status : ℕ) : (m.setStatus status).Rep { v with statusCode := status } :=
  { h with statusCode := rfl }

theorem setVersion (major minor : ℕ) :
    (m.setVersion major minor).Rep { v with minorVers := minor } :=
  { h with minorVers := rfl }

theorem setMethod (method : ℕ) : (m.setMethod method).Rep { v with method := method } :=
  { h with method := rfl }

theorem addHeaderCbuf {key value : Cbuffer} {k s : List UInt8} (hk : key.Holds k)
    (hv : value.Holds s) :
    (m.addHeaderCbuf key value).Rep
      { v with headers := v.headers.addBack (KVPair.new k s) } :=
  { h with
    headers := by
      change m.headers.addBack _ = _
      rw [hk.data_eq, hv.data_eq, h.headers] }

theorem setReasonCbuffer {target : Cbuffer} {s : List UInt8} (ht : target.HoldsCstr s) :
    Except.Rel Message.Rep (m.setReasonCbuffer target) (Decoder.setReason v s) := by
  unfold Message.setReasonCbuffer Decoder.setReason
  rw [h.reason.size_eq, ht.cstr_eq]
  by_cases h0 : v.reason.length = 0
  · simp only [h0, decide_true, assertThat_true]
    have happ := h.reason.append_rel (cString s)
    rw [← cString_takeWhile] at happ ⊢
    exact happ.bind fun c t hc => .ok { h with reason := hc }
  · simp only [h0, decide_false, assertThat_false]
    exact .error _

theorem setTargetCbuffer {target : Cbuffer} {s : List UInt8} (ht : target.HoldsCstr s) :
    Except.Rel Message.Rep (m.setTargetCbuffer target) (Decoder.setTarget v s) := by
  unfold Message.setTargetCbuffer Decoder.setTarget
  rw [h.target.size_eq, ht.cstr_eq]
  by_cases h0 : v.target.length = 0
  · simp only [h0, decide_true, assertThat_true]
    have happ := h.target.append_rel (cString s)
    rw [← cString_takeWhile] at happ ⊢
    exact happ.bind fun c t hc => .ok { h with target := hc }
  · simp only [h0, decide_false, assertThat_false]
    exact .error _

/-- A piece of the body. -/
theorem appendBody (junk : ByteMemory) (data : List UInt8) :
    Except.Rel (fun bc v' => (m.setBody bc).Rep v')
      ((m.body.getD BufferChain.new).append junk data) (Decoder.extendBody v data) := by
  have hchain : (m.body.getD BufferChain.new).Valid ∧
      (m.body.getD BufferChain.new).data = v.body := by
    have hb := h.body
    cases hm : m.body with
    | none =>
      rw [hm] at hb
      exact ⟨BufferChain.new_valid, hb.symm⟩
    | some bc =>
      rw [hm] at hb
      exact hb
  by_cases hd : data = []
  · subst hd
    rw [BufferChain.append_nil junk hchain.1]
    exact .error _
  · obtain ⟨bc', heq, hv, hdata⟩ := BufferChain.append_spec junk hchain.1 hd
    simp only [heq, Decoder.extendBody, ne_eq, hd, not_false_eq_true, decide_true,
      assertThat_true]
    exact .ok { h with body := ⟨hv, by rw [hdata, hchain.2]⟩ }

end Message.Rep

namespace HttpParser

variable {junk : ℕ → Message.Junk}

/-- The parser is in the decoder's state, its messages allocated in the blocks `junk`. -/
structure Rep (junk : ℕ → Message.Junk) (p : HttpParser) (d : Decoder) : Prop where
  headerState : p.headerState = d.headerState
  status : p.statusBuf.HoldsCstr d.status
  url : p.urlBuf.HoldsCstr d.url
  name : p.nameBuf.HoldsCstr d.name
  value : p.valueBuf.HoldsCstr d.value
  current : Option.Rel Message.Rep p.currentMessage d.current
  heap : p.heap.message = junk
  allocated : p.allocated = d.allocated

theorem new_rep (heap : Heap) (buf : ByteMemory) :
    (new heap buf).Rep heap.message Decoder.new :=
  ⟨rfl, Cbuffer.new_clear_holdsCstr _, Cbuffer.new_clear_holdsCstr _,
    Cbuffer.new_clear_holdsCstr _, Cbuffer.new_clear_holdsCstr _, .none, rfl, rfl⟩

namespace Rep

variable {p : HttpParser} {d : Decoder} (h : p.Rep junk d)

include h

private theorem current_rel (func : String) :
    Except.Rel Message.Rep (p.current func) (d.getCurrent func) := by
  have hc := h.current
  unfold HttpParser.current Decoder.getCurrent
  revert hc
  cases p.currentMessage <;> cases d.current <;> intro hc <;> cases hc
  · exact .error _
  · exact .ok ‹_›

theorem newMessage : p.newMessage.Rep junk (d.newMessage junk) :=
  { h with
    current := .some (by rw [h.heap, h.allocated]; exact Message.new_rep _)
    allocated := congrArg (· + 1) h.allocated }

theorem messageBegin : p.messageBeginCb.Rep junk (d.messageBegin junk) :=
  { h.newMessage with
    status := h.status.clear
    url := h.url.clear
    name := h.name.clear
    value := h.value.clear }

theorem urlData (data : List UInt8) :
    Except.Rel (Rep junk) (p.urlDataCb data) (d.urlData data) :=
  (h.current_rel _).bind fun _ _ hm => (h.url.append_rel data).bind fun _ _ hu =>
    .ok { h with current := .some (hm.setIsRequest true), url := hu }

theorem statusData (code : ℕ) (data : List UInt8) :
    Except.Rel (Rep junk) (p.statusDataCb code data) (d.statusData code data) :=
  (h.current_rel _).bind fun _ _ hm => (h.status.append_rel data).bind fun _ _ hs =>
    (((hm.setIsRequest false).setStatus code).setReasonCbuffer hs).bind fun _ _ hm' =>
      .ok { h with current := .some hm', status := hs }

theorem flushHeader (func : String) :
    Except.Rel (Rep junk) (p.flushHeader func) (d.flushHeader func) := by
  unfold HttpParser.flushHeader Decoder.flushHeader
  rw [h.name.size_eq]
  split
  · exact (h.current_rel func).bind fun _ _ hm =>
      .ok { h with
        current := .some (hm.addHeaderCbuf h.name.toHolds h.value.toHolds)
        name := h.name.clear
        value := h.value.clear }
  · exact .ok h

theorem startField : Except.Rel (Rep junk) p.startField d.startField := by
  unfold HttpParser.startField Decoder.startField
  rw [h.headerState]
  cases d.headerState with
  | nothing => exact h.flushHeader _
  | field => exact .ok h
  | value => exact h.flushHeader _

theorem headerFieldData (data : List UInt8) :
    Except.Rel (Rep junk) (p.headerFieldDataCb data) (d.headerFieldData data) :=
  h.startField.bind fun _ _ h' => (h'.name.append_rel data).bind fun _ _ hn =>
    .ok { h' with name := hn, headerState := rfl }

theorem headerValueData (data : List UInt8) :
    Except.Rel (Rep junk) (p.headerValueDataCb data) (d.headerValueData data) := by
  unfold HttpParser.headerValueDataCb Decoder.headerValueData
  rw [h.headerState]
  cases d.headerState with
  | nothing => exact .error _
  | field =>
    exact (h.value.clear.append_rel data).bind fun _ _ hv =>
      .ok { h with value := hv, headerState := rfl }
  | value =>
    exact (h.value.append_rel data).bind fun _ _ hv =>
      .ok { h with value := hv, headerState := rfl }

theorem setRequestLine {m : Message} {v : MessageView} (hm : m.Rep v) (method : ℕ) :
    Except.Rel Message.Rep (p.setRequestLine m method) (d.setRequestLine v method) := by
  unfold HttpParser.setRequestLine Decoder.setRequestLine
  rw [h.url.size_eq]
  split
  · exact .ok hm
  · exact (hm.setMethod method).setTargetCbuffer h.url

theorem headersComplete (major minor method : ℕ) :
    Except.Rel (Rep junk) (p.headersCompleteCb major minor method)
      (d.headersComplete minor method) :=
  (h.flushHeader _).bind fun _ _ h' => (h'.current_rel _).bind fun _ _ hm =>
    (h'.setRequestLine (hm.setVersion major minor) method).bind fun _ _ hm' =>
      .ok { h' with current := .some hm' }

theorem bodyData (data : List UInt8) :
    Except.Rel (Rep junk) (p.bodyDataCb data) (d.bodyData data) :=
  (h.current_rel _).bind fun _ _ hm => (hm.appendBody _ data).bind fun _ _ hm' =>
    .ok { h with current := .some hm' }

end Rep

/-- The parser with the messages delivered so far is where the decoder is. -/
def RepList (junk : ℕ → Message.Junk) (s : HttpParser × List Message)
    (t : Decoder × List MessageView) : Prop :=
  s.1.Rep junk t.1 ∧ s.2.map Message.view = t.2

/-- A handler that lists the messages it is given. -/
def collect (ds : List Message) (m : Message) : List Message := ds ++ [m]

/-- **One callback.** Parser and decoder abort alike, or go to corresponding states. -/
theorem callback_rel {s : HttpParser × List Message} {t : Decoder × List MessageView}
    (h : RepList junk s t) (ev : LlEvent) :
    Except.Rel (RepList junk) (callback collect s ev) (Decoder.callback junk t ev) := by
  obtain ⟨hp, hl⟩ := h
  cases ev with
  | messageBegin => exact .ok ⟨hp.messageBegin, hl⟩
  | url data => exact (hp.urlData data).bind fun _ _ h' => .ok ⟨h', hl⟩
  | status code data => exact (hp.statusData code data).bind fun _ _ h' => .ok ⟨h', hl⟩
  | headerField data => exact (hp.headerFieldData data).bind fun _ _ h' => .ok ⟨h', hl⟩
  | headerValue data => exact (hp.headerValueData data).bind fun _ _ h' => .ok ⟨h', hl⟩
  | headersComplete major minor method =>
    exact (hp.headersComplete major minor method).bind fun _ _ h' => .ok ⟨h', hl⟩
  | body data => exact (hp.bodyData data).bind fun _ _ h' => .ok ⟨h', hl⟩
  | messageComplete =>
    refine (hp.current_rel _).bind fun m v hm => .ok ⟨hp.newMessage, ?_⟩
    change (s.2 ++ [m]).map Message.view = t.2 ++ [v]
    rw [List.map_append, hl, List.map_singleton, hm.view_eq]

/-- **The parser implements the decoder**, over every sequence of events. -/
theorem callbacks_rel {s : HttpParser × List Message} {t : Decoder × List MessageView}
    (h : RepList junk s t) (evs : List LlEvent) :
    Except.Rel (RepList junk) (callbacks collect s evs) (Decoder.callbacks junk t evs) := by
  induction evs generalizing s t with
  | nil => exact .ok h
  | cons ev evs ih =>
    simp only [callbacks, Decoder.callbacks, List.foldlM_cons]
    exact (callback_rel h ev).bind fun _ _ h' => ih h'

end HttpParser

end CHttp
