import CHttp.Async.Connection
import CHttp.Http.ContentLength

/-!
# The example application

`async_process_request.c`, and the same `app_handler_example` in `sync_handler_example.c`. A request
for `/echo` is answered with its own text as the body and its echo id in the header; any other one
with a page that has the date, the socket and the thread in it. Either way the bytes of the response
are known from the request and the page (`bytes_of_appHandlerExample`).
-/

namespace CHttp

namespace Message

/-- `HEADER_ECHO_ID`. -/
def headerEchoId : List UInt8 := ascii "C-HTTP-ECHO-ID"

/-- `HEADER_CONTENT_TYPE`. -/
def headerContentType : List UInt8 := ascii "CONTENT-TYPE"

/-- What `simple_response_body` is told: the date as `strftime` writes it (nothing when it does not
fit), the socket, and the number that `%ld` makes of the thread. -/
structure PageInfo where
  dtS : List UInt8
  socket : ℕ
  pthreadSelf : ℤ

/-- `%ld`. -/
def formatInt (n : ℤ) : List UInt8 :=
  if n < 0 then ascii "-" ++ formatNat n.natAbs else formatNat n.toNat

/-- The format of `simple_response_body`, filled in. -/
def pageText (message : List UInt8) (info : PageInfo) : List UInt8 :=
  ascii "<html><head></head><body>" ++ cString message ++ ascii "<p>Date/Time is " ++
    cString info.dtS ++ ascii "</p><p>socket: " ++ formatNat info.socket ++
    ascii "</p><p>p_thread_self " ++ formatInt info.pthreadSelf ++ ascii "</p></body></html>"

/-- `simple_response_body`. -/
def simpleResponseBody (memory : ByteMemory) (message : List UInt8) (info : PageInfo) :
    Except Abort BufferChain := do
  assertThat (info.dtS ≠ []) "simple_response_body" "strftime(dt_s, sizeof(dt_s), %c, tm)"
  BufferChain.new.appendCstr memory (pageText message info)

/-- `echo_body_buffer_chain`. -/
def echoBodyBufferChain (memory : ByteMemory) (request : Message) : Except Abort BufferChain := do
  BufferChain.new.appendIOBuffer memory (← request.serialize memory)

/-- The message on the page. -/
def pageMessage : List UInt8 := ascii "<h2>this is a message</h2>"

/-- The first half of `app_handler_example`: the response with the echo id, and its body. -/
def appBody (junk : Junk) (memory : ByteMemory) (info : PageInfo) (request : Message) :
    Except Abort (Message × BufferChain) := do
  let response := newResponse junk
  let target ← request.getTargetCbuffer memory
  let targetCstr ← target.cstr
  if targetCstr = ascii "/echo" then do
    let response := match request.getHeaderValue headerEchoId with
      | some echoValue => response.addHeaderCstring headerEchoId echoValue
      | none => response
    return (response, ← echoBodyBufferChain memory request)
  else return (response, ← simpleResponseBody memory pageMessage info)

/-- `app_handler_example`. Only the asynchronous one serialises both messages before it returns,
which can only abort. -/
def appHandlerExample (junk : Junk) (memory : ByteMemory) (info : PageInfo) (request : Message) :
    Except Abort Message := do
  let (response, bodyChain) ← appBody junk memory info request
  let response ← (response.setStatus 200).setReason (ascii "OK")
  let response := response.addHeaderCstring headerContentType (ascii "text/html; charset=UTF-8")
  (response.setBody bodyChain).setContentLength bodyChain.size

/-- `process_request` up to its call of `handle_response`. -/
def processRequest (junk : Junk) (memory : ByteMemory) (info : PageInfo) (request : Message) :
    Except Abort Message := do
  let _ ← request.dump memory
  let reply ← appHandlerExample junk memory info request
  let _ ← request.serialize memory
  let _ ← reply.serialize memory
  let _ ← reply.dump memory
  return reply

/-! ### The response -/

/-- The body of the response to a request. -/
inductive AnswerBody (request : Message) : List UInt8 → Prop
  | echo {memory iob} (htarget : request.target.cstr = .ok (ascii "/echo"))
      (hser : request.serialize memory = .ok iob) : AnswerBody request iob.data
  | page {target} (htarget : request.target.cstr = .ok target) (hne : target ≠ ascii "/echo")
      (info : PageInfo) : AnswerBody request (pageText pageMessage info)

/-- The header line with the echo id, in the response to a request for `/echo` that has one. -/
def echoLine (request : Message) : List UInt8 :=
  if request.target.cstr = .ok (ascii "/echo") then
    match request.getHeaderValue headerEchoId with
    | some echoValue => ascii "C-HTTP-ECHO-ID: " ++ echoValue ++ ascii "\r\n"
    | none => []
  else []

/-- The bytes of the response to a request, from its body. -/
def answerBytes (request : Message) (body : List UInt8) : List UInt8 :=
  ascii "HTTP/1.1  200 OK\r\n" ++ echoLine request ++
    ascii "CONTENT-TYPE: text/html; charset=UTF-8\r\n" ++
    ascii "CONTENT-LENGTH: " ++ formatNat body.length ++ ascii "\r\n" ++
    ascii "CONNECTION: " ++
      (if World.keepAlive request then ascii "keep-alive" else ascii "close") ++ ascii "\r\n" ++
    ascii "\r\n" ++ body

section Proofs

variable {junk : Junk} {memory : ByteMemory} {info : PageInfo} {request : Message}

/-- The line of a header whose name is in capitals. -/
theorem headerLine_new {key : List UInt8} (hkey : makeUpper key = key) (value : List UInt8) :
    headerLine (KVPair.new (cString key) (cString value)) =
      key ++ ascii ": " ++ cString value ++ ascii "\r\n" := by
  have hname : cString (KVPair.new (cString key) (cString value)).label = key := by
    change cString (makeUpper key) = key
    rw [HdrList.cString_makeUpper, hkey]
  rw [headerLine, hname]
  exact congrArg (key ++ ascii ": " ++ · ++ ascii "\r\n") (cString_takeWhile value)

/-- The body for `/echo`. -/
theorem echoBodyBufferChain_spec {bc : BufferChain}
    (h : echoBodyBufferChain memory request = .ok bc) :
    ∃ iob, request.serialize memory = .ok iob ∧ bc.Valid ∧ bc.data = iob.data := by
  rw [echoBodyBufferChain, Except.bind_eq_ok] at h
  obtain ⟨iob, hser, happ⟩ := h
  obtain ⟨hv, hd⟩ := BufferChain.valid_of_append BufferChain.new_valid happ
  exact ⟨iob, hser, hv, hd⟩

private theorem zero_notMem_formatInt (n : ℤ) : 0 ∉ formatInt n := by
  unfold formatInt
  split
  · simp only [List.mem_append, not_or]
    exact ⟨by decide, zero_notMem_formatNat _⟩
  · exact zero_notMem_formatNat _

private theorem zero_notMem_pageText (message : List UInt8) (info : PageInfo) :
    0 ∉ pageText message info := by
  simp only [pageText, List.mem_append, not_or]
  exact ⟨⟨⟨⟨⟨⟨⟨⟨by decide, zero_notMem_cString _⟩, by decide⟩, zero_notMem_cString _⟩, by decide⟩,
    zero_notMem_formatNat _⟩, by decide⟩, zero_notMem_formatInt _⟩, by decide⟩

/-- The page. -/
theorem simpleResponseBody_spec {message : List UInt8} {bc : BufferChain}
    (h : simpleResponseBody memory message info = .ok bc) :
    bc.Valid ∧ bc.data = pageText message info := by
  rw [simpleResponseBody, Except.bind_eq_ok] at h
  obtain ⟨⟨⟩, -, happ⟩ := h
  obtain ⟨hv, hd⟩ := BufferChain.valid_of_append BufferChain.new_valid happ
  exact ⟨hv, hd.trans (cString_eq_self.mpr (zero_notMem_pageText message info))⟩

/-- The copy of the target that the handler looks at. -/
private theorem cstr_getTargetCbuffer {target : Cbuffer} {t : List UInt8}
    (h : request.getTargetCbuffer memory = .ok target) (ht : target.cstr = .ok t) :
    request.target.cstr = .ok t := by
  simp only [getTargetCbuffer, Except.bind_eq_ok] at h
  obtain ⟨s, hs, happ⟩ := h
  have h0 : 0 ∉ s := by
    simp only [Cbuffer.cstr, Except.bind_eq_ok] at hs
    obtain ⟨-, -, heq⟩ := hs
    cases heq
    exact fun h0 => by simpa using List.mem_takeWhile_imp h0
  rw [hs, Cbuffer.eq_of_copy h0 happ ht]

/-- **The first half of `app_handler_example`.** The response has at most the echo id, which is not
the header for the length. -/
theorem appBody_spec {response : Message} {bc : BufferChain}
    (h : appBody junk memory info request = .ok (response, bc)) :
    ∃ hdrs : HdrList, response = { newResponse junk with headers := hdrs } ∧
      hdrs.flatMap headerLine = echoLine request ∧
      (∀ kvp ∈ hdrs, kvp.name ≠ makeUpper (ascii "Content-length")) ∧
      bc.Valid ∧ AnswerBody request bc.data := by
  simp only [appBody, Except.bind_eq_ok] at h
  obtain ⟨copy, hcopy, target, hcstr, h⟩ := h
  have htarget := cstr_getTargetCbuffer hcopy hcstr
  by_cases hecho : target = ascii "/echo"
  · subst hecho
    simp only [if_true, Except.bind_eq_ok] at h
    obtain ⟨bc', hbody, heq⟩ := h
    cases heq
    obtain ⟨iob, hser, hv, hd⟩ := echoBodyBufferChain_spec hbody
    have hbody' : AnswerBody request bc.data := hd ▸ .echo htarget hser
    cases hvalue : request.getHeaderValue headerEchoId with
    | none =>
      refine ⟨[], rfl, ?_, List.forall_mem_nil _, hv, hbody'⟩
      simp [echoLine, htarget, hvalue]
    | some echoValue =>
      refine ⟨[KVPair.new (cString headerEchoId) (cString echoValue)], rfl, ?_, ?_, hv, hbody'⟩
      · -- a value that was found is a C string already
        have hcstr : cString echoValue = echoValue := by
          rw [getHeaderValue, Option.map_eq_some_iff] at hvalue
          obtain ⟨kvp, -, rfl⟩ := hvalue
          exact cString_takeWhile _
        rw [List.flatMap_singleton, headerLine_new (by decide), hcstr]
        simp only [echoLine, htarget, hvalue, if_true]
        rfl
      · refine List.forall_mem_singleton.mpr ?_
        change cString (makeUpper headerEchoId) ≠ makeUpper (ascii "Content-length")
        decide
  · simp only [hecho, if_false, Except.bind_eq_ok] at h
    obtain ⟨bc', hbody, heq⟩ := h
    cases heq
    obtain ⟨hv, hd⟩ := simpleResponseBody_spec hbody
    refine ⟨[], rfl, ?_, List.forall_mem_nil _, hv, hd ▸ .page htarget hecho info⟩
    simp [echoLine, htarget, hecho]

/-- A short reason for a new response. -/
theorem setReason_ok {m m' : Message} (hm : m.reason = Cbuffer.new junk.reason)
    (h : m.setReason (ascii "OK") = .ok m') :
    ∃ reason, m' = { m with reason } ∧ formatCbuffer reason = .ok (ascii "OK") := by
  simp only [setReason, Except.bind_eq_ok] at h
  obtain ⟨⟨⟩, -, reason, hreason, heq⟩ := h
  cases heq
  have hempty : m.reason.Holds [] := hm ▸ Cbuffer.new_holds _
  refine ⟨reason, rfl, ?_⟩
  have htext := Cbuffer.Text.of_appendCstr hempty hreason
  have hdata : reason.data = ascii "OK" := by
    have hne : ascii "OK" ≠ [] := by decide
    obtain ⟨c, hc, hholds⟩ := Cbuffer.append_holdsCstr hempty hne (by decide)
    cases hc.symm.trans hreason
    exact hholds.data_eq
  obtain ⟨hcstr, h0, hcap⟩ := htext.holdsCstr (by rw [hdata]; decide)
  rw [formatCbuffer_eq hcstr h0 hcap, hdata]

/-- The value that `async_handler_handle_response` puts under `CONNECTION`. -/
def connectionValue (request : Message) : List UInt8 :=
  if World.keepAlive request then ascii "keep-alive" else ascii "close"

private theorem markConnection_eq (request reply : Message) : World.markConnection request reply =
    { reply with
      headers := reply.headers.addCstr (ascii "CONNECTION") (connectionValue request) } := by
  unfold World.markConnection connectionValue
  split <;> rfl

private theorem cString_connectionValue (request : Message) :
    cString (connectionValue request) = connectionValue request := by
  unfold connectionValue
  split <;> decide

/-- The header lines of the response, from those before the content type. -/
theorem flatMap_headerLine_answer {hdrs : HdrList} {line : List UInt8}
    (hline : hdrs.flatMap headerLine = line)
    (hnames : ∀ kvp ∈ hdrs, kvp.name ≠ makeUpper (ascii "Content-length")) (n : ℕ)
    (request : Message) :
    (((hdrs.addCstr headerContentType (ascii "text/html; charset=UTF-8")).store
      (ascii "Content-length") (formatNat n)).addCstr (ascii "CONNECTION")
        (connectionValue request)).flatMap headerLine =
      line ++ ascii "CONTENT-TYPE: text/html; charset=UTF-8\r\n" ++
        (ascii "CONTENT-LENGTH: " ++ formatNat n ++ ascii "\r\n") ++
        (ascii "CONNECTION: " ++ connectionValue request ++ ascii "\r\n") := by
  have hnames' : ∀ kvp ∈ hdrs.addCstr headerContentType (ascii "text/html; charset=UTF-8"),
      kvp.name ≠ makeUpper (ascii "Content-length") := by
    refine List.forall_mem_append.mpr ⟨hnames, List.forall_mem_singleton.mpr ?_⟩
    decide
  have hlength : headerLine ⟨makeUpper (ascii "Content-length"), formatNat n⟩ =
      ascii "CONTENT-LENGTH: " ++ formatNat n ++ ascii "\r\n" := by
    rw [headerLine, cString_eq_self.mpr (zero_notMem_formatNat n)]
    rfl
  have htype : headerLine (KVPair.new (cString headerContentType)
      (cString (ascii "text/html; charset=UTF-8"))) =
        ascii "CONTENT-TYPE: text/html; charset=UTF-8\r\n" := by
    decide
  have hconn : headerLine (KVPair.new (cString (ascii "CONNECTION"))
      (cString (connectionValue request))) =
        ascii "CONNECTION: " ++ connectionValue request ++ ascii "\r\n" := by
    rw [headerLine_new (by decide), cString_connectionValue]
    rfl
  rw [HdrList.store_of_forall_ne hnames' (zero_notMem_formatNat n)]
  simp only [HdrList.addCstr, HdrList.addBack, List.flatMap_append, List.flatMap_singleton, hline,
    htype, hlength, hconn]

/-- A response with the status, the reason and the body set. -/
def okResponse (junk : Junk) (hdrs : HdrList) (reason : Cbuffer) (bc : BufferChain) : Message :=
  { newResponse junk with headers := hdrs, statusCode := 200, reason, body := some bc }

private theorem serialize_okResponse {reason : Cbuffer}
    (hreason : formatCbuffer reason = .ok (ascii "OK"))
    {bc : BufferChain} (hv : bc.Valid) (hdrs : HdrList) (memory : ByteMemory) :
    ∃ iob, (okResponse junk hdrs reason bc).serialize memory = .ok iob ∧
      iob.data = ascii "HTTP/1.1  200 OK\r\n" ++ hdrs.flatMap headerLine ++ ascii "\r\n" ++
        bc.data := by
  have hline : (okResponse junk hdrs reason bc).firstLine =
      .ok (ascii "HTTP/1.1  200 OK\r\n") := by
    have hformat : formatCbuffer (okResponse junk hdrs reason bc).reason = .ok (ascii "OK") :=
      hreason
    have hversion : (okResponse junk hdrs reason bc).formatVersion = ascii "HTTP/1.1" := by
      change ascii "HTTP/" ++ formatNat 1 ++ ascii "." ++ formatNat 1 = _
      decide
    have hstatus : formatNat (okResponse junk hdrs reason bc).statusCode = ascii "200" := by
      change formatNat 200 = _
      decide
    rw [firstLine, hformat, hversion, hstatus]
    rfl
  have hsound : ∀ b, (okResponse junk hdrs reason bc).body = some b → b.Sound := by
    rintro b ⟨⟩
    exact hv.sound
  obtain ⟨iob, hser, hholds⟩ := serialize_spec hline hsound memory
  exact ⟨iob, hser, hholds.data_eq⟩

/-- **The bytes of the response.** Whenever `app_handler_example` returns, its response, marked as
the request asks, can be serialised, and what is written is known. -/
theorem bytes_of_appHandlerExample {reply : Message}
    (h : appHandlerExample junk memory info request = .ok reply) :
    ∃ body, AnswerBody request body ∧ ∀ memory', ∃ iob,
      (World.markConnection request reply).serialize memory' = .ok iob ∧
        iob.data = answerBytes request body := by
  simp only [appHandlerExample, Except.bind_eq_ok] at h
  obtain ⟨⟨response, bc⟩, hbody, m, hreason, hlen⟩ := h
  obtain ⟨hdrs, rfl, hline, hnames, hv, hanswer⟩ := appBody_spec hbody
  obtain ⟨reason, rfl, hok⟩ := setReason_ok rfl hreason
  have hsize : bc.size = (bc.data.length : ℤ) := hv.size_eq
  rw [hsize, setContentLength_eq] at hlen
  split at hlen
  · cases hlen
    refine ⟨bc.data, hanswer, fun memory' => ?_⟩
    rw [markConnection_eq]
    let hdrs' : HdrList :=
      ((hdrs.addCstr headerContentType (ascii "text/html; charset=UTF-8")).store
        (ascii "Content-length") (formatNat bc.data.length)).addCstr (ascii "CONNECTION")
          (connectionValue request)
    obtain ⟨iob, hser, hdata⟩ := @serialize_okResponse junk reason hok bc hv hdrs' memory'
    refine ⟨iob, hser, ?_⟩
    rw [hdata, flatMap_headerLine_answer hline hnames bc.data.length request]
    simp only [answerBytes, connectionValue, List.append_assoc]
  · cases hlen

end Proofs

end Message

end CHttp
