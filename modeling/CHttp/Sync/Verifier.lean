import CHttp.Async.ProcessRequest
import CHttp.Http.Hops
import CHttp.Sync.Answers

/-!
# A client of the echo servers

`verify_app.c` sends requests for `/echo` to a server. Its requests can all be carried, so they
arrive as they were sent, and what belongs to the request delivered belongs to the one sent: the
body of the response is the very text of the client, and the echo id is the client's.
-/

namespace CHttp

/-! ### Requests as they arrive -/

namespace Message

variable {m d : Message} {body : List UInt8}

theorem Transparent.cstr_target (h : m.Transparent) : m.target.cstr = .ok m.target.data := by
  obtain ⟨hcstr, h0, -⟩ := h.built.sound.target.holdsCstr h.sendable.target_ne_nil
  rw [hcstr.cstr_eq]
  exact congrArg Except.ok (cString_eq_self.mpr h0)

theorem Arrives.cstr_target (h : Arrives m d) : d.target.cstr = m.target.cstr := by
  rw [h.sent.cstr_target, h.delivered.cstr_target, h.agrees.target]

/-- What belongs to the request that was delivered belongs to the one that was sent. -/
theorem Arrives.answerBody (h : Arrives m d) (hbody : AnswerBody d body) : AnswerBody m body := by
  cases hbody with
  | @echo memory iob htarget hser =>
    obtain ⟨iob', iob'', hiob', hiob'', hdata⟩ := h.sameBytes memory memory
    cases hser.symm.trans hiob''
    rw [hdata]
    exact .echo (h.cstr_target ▸ htarget) hiob'
  | page htarget hne info => exact .page (h.cstr_target ▸ htarget) hne info

theorem Arrives.keepAlive_eq (h : Arrives m d) : World.keepAlive d = World.keepAlive m := by
  rw [World.keepAlive, World.keepAlive, cmpHeader, cmpHeader, h.agrees.headers]

private theorem Arrives.answerBytes_eq (h : Arrives m d) (body : List UInt8) :
    answerBytes d body = answerBytes m body := by
  have hvalue : d.getHeaderValue headerEchoId = m.getHeaderValue headerEchoId := by
    rw [getHeaderValue, getHeaderValue, h.agrees.headers]
  rw [answerBytes, answerBytes, echoLine, echoLine, h.cstr_target, hvalue, h.keepAlive_eq]

theorem forall₂_answerBody {ms ds : List Message} {bodies : List (List UInt8)}
    (h : List.Forall₂ Arrives ms ds) (hbodies : List.Forall₂ AnswerBody ds bodies) :
    List.Forall₂ AnswerBody ms bodies ∧
      List.zipWith answerBytes ds bodies = List.zipWith answerBytes ms bodies := by
  induction h generalizing bodies with
  | nil =>
    cases hbodies
    exact ⟨.nil, rfl⟩
  | cons hd _ ih =>
    cases hbodies with
    | cons hbody hbodies =>
      obtain ⟨hall, heq⟩ := ih hbodies
      exact ⟨.cons (hd.answerBody hbody) hall, by
        rw [List.zipWith_cons_cons, List.zipWith_cons_cons, hd.answerBytes_eq, heq]⟩

end Message

/-- What is assumed of `llhttp` on a stream, however it is cut: it reports, in whatever pieces, the
requests that the reference grammar reads, the last of them perhaps in part. -/
def Llhttp.ReportsStream (L : Llhttp) (bs : List UInt8) : Prop :=
  ∀ chunks : List (List UInt8), (∀ c ∈ chunks, c ≠ []) → chunks.flatten <+: bs →
    ∃ rs, Reads bs rs ∧
      (L.reports L.init chunks).2 <+: rs.flatMap fun r => r.toEvents.events

/-- A stream whose parts are reported as the reference grammar reads them. -/
theorem reportsStream_script {s : Script} {bs : List UInt8} {rs : List ReceivedRequest}
    (hreads : Reads bs rs) (h : s.events = rs.flatMap fun r => r.toEvents.events) :
    (Llhttp.script s).ReportsStream bs := by
  intro chunks _ _
  refine ⟨rs, hreads, ?_⟩
  rw [Llhttp.reports_script, ← h]
  exact s.within_prefix_events _

/-- What the parser delivers for part of a stream of reports. -/
theorem received_of_prefix {heap : Heap} {memory : ByteMemory} {rs : List ReceivedRequest}
    {evs : List LlEvent} {ds : List Message}
    (h : evs <+: rs.flatMap fun r => r.toEvents.events)
    (hdel : HttpParser.delivered heap memory evs = .ok ds) :
    ∃ n, List.Forall₂ Message.Received ds (rs.take n) := by
  have hevs : ∀ rs : List ReceivedRequest, (rs.flatMap fun r => r.toEvents.events) =
      (rs.map ReceivedRequest.toEvents).flatMap MessageEvents.events :=
    fun rs => (List.flatMap_map ..).symm
  rw [hevs] at h
  obtain ⟨n, tail, rfl, htail⟩ := MessageEvents.exists_take_of_prefix h
  obtain ⟨ds', hds', hreceived⟩ := delivered_of_reports (rs.take n) heap memory
  refine ⟨n, ?_⟩
  -- the part of a report at the end delivers nothing
  rw [hevs, List.map_take] at hds'
  simp only [HttpParser.delivered, HttpParser.callbacks, List.foldlM_append,
    Except.bind_eq_ok] at hdel hds'
  obtain ⟨t, ⟨s, hs, hrest⟩, heq⟩ := hdel
  obtain ⟨s', hs', heq'⟩ := hds'
  cases hs.symm.trans hs'
  have hsame : t.2 = s.2 := HttpParser.eq_of_callbacks hrest htail
  cases heq
  cases heq'
  rw [hsame]
  exact hreceived

/-- **Requests arrive.** What the parser has delivered of a client's stream are its first requests.
-/
theorem arrives_of_reportsStream {L : Llhttp} {heap : Heap} {memory junk : ByteMemory}
    {ms ds : List Message} {bs : List UInt8} {chunks : List (List UInt8)}
    (hms : ∀ m ∈ ms, m.Transparent) (hsend : Message.sendAll junk ms = .ok bs)
    (hL : L.ReportsStream bs) (hne : ∀ c ∈ chunks, c ≠ []) (hin : chunks.flatten <+: bs)
    (hdel : HttpParser.delivered heap memory (L.reports L.init chunks).2 = .ok ds) :
    ∃ n, List.Forall₂ Message.Arrives (ms.take n) ds := by
  obtain ⟨rs, hreads, hreports⟩ := hL chunks hne hin
  obtain ⟨n, hreceived⟩ := received_of_prefix hreports hdel
  have hms' : ∀ m ∈ ms.take n, m.Transparent := fun m hm => hms m (List.mem_of_mem_take hm)
  have hreported : List.Forall₂ Message.ReportedBy (ms.take n) (rs.take n) :=
    List.forall₂_take n (Message.reportedBy_of_reads hms hsend hreads)
  exact ⟨n, Message.forall₂_arrives hms' (HttpParser.delivered_built hdel)
    (Message.forall₂_agrees hms' hreported hreceived)⟩

/-! ### The requests of `verify_app.c` -/

namespace Message

/-- `make_uid`. -/
def makeUid (ident connectionIndex cycleIndex : ℕ) : List UInt8 :=
  formatNat ident ++ ascii ":" ++ formatNat connectionIndex ++ ascii ":" ++ formatNat cycleIndex

/-- `make_request`, with the url and the uid of the thread's context. -/
def makeRequest (junk : Junk) (url uid : List UInt8) (keepAliveFlag : Bool) :
    Except Abort Message := do
  let request := ((new junk).setIsRequest true).setMethod 1
  let request ← request.setTarget url
  let request := request.addHeaderCstring (ascii "HOST") (ascii "ahost")
  let request := request.addHeaderCstring (ascii "User-agent") (ascii "x15:x15-soundtrip client")
  let request := request.addHeaderCstring (ascii "CONNECTION")
    (if keepAliveFlag then ascii "Keep-Alive" else ascii "close")
  let request := request.addHeaderCstring (ascii "CONTENT-LENGTH") (ascii "0")
  let request := request.addHeaderCstring headerEchoId uid
  return request.setBody BufferChain.new

/-- The header fields of these requests. -/
def requestHeaders (uid : List UInt8) (keepAliveFlag : Bool) : HdrList :=
  [KVPair.new (ascii "HOST") (ascii "ahost"),
    KVPair.new (ascii "User-agent") (ascii "x15:x15-soundtrip client"),
    KVPair.new (ascii "CONNECTION") (if keepAliveFlag then ascii "Keep-Alive" else ascii "close"),
    KVPair.new (ascii "CONTENT-LENGTH") (ascii "0"), KVPair.new headerEchoId (cString uid)]

/-- What is written of these requests. -/
structure MadeFor (m : Message) (url uid : List UInt8) (keepAliveFlag : Bool) : Prop where
  method : m.method = 1
  target : m.target.data = url
  minorVers : m.minorVers = 1
  headers : m.headers = requestHeaders uid keepAliveFlag
  body : m.bodyBytes = []

/-- The connection is kept as the flag says. -/
theorem MadeFor.keepAlive_eq {m : Message} {url uid : List UInt8} {keepAliveFlag : Bool}
    (h : m.MadeFor url uid keepAliveFlag) : World.keepAlive m = keepAliveFlag := by
  rw [World.keepAlive, cmpHeader, h.headers]
  cases keepAliveFlag
  · rfl
  · rfl

/-- The echo id is what the thread gave. -/
theorem MadeFor.getHeaderValue_eq {m : Message} {url uid : List UInt8} {keepAliveFlag : Bool}
    (h : m.MadeFor url uid keepAliveFlag) :
    m.getHeaderValue headerEchoId = some (cString uid) := by
  have hfind : (requestHeaders uid keepAliveFlag).find headerEchoId =
      some (KVPair.new headerEchoId (cString uid)) := by
    cases keepAliveFlag
    · rfl
    · rfl
  rw [getHeaderValue, h.headers, hfind]
  exact congrArg some (cString_eq_self.mpr (zero_notMem_cString uid))

/-- A target is taken over, if there is room for it. -/
theorem exists_setTarget {m : Message} (h : m.target.Holds []) {url : List UInt8} (hne : url ≠ [])
    (h0 : 0 ∉ url) (hlen : url.length ≤ Cbuffer.maxSize) :
    ∃ target, m.setTarget url = .ok { m with target } ∧ target.data = url := by
  have hsize : m.target.size = 0 := h.size_eq
  obtain ⟨target, happ, hholds⟩ := Cbuffer.append_holdsCstr h hne (by simpa using hlen)
  refine ⟨target, ?_, hholds.data_eq⟩
  have hcstr : m.target.appendCstr url = .ok target := by
    rw [Cbuffer.appendCstr]
    exact (congrArg _ (cString_eq_self.mpr h0)).trans happ
  simp only [setTarget, hsize, decide_true, assertThat_true, hcstr, Except.ok_bind]
  rfl

theorem oneLine_makeUid (ident connectionIndex cycleIndex : ℕ) :
    OneLine (makeUid ident connectionIndex cycleIndex) := by
  have hnot : ∀ c, Http1.digit? c = none → c ∉ ascii ":" →
      c ∉ makeUid ident connectionIndex cycleIndex := by
    intro c hdigit hcolon
    have hnat : ∀ n, c ∉ formatNat n := Http1.notMem_decimal hdigit
    simp only [makeUid, List.mem_append, not_or]
    exact ⟨⟨⟨⟨hnat _, hcolon⟩, hnat _⟩, hcolon⟩, hnat _⟩
  intro b hb
  refine ⟨?_, ?_, ?_⟩
  all_goals
    rintro rfl
    exact hnot _ (by decide) (by decide) hb

theorem HeadersOk.addHeaderCstring {m : Message} (h : m.HeadersOk) {key value : List UInt8}
    (hkey : Http1.Token ((cString key).map toUpper)) (hvalue : OneLine (cString value)) :
    (m.addHeaderCstring key value).HeadersOk :=
  List.forall_mem_append.mpr ⟨h, List.forall_mem_singleton.mpr ⟨hkey, hvalue⟩⟩

/-- **The requests of `verify_app.c`** can all be carried, and announce that they have no body. -/
theorem transparent_of_makeRequest (junk : Junk) {url : List UInt8} (hne : url ≠ [])
    (hurl : Visible url) (hlen : url.length ≤ Cbuffer.maxSize)
    (ident connectionIndex cycleIndex : ℕ) (keepAliveFlag : Bool) :
    ∃ m, makeRequest junk url (makeUid ident connectionIndex cycleIndex) keepAliveFlag = .ok m ∧
      m.Transparent ∧ m.MadeFor url (makeUid ident connectionIndex cycleIndex) keepAliveFlag := by
  have huid := oneLine_makeUid ident connectionIndex cycleIndex
  generalize makeUid ident connectionIndex cycleIndex = uid at huid
  have h0 : 0 ∉ url := fun h0 => absurd (hurl 0 h0).1 (by decide)
  obtain ⟨target, hset, hdata⟩ :=
    exists_setTarget (m := ((new junk).setIsRequest true).setMethod 1) (Cbuffer.new_holds _) hne h0
      hlen
  have hcstr : cString uid = uid := cString_eq_self.mpr fun h0 => (huid 0 h0).2.2 rfl
  simp only [makeRequest, hset, Except.ok_bind]
  have hmethod : 1 < methodNames.length := by decide
  refine ⟨_, rfl, ⟨?_, ⟨rfl, hmethod, hdata.symm ▸ hne, hdata.symm ▸ hurl, ?_⟩, ?_⟩,
    rfl, hdata, rfl, ?_, rfl⟩
  · have hb := Built.setTarget url (.setMethod 1 (.setIsRequest true (.new junk))) hset
    exact .setBody _ (.addHeaderCstring _ _ (.addHeaderCstring _ _ (.addHeaderCstring _ _
      (.addHeaderCstring _ _ (.addHeaderCstring _ _ hb))))) .new
  · have hconnection : OneLine (cString
        (if keepAliveFlag then ascii "Keep-Alive" else ascii "close")) := by
      cases keepAliveFlag <;> decide
    have hnone : HeadersOk (((new junk).setIsRequest true).setMethod 1) := List.forall_mem_nil _
    exact ((((hnone.addHeaderCstring (by decide +kernel) (by decide)).addHeaderCstring
      (by decide +kernel) (by decide)).addHeaderCstring (by decide +kernel)
        hconnection).addHeaderCstring (by decide +kernel) (by decide)).addHeaderCstring
          (by decide +kernel) (hcstr.symm ▸ huid)
  · cases keepAliveFlag
    · rfl
    · rfl
  · cases keepAliveFlag
    · rfl
    · rfl

end Message

/-! ### Two requests -/

/-- A request of a connection with two of them. -/
def verifyText (last : Bool) : List UInt8 :=
  ascii "GET /echo HTTP/1.1\r\nHOST: ahost\r\nUSER-AGENT: x15:x15-soundtrip client\r\n" ++
    if last then ascii "CONNECTION: close\r\nCONTENT-LENGTH: 0\r\nC-HTTP-ECHO-ID: 0:0:1\r\n\r\n"
    else ascii "CONNECTION: Keep-Alive\r\nCONTENT-LENGTH: 0\r\nC-HTTP-ECHO-ID: 0:0:0\r\n\r\n"

/-- The two, one after the other. -/
def verifyTexts : List UInt8 := verifyText false ++ verifyText true

theorem echo_ne_nil : ascii "/echo" ≠ [] := by decide

theorem echo_clean :
    (ascii "/echo").length ≤ Cbuffer.maxSize ∧ Visible (ascii "/echo") := by
  decide +kernel

/-- What is reported of it. -/
def verifyReport (last : Bool) : ReceivedRequest :=
  Message.getReport (ascii "/echo")
    [⟨[ascii "HOST"], [ascii "ahost"], by simp, by simp⟩,
      ⟨[ascii "USER-AGENT"], [ascii "x15:x15-soundtrip client"], by simp, by simp⟩,
      ⟨[ascii "CONNECTION"], [if last then ascii "close" else ascii "Keep-Alive"], by simp,
        by simp⟩,
      ⟨[ascii "CONTENT-LENGTH"], [ascii "0"], by simp, by simp⟩,
      ⟨[Message.headerEchoId], [if last then ascii "0:0:1" else ascii "0:0:0"], by simp, by simp⟩]
    echo_ne_nil echo_clean (by cases last <;> decide +kernel) (by cases last <;> rfl)

/-- Its lines. -/
def verifyScript (last : Bool) : Script :=
  [.line (ascii "GET /echo HTTP/1.1") [.messageBegin, .url (ascii "/echo")],
    .header (ascii "HOST") (ascii "ahost"),
    .header (ascii "USER-AGENT") (ascii "x15:x15-soundtrip client"),
    .header (ascii "CONNECTION") (if last then ascii "close" else ascii "Keep-Alive"),
    .header (ascii "CONTENT-LENGTH") (ascii "0"),
    .header Message.headerEchoId (if last then ascii "0:0:1" else ascii "0:0:0"),
    .line [] [.headersComplete 1 1 1, .messageComplete]]

/-- The parser of a server for the two requests. -/
def verifyParser : Llhttp := .script [verifyScript false, verifyScript true].flatten

theorem takes_verifyTexts : verifyParser.Takes [verifyText false, verifyText true] := by
  have hmessage : ∀ s ∈ [verifyScript false, verifyScript true], s.IsMessage :=
    List.forall_mem_cons.mpr ⟨⟨by decide, by decide⟩,
      List.forall_mem_singleton.mpr ⟨by decide, by decide⟩⟩
  have hbytes : [verifyScript false, verifyScript true].map Script.bytes =
      [verifyText false, verifyText true] := by
    decide +kernel
  exact hbytes ▸ Llhttp.takes_script hmessage

private theorem reads_verifyTexts : Reads verifyTexts [verifyReport false, verifyReport true] := by
  let head (last : Bool) : Http1.RequestHead :=
    ⟨ascii "GET", ascii "/echo", (1, 1), [(ascii "HOST", ascii "ahost"),
      (ascii "USER-AGENT", ascii "x15:x15-soundtrip client"),
      (ascii "CONNECTION", if last then ascii "close" else ascii "Keep-Alive"),
      (ascii "CONTENT-LENGTH", ascii "0"),
      (Message.headerEchoId, if last then ascii "0:0:1" else ascii "0:0:0")]⟩
  have hfirst : Http1.request verifyTexts = some (head false, [], verifyText true) := by
    decide +kernel
  have hlast : Http1.request (verifyText true) = some (head true, [], []) := by decide +kernel
  exact .cons hfirst ⟨rfl, rfl, rfl, rfl, rfl⟩ (.cons hlast ⟨rfl, rfl, rfl, rfl, rfl⟩ .nil)

theorem reportsStream_verifyTexts : verifyParser.ReportsStream verifyTexts :=
  reportsStream_script reads_verifyTexts (by decide +kernel)

/-- They are the texts of the requests that `verify_app.c` sends. -/
theorem sendAll_verifyTexts : ∃ m m',
    Message.makeRequest .zeros (ascii "/echo") (Message.makeUid 0 0 0) true = .ok m ∧
      Message.makeRequest .zeros (ascii "/echo") (Message.makeUid 0 0 1) false = .ok m' ∧
      (∀ x ∈ [m, m'], x.Transparent) ∧
      Message.sendAll (fun _ => 0) [m, m'] = .ok verifyTexts := by
  obtain ⟨m, hm, ht, -⟩ :=
    Message.transparent_of_makeRequest .zeros echo_ne_nil echo_clean.2 echo_clean.1 0 0 0 true
  obtain ⟨m', hm', ht', -⟩ :=
    Message.transparent_of_makeRequest .zeros echo_ne_nil echo_clean.2 echo_clean.1 0 0 1 false
  obtain ⟨n, n', hn, hn', hsend⟩ : ∃ n n',
      Message.makeRequest .zeros (ascii "/echo") (Message.makeUid 0 0 0) true = .ok n ∧
        Message.makeRequest .zeros (ascii "/echo") (Message.makeUid 0 0 1) false = .ok n' ∧
        Message.sendAll (fun _ => 0) [n, n'] = .ok verifyTexts :=
    ⟨_, _, rfl, rfl, by decide +kernel⟩
  cases hm.symm.trans hn
  cases hm'.symm.trans hn'
  exact ⟨m, m', hm, hm', List.forall_mem_cons.mpr ⟨ht, List.forall_mem_singleton.mpr ht'⟩, hsend⟩

end CHttp
