import CHttp.Http.Forward
import Mathlib.Data.List.Forall2
import Mathlib.Logic.Relation

/-!
# Requests from hop to hop

A request that is made with `message.h`, serialised, parsed by the next program of this kind and
serialised there again is the same text byte by byte, however the stream was cut on its way and
however often this happens (`requests_cross_hops`). That is what a proxy relies on, and the `/echo`
handler too, whose response has the request's text as its body.

What `llhttp` reports is what the reference grammar reads. It strips the blanks in front of a value,
so that it does not report a value that starts with one as the grammar reads it.
-/

namespace CHttp

/-! ### Reading a stream of requests -/

namespace ReceivedRequest

/-- The report says what the head and the body say. -/
structure Describes (r : ReceivedRequest) (head : Http1.RequestHead) (content : List UInt8) :
    Prop where
  method : Message.llhttpMethodName r.method = .ok head.method
  target : r.url.flatten = head.target
  version : (r.httpMajor, r.httpMinor) = head.version
  headers : r.headers.map (fun h => (h.name, h.text)) = head.headers
  body : r.body.flatten = content

end ReceivedRequest

/-- The reports say, one by one, what the reference grammar reads from the stream. -/
inductive Reads : List UInt8 → List ReceivedRequest → Prop
  | nil : Reads [] []
  | cons {bs content rest : List UInt8} {head : Http1.RequestHead} {r : ReceivedRequest}
      {rs : List ReceivedRequest} (hreq : Http1.request bs = some (head, content, rest))
      (hr : r.Describes head content) (hrest : Reads rest rs) : Reads bs (r :: rs)

namespace Message

/-- The requests are serialised into one stream. -/
def sendAll (junk : ByteMemory) (ms : List Message) : Except Abort (List UInt8) := do
  let bufs ← ms.mapM fun m => m.serialize junk
  return bufs.flatMap IOBuffer.data

/-- A request that the grammar can carry, with a header field that announces its body. -/
structure Transparent (m : Message) : Prop where
  built : m.Built
  sendable : m.Sendable
  counted : Http1.framing m.fields = some (.length m.bodyBytes.length)

/-- The parser of the next program takes the request: `llhttp` lets the version through and reports
the body, which it does not for `CONNECT`, and each text is within the limit of its buffer. -/
structure Acceptable (m : Message) : Prop where
  minorVers : m.minorVers ≤ 1
  connect : m.method = httpConnect → m.bodyBytes = []
  target : m.target.data.length ≤ Cbuffer.maxSize
  headers : ∀ item ∈ m.headers,
    item.label.length ≤ Cbuffer.maxSize ∧ item.value.length ≤ Cbuffer.maxSize

/-- The two messages have everything in common that is written of a request. -/
structure Agrees (m d : Message) : Prop where
  isRequest : d.isRequest = m.isRequest
  method : d.method = m.method
  target : d.target.data = m.target.data
  minorVers : d.minorVers = m.minorVers
  headers : d.headers = m.headers
  body : d.bodyBytes = m.bodyBytes

variable {m d e : Message} {meth : List UInt8}

theorem Agrees.refl (m : Message) : Agrees m m := ⟨rfl, rfl, rfl, rfl, rfl, rfl⟩

theorem Agrees.trans (h : Agrees m d) (h' : Agrees d e) : Agrees m e :=
  ⟨h'.isRequest.trans h.isRequest, h'.method.trans h.method, h'.target.trans h.target,
    h'.minorVers.trans h.minorVers, h'.headers.trans h.headers, h'.body.trans h.body⟩

theorem Agrees.fields (h : Agrees m d) : d.fields = m.fields := by
  rw [Message.fields, Message.fields, h.headers]

private theorem Transparent.of_agrees (hm : m.Transparent) (hd : d.Built) (h : Agrees m d) :
    d.Transparent where
  built := hd
  sendable := by
    obtain ⟨hreq, hmethod, hne, htarget, hheaders⟩ := hm.sendable
    refine ⟨h.isRequest.trans hreq, h.method ▸ hmethod, h.target ▸ hne, h.target ▸ htarget, ?_⟩
    rw [HeadersOk, h.headers]
    exact hheaders
  counted := by rw [h.fields, h.body, hm.counted]

private theorem Acceptable.of_agrees (hm : m.Acceptable) (h : Agrees m d) : d.Acceptable where
  minorVers := h.minorVers ▸ hm.minorVers
  connect hmethod := h.body.trans (hm.connect (h.method ▸ hmethod))
  target := h.target ▸ hm.target
  headers := h.headers ▸ hm.headers

/-- What is read from the head of a request. -/
def head (m : Message) (meth : List UInt8) : Http1.RequestHead :=
  ⟨meth, m.target.data, (1, m.minorVers), m.fields⟩

theorem Transparent.serialize_eq (hm : m.Transparent) (hmeth : llhttpMethodName m.method = .ok meth)
    (junk : ByteMemory) : ∃ iob, m.serialize junk = .ok iob ∧
      iob.data = Http1.encodeRequestHead (m.head meth) ++ m.bodyBytes :=
  serialize_request hm.built.sound hm.sendable hmeth junk

/-- The two messages are serialised, and into the same bytes. -/
def SameBytes (m d : Message) : Prop :=
  ∀ junk junk', ∃ iob iob', m.serialize junk = .ok iob ∧ d.serialize junk' = .ok iob' ∧
    iob'.data = iob.data

theorem Transparent.sameBytes (hm : m.Transparent) (hd : d.Transparent) (h : Agrees m d) :
    SameBytes m d := by
  intro junk junk'
  obtain ⟨meth, hmeth, -⟩ := exists_llhttpMethodName hm.sendable.method
  obtain ⟨iob, hiob, hdata⟩ := hm.serialize_eq hmeth junk
  obtain ⟨iob', hiob', hdata'⟩ := hd.serialize_eq (h.method ▸ hmeth) junk'
  refine ⟨iob, iob', hiob, hiob', ?_⟩
  rw [hdata, hdata', h.body, head, head, h.target, h.minorVers, h.fields]

/-- In a stream, the body ends where the header fields say. -/
theorem Transparent.request_append (hm : m.Transparent) (htoken : Http1.Token meth)
    (rest : List UInt8) :
    Http1.request (Http1.encodeRequestHead (m.head meth) ++ m.bodyBytes ++ rest) =
      some (m.head meth, m.bodyBytes, rest) := by
  have hbody : Http1.body (m.bodyBytes ++ rest) (.length m.bodyBytes.length) =
      some (m.bodyBytes, rest) := by
    simp [Http1.body]
  have hok : Http1.RequestHeadOk (m.head meth) := hm.sendable.headOk htoken
  rw [List.append_assoc, Http1.request_encode hok]
  change (Http1.framing m.fields).bind _ = _
  rw [hm.counted, Option.bind_some, hbody]
  rfl

/-! ### One hop -/

/-- What the next program makes of a request that was sent to it. -/
theorem Transparent.agrees {r : ReceivedRequest} (hm : m.Transparent)
    (hinj : ∀ method, llhttpMethodName method = .ok meth → method = m.method)
    (hr : r.Describes (m.head meth) m.bodyBytes) (hd : d.Received r) : Agrees m d := by
  have hfields : r.fields = m.fields := by
    have hupper : r.fields = (r.headers.map fun h => (h.name, h.text)).map
        fun f => (f.1.map toUpper, f.2) := by
      rw [List.map_map]
      rfl
    rw [hupper, hr.headers, head, Message.fields, List.map_map]
    refine List.map_congr_left fun item hi => ?_
    exact congrArg (·, item.value) (hm.built.sound.labels item hi)
  -- the body is counted, so there are no trailers
  have htrailers : r.trailers = [] := by
    have hframing : r.framing = some (.length m.bodyBytes.length) := by
      rw [← r.framing_fields, hfields, hm.counted]
    have hframed := r.framed
    split at hframed
    · exact hframed.2
    · rw [show Http1.framing (r.headers.map fun h => (h.name, h.text)) = r.framing from rfl,
        hframing] at hframed
      exact hframed.2
  have hitems : d.fields = m.fields := by
    rw [hd.fields, htrailers, hfields]
    exact List.append_nil _
  refine ⟨hd.sendable.isRequest.trans hm.sendable.isRequest.symm,
    hd.method.trans (hinj _ hr.method), hd.target.trans hr.target,
    hd.minorVers.trans (congrArg Prod.snd hr.version), ?_, hd.body.trans hr.body⟩
  refine List.map_injective_iff.mpr (fun item item' heq => ?_) hitems
  cases item
  cases item'
  cases heq
  rfl

/-- The report of a request that was sent. -/
def ReportedBy (m : Message) (r : ReceivedRequest) : Prop :=
  ∃ meth, (∀ method, llhttpMethodName method = .ok meth → method = m.method) ∧
    r.Describes (m.head meth) m.bodyBytes

/-- A body reported in one piece, or in none if it is empty. -/
private theorem exists_pieces (body : List UInt8) : ∃ pieces : List (List UInt8),
    pieces.flatten = body ∧ (∀ data ∈ pieces, data ≠ []) ∧ (body = [] → pieces = []) := by
  by_cases hnil : body = []
  · exact ⟨[], hnil.symm, List.forall_mem_nil _, fun _ => rfl⟩
  · exact ⟨[body], List.flatten_singleton, List.forall_mem_singleton.mpr hnil,
      fun h => absurd h hnil⟩

/-- **There is a report**: the one in which no text is cut. -/
theorem Transparent.exists_describes (hm : m.Transparent) (hok : m.Acceptable)
    (hmeth : llhttpMethodName m.method = .ok meth) :
    ∃ r : ReceivedRequest, r.Describes (m.head meth) m.bodyBytes := by
  let line (item : KVPair) : HeaderFragments :=
    ⟨[item.label], [item.value], List.cons_ne_nil _ _, List.cons_ne_nil _ _⟩
  have hname : ∀ item, (line item).name = item.label := fun _ => List.flatten_singleton
  have htext : ∀ item, (line item).text = item.value := fun _ => List.flatten_singleton
  have hfields : (m.headers.map line).map (fun h => (h.name, h.text)) = m.fields := by
    rw [List.map_map]
    exact List.map_congr_left fun item _ => Prod.ext (hname item) (htext item)
  obtain ⟨pieces, hpieces, hmember, hnone⟩ := exists_pieces m.bodyBytes
  have hversion : (1, m.minorVers) ∈ [(0, 9), (1, 0), (1, 1), (2, 0)] := by
    obtain h | h := Nat.le_one_iff_eq_zero_or_eq_one.mp hok.minorVers
    · rw [h]
      decide
    · rw [h]
      decide
  refine ⟨{
    method := m.method
    httpMajor := 1
    httpMinor := m.minorVers
    url := [m.target.data]
    headers := m.headers.map line
    body := pieces
    trailers := []
    method_lt := hm.sendable.method
    version := hversion
    url_ne_nil := List.flatten_singleton.symm ▸ hm.sendable.target_ne_nil
    url_clean := List.flatten_singleton.symm ▸ ⟨hok.target, hm.sendable.target⟩
    fields_clean := ?_
    body_ne_nil := hmember
    framed := ?_ }, hmeth, List.flatten_singleton, rfl, hfields, hpieces⟩
  · intro h hh
    rw [List.append_nil] at hh
    obtain ⟨item, hi, rfl⟩ := List.mem_map.mp hh
    rw [hname, htext, HeaderFragments.Fits, hname, htext]
    exact ⟨(hm.sendable.headers item hi).1, (hm.sendable.headers item hi).2, hok.headers item hi⟩
  · split
    · next hconnect => exact ⟨hnone (hok.connect hconnect), rfl⟩
    · rw [hfields, hm.counted]
      exact ⟨congrArg List.length hpieces, rfl⟩

variable {ms ds : List Message} {rs : List ReceivedRequest} {bs : List UInt8} {junk : ByteMemory}

theorem sendAll_cons_eq_ok : sendAll junk (m :: ms) = .ok bs ↔
    ∃ iob bs', m.serialize junk = .ok iob ∧ sendAll junk ms = .ok bs' ∧ bs = iob.data ++ bs' := by
  simp only [sendAll, List.mapM_cons, Except.bind_eq_ok]
  constructor
  · rintro ⟨_, ⟨iob, hiob, bufs, hbufs, heq⟩, hbs⟩
    cases heq
    cases hbs
    exact ⟨iob, _, hiob, ⟨bufs, hbufs, rfl⟩, rfl⟩
  · rintro ⟨iob, _, hiob, ⟨bufs, hbufs, heq⟩, rfl⟩
    cases heq
    exact ⟨iob :: bufs, ⟨iob, hiob, bufs, hbufs, rfl⟩, rfl⟩

theorem sendAll_append {ms' : List Message} {bs' : List UInt8} (h : sendAll junk ms = .ok bs)
    (h' : sendAll junk ms' = .ok bs') : sendAll junk (ms ++ ms') = .ok (bs ++ bs') := by
  induction ms generalizing bs with
  | nil =>
    cases h
    exact h'
  | cons m ms ih =>
    obtain ⟨iob, rest, hiob, hrest, rfl⟩ := sendAll_cons_eq_ok.mp h
    exact sendAll_cons_eq_ok.mpr ⟨iob, _, hiob, ih hrest, List.append_assoc _ _ _⟩

private theorem exists_sendAll (h : ∀ m ∈ ms, m.Transparent) (junk : ByteMemory) :
    ∃ bs, sendAll junk ms = .ok bs := by
  induction ms with
  | nil => exact ⟨[], rfl⟩
  | cons m ms ih =>
    obtain ⟨hm, hms⟩ := List.forall_mem_cons.mp h
    obtain ⟨meth, hmeth, -⟩ := exists_llhttpMethodName hm.sendable.method
    obtain ⟨iob, hiob, -⟩ := hm.serialize_eq hmeth junk
    obtain ⟨bs, hbs⟩ := ih hms
    exact ⟨iob.data ++ bs, sendAll_cons_eq_ok.mpr ⟨iob, bs, hiob, hbs, rfl⟩⟩

theorem exists_reads (h : ∀ m ∈ ms, m.Transparent) (hok : ∀ m ∈ ms, m.Acceptable)
    (hsend : sendAll junk ms = .ok bs) : ∃ rs, Reads bs rs := by
  induction ms generalizing bs with
  | nil =>
    cases hsend
    exact ⟨[], .nil⟩
  | cons m ms ih =>
    obtain ⟨hm, hms⟩ := List.forall_mem_cons.mp h
    obtain ⟨hmok, hmsok⟩ := List.forall_mem_cons.mp hok
    obtain ⟨iob, bs', hiob, hbs', rfl⟩ := sendAll_cons_eq_ok.mp hsend
    obtain ⟨meth, hmeth, htoken, -⟩ := exists_llhttpMethodName hm.sendable.method
    obtain ⟨iob', hiob', hdata⟩ := hm.serialize_eq hmeth junk
    cases hiob.symm.trans hiob'
    obtain ⟨r, hr⟩ := hm.exists_describes hmok hmeth
    obtain ⟨rs, hrs⟩ := ih hms hmsok hbs'
    exact ⟨r :: rs, .cons (hdata ▸ hm.request_append htoken bs') hr hrs⟩

/-- **The stream comes apart where it was put together.** -/
theorem reportedBy_of_reads (h : ∀ m ∈ ms, m.Transparent) (hsend : sendAll junk ms = .ok bs)
    (hreads : Reads bs rs) : List.Forall₂ ReportedBy ms rs := by
  induction ms generalizing bs rs with
  | nil =>
    cases hsend
    cases hreads with
    | nil => exact .nil
    | cons hreq _ _ => cases hreq
  | cons m ms ih =>
    obtain ⟨hm, hms⟩ := List.forall_mem_cons.mp h
    obtain ⟨iob, bs', hiob, hbs', rfl⟩ := sendAll_cons_eq_ok.mp hsend
    obtain ⟨meth, hmeth, htoken, hinj⟩ := exists_llhttpMethodName hm.sendable.method
    obtain ⟨iob', hiob', hdata⟩ := hm.serialize_eq hmeth junk
    cases hiob.symm.trans hiob'
    have hrequest := hm.request_append htoken bs'
    rw [← hdata] at hrequest
    generalize iob.data ++ bs' = stream at hreads hrequest
    cases hreads with
    | nil => cases hrequest
    | cons hreq hr hrest =>
      cases hrequest.symm.trans hreq
      exact .cons ⟨meth, hinj, hr⟩ (ih hms hbs' hrest)

end Message

/-- The messages delivered for a stream of reports. -/
theorem forall₂_received {ds : List Message} {rs : List ReceivedRequest} {n : ℕ}
    {blocks : ℕ → Message.Junk}
    (hv : ds.map Message.view =
      MessageEvents.deliverAll blocks n (rs.map ReceivedRequest.toEvents)) :
    List.Forall₂ Message.Received ds rs := by
  induction rs generalizing ds n with
  | nil =>
    rw [List.map_eq_nil_iff.mp hv]
    exact .nil
  | cons r rs ih =>
    obtain ⟨d, ds', rfl, hhead, htail⟩ := List.map_eq_cons_iff.mp hv
    exact .cons (received_of_view hhead) (ih htail)

/-- The parser delivers a message for each report. -/
theorem delivered_of_reports (rs : List ReceivedRequest) (heap : Heap) (buf : ByteMemory) :
    ∃ ds, HttpParser.delivered heap buf (rs.flatMap fun r => r.toEvents.events) = .ok ds ∧
      List.Forall₂ Message.Received ds rs := by
  have hevs : (rs.flatMap fun r => r.toEvents.events) =
      (rs.map ReceivedRequest.toEvents).flatMap MessageEvents.events :=
    (List.flatMap_map ..).symm
  have hacc : ∀ m ∈ rs.map ReceivedRequest.toEvents, m.Accepted := by
    intro m hm
    obtain ⟨r, -, rfl⟩ := List.mem_map.mp hm
    exact r.accepted
  obtain ⟨ds, hds, hview⟩ := HttpParser.delivered_ok heap buf hacc
  rw [hevs]
  exact ⟨ds, hds, forall₂_received hview⟩

namespace Message

variable {ms ds es : List Message} {rs : List ReceivedRequest}

/-- The messages received agree with those sent. -/
theorem forall₂_agrees (h : ∀ m ∈ ms, m.Transparent) (hms : List.Forall₂ ReportedBy ms rs)
    (hds : List.Forall₂ Received ds rs) : List.Forall₂ Agrees ms ds := by
  induction hms generalizing ds with
  | nil =>
    cases hds
    exact .nil
  | cons hr _ ih =>
    obtain ⟨hm, hrest⟩ := List.forall_mem_cons.mp h
    obtain ⟨meth, hinj, hr⟩ := hr
    cases hds with
    | cons hd hds => exact .cons (hm.agrees hinj hr hd) (ih hrest hds)

/-- One hop: the requests `ms` are sent, `llhttp` reports what the reference grammar reads, in
whatever pieces, and the parser delivers `ds`. -/
def Hop (ms ds : List Message) : Prop :=
  ∃ junk bs rs heap buf, sendAll junk ms = .ok bs ∧ Reads bs rs ∧
    HttpParser.delivered heap buf (rs.flatMap fun r => r.toEvents.events) = .ok ds

/-- The request arrives: the message delivered is as good as the one sent. -/
structure Arrives (m d : Message) : Prop where
  sent : m.Transparent
  delivered : d.Transparent
  agrees : Agrees m d

theorem Arrives.sameBytes (h : Arrives m d) : SameBytes m d :=
  h.sent.sameBytes h.delivered h.agrees

private theorem forall₂_arrives_trans (h : List.Forall₂ Arrives ms ds)
    (h' : List.Forall₂ Arrives ds es) :
    List.Forall₂ Arrives ms es := by
  induction h generalizing es with
  | nil =>
    cases h'
    exact .nil
  | cons hd _ ih =>
    cases h' with
    | cons he hes => exact .cons ⟨hd.sent, he.delivered, hd.agrees.trans he.agrees⟩ (ih hes)

theorem forall₂_arrives (h : ∀ m ∈ ms, m.Transparent) (hds : ∀ d ∈ ds, d.Built)
    (hagrees : List.Forall₂ Agrees ms ds) : List.Forall₂ Arrives ms ds := by
  induction hagrees with
  | nil => exact .nil
  | cons hd _ ih =>
    obtain ⟨hm, hms⟩ := List.forall_mem_cons.mp h
    obtain ⟨hb, hds⟩ := List.forall_mem_cons.mp hds
    exact .cons ⟨hm, hm.of_agrees hb hd, hd⟩ (ih hms hds)

private theorem transparent_of_arrives (h : List.Forall₂ Arrives ms ds) :
    ∀ d ∈ ds, d.Transparent := by
  induction h with
  | nil => exact List.forall_mem_nil _
  | cons hd _ ih => exact List.forall_mem_cons.mpr ⟨hd.delivered, ih⟩

/-- **One hop.** -/
theorem arrives_of_hop (h : ∀ m ∈ ms, m.Transparent) (hhop : Hop ms ds) :
    List.Forall₂ Arrives ms ds := by
  obtain ⟨junk, bs, rs, heap, buf, hsend, hreads, hdel⟩ := hhop
  obtain ⟨ds', hds', hreceived⟩ := delivered_of_reports rs heap buf
  cases hdel.symm.trans hds'
  exact forall₂_arrives h (HttpParser.delivered_built hdel)
    (forall₂_agrees h (reportedBy_of_reads h hsend hreads) hreceived)

/-- Any number of hops. -/
theorem arrives_of_hops (h : ∀ m ∈ ms, m.Transparent) (hhops : Relation.ReflTransGen Hop ms ds) :
    List.Forall₂ Arrives ms ds := by
  induction hhops with
  | refl => exact List.forall₂_same.mpr fun m hm => ⟨h m hm, h m hm, .refl m⟩
  | tail _ hhop ih =>
    exact forall₂_arrives_trans ih (arrives_of_hop (transparent_of_arrives ih) hhop)

private theorem acceptable_of_arrives (hok : ∀ m ∈ ms, m.Acceptable)
    (h : List.Forall₂ Arrives ms ds) :
    ∀ d ∈ ds, d.Acceptable := by
  induction h with
  | nil => exact List.forall_mem_nil _
  | cons hd _ ih =>
    obtain ⟨hm, hms⟩ := List.forall_mem_cons.mp hok
    exact List.forall_mem_cons.mpr ⟨hm.of_agrees hd.agrees, ih hms⟩

/-- **Requests cross hops unchanged.** Requests that the grammar can carry and that announce their
bodies are serialised into the same bytes after any number of hops, whatever was in memory and
however the streams were cut. And the next hop goes through: there are reports of what was sent if
the next parser takes the requests, and for all reports it delivers. -/
theorem requests_cross_hops (h : ∀ m ∈ ms, m.Transparent)
    (hhops : Relation.ReflTransGen Hop ms ds) :
    List.Forall₂ SameBytes ms ds ∧ ∀ junk, ∃ bs, sendAll junk ds = .ok bs ∧
      ((∀ m ∈ ms, m.Acceptable) → ∃ rs, Reads bs rs) ∧
      ∀ rs, Reads bs rs → ∀ heap buf, ∃ es,
        HttpParser.delivered heap buf (rs.flatMap fun r => r.toEvents.events) = .ok es ∧
          Hop ds es := by
  have harrives := arrives_of_hops h hhops
  have hds := transparent_of_arrives harrives
  refine ⟨harrives.imp fun _ _ => Arrives.sameBytes, fun junk => ?_⟩
  obtain ⟨bs, hbs⟩ := exists_sendAll hds junk
  refine ⟨bs, hbs, fun hok => exists_reads hds (acceptable_of_arrives hok harrives) hbs,
    fun rs hreads heap buf => ?_⟩
  obtain ⟨es, hes, -⟩ := delivered_of_reports rs heap buf
  exact ⟨es, hes, junk, bs, rs, heap, buf, hbs, hreads, hes⟩

/-- `POST /a HTTP/1.1` with the body `hi`, cut into pieces. -/
def countedPost : ReceivedRequest where
  method := 3
  httpMajor := 1
  httpMinor := 1
  url := [ascii "/", ascii "a"]
  headers := [⟨[ascii "CONTENT-", ascii "LENGTH"], [ascii "2"], by simp, by simp⟩]
  body := [ascii "h", ascii "i"]
  trailers := []
  method_lt := post_lt
  version := version_one_one
  url_ne_nil := by decide
  url_clean := by decide +kernel
  fields_clean := by decide +kernel
  body_ne_nil := by decide
  framed := ⟨rfl, rfl⟩

/-- The report of a `GET` without a body. -/
def getReport (url : List UInt8) (headers : List HeaderFragments) (hne : url ≠ [])
    (hclean : url.length ≤ Cbuffer.maxSize ∧ Visible url)
    (hfields : ∀ h ∈ headers, Http1.Token h.name ∧ OneLine h.text ∧ h.Fits)
    (hframing : Http1.framing (headers.map fun h => (h.name, h.text)) = some (.length 0)) :
    ReceivedRequest where
  method := 1
  httpMajor := 1
  httpMinor := 1
  url := [url]
  headers := headers
  body := []
  trailers := []
  method_lt := by decide
  version := version_one_one
  url_ne_nil := List.flatten_singleton.symm ▸ hne
  url_clean := List.flatten_singleton.symm ▸ hclean
  fields_clean h hh := hfields h (by rwa [List.append_nil] at hh)
  body_ne_nil := MessageEvents.noBody
  framed := by
    rw [if_neg (by decide), hframing]
    exact ⟨rfl, rfl⟩

/-- `GET /b HTTP/1.1` without header fields. -/
def bareGet : ReceivedRequest :=
  getReport (ascii "/b") [] (by decide) (by decide +kernel) (List.forall_mem_nil _) rfl

/-- What the two requests are on the wire. -/
def postThenGet : List UInt8 :=
  ascii "POST /a HTTP/1.1\r\nCONTENT-LENGTH: 2\r\n\r\nhi" ++ ascii "GET /b HTTP/1.1\r\n\r\n"

private theorem reads_postThenGet : Reads postThenGet [countedPost, bareGet] := by
  let post : Http1.RequestHead :=
    ⟨ascii "POST", ascii "/a", (1, 1), [(ascii "CONTENT-LENGTH", ascii "2")]⟩
  let get : Http1.RequestHead := ⟨ascii "GET", ascii "/b", (1, 1), []⟩
  have hpost : Http1.request postThenGet =
      some (post, ascii "hi", ascii "GET /b HTTP/1.1\r\n\r\n") := by
    decide +kernel
  have hget : Http1.request (ascii "GET /b HTTP/1.1\r\n\r\n") = some (get, [], []) := by
    decide +kernel
  exact .cons hpost ⟨rfl, rfl, rfl, rfl, rfl⟩ (.cons hget ⟨rfl, rfl, rfl, rfl, rfl⟩ .nil)

theorem requests_cross_hops_two : ∃ m m' d d' : Message, Relation.ReflTransGen Hop [m, m'] [d, d'] ∧
    List.Forall₂ SameBytes [m, m'] [d, d'] ∧ sendAll (fun _ => 0) [m, m'] = .ok postThenGet ∧
      ∀ junk, ∃ bs, sendAll junk [d, d'] = .ok bs ∧ ∃ rs, Reads bs rs := by
  obtain ⟨m, hm, hmok, hpost⟩ : ∃ m : Message, m.Transparent ∧ m.Acceptable ∧
      sendAll (fun _ => 0) [m] =
        .ok (ascii "POST /a HTTP/1.1\r\nCONTENT-LENGTH: 2\r\n\r\nhi") := by
    refine ⟨_, ⟨.setContentLength 2 (.setBody _ (.setTarget (ascii "/a")
      (.setMethod 3 (.newRequest .zeros)) rfl) (.append (fun _ => 7) (ascii "hi") .new rfl)) rfl,
      by decide +kernel, by decide +kernel⟩,
      ⟨by decide +kernel, fun h => absurd h (by decide +kernel), by decide +kernel,
        by decide +kernel⟩, by decide +kernel⟩
  obtain ⟨m', hm', hmok', hget⟩ : ∃ m : Message, m.Transparent ∧ m.Acceptable ∧
      sendAll (fun _ => 0) [m] = .ok (ascii "GET /b HTTP/1.1\r\n\r\n") := by
    refine ⟨_, ⟨.setTarget (ascii "/b") (.setMethod 1 (.newRequest .zeros)) rfl, by decide +kernel,
      by decide +kernel⟩, ⟨by decide +kernel, fun _ => by decide +kernel, by decide +kernel,
        by decide +kernel⟩, by decide +kernel⟩
  have hms : ∀ x ∈ [m, m'], x.Transparent :=
    List.forall_mem_cons.mpr ⟨hm, List.forall_mem_singleton.mpr hm'⟩
  have hok : ∀ x ∈ [m, m'], x.Acceptable :=
    List.forall_mem_cons.mpr ⟨hmok, List.forall_mem_singleton.mpr hmok'⟩
  have hsend : sendAll (fun _ => 0) [m, m'] = .ok postThenGet := sendAll_append hpost hget
  obtain ⟨ds, hds, hreceived⟩ :=
    delivered_of_reports [countedPost, bareGet] (Heap.const .zeros) fun _ => 0
  have hhop : Hop [m, m'] ds := ⟨_, _, _, _, _, hsend, reads_postThenGet, hds⟩
  cases hreceived with
  | cons _ hrest =>
    cases hrest with
    | cons _ hnil =>
      cases hnil
      obtain ⟨hsame, hnext⟩ := requests_cross_hops hms (.single hhop)
      refine ⟨m, m', _, _, .single hhop, hsame, hsend, fun junk => ?_⟩
      obtain ⟨bs, hbs, hreads, -⟩ := hnext junk
      exact ⟨bs, hbs, hreads hok⟩

end Message

end CHttp
