import CHttp.Sync.EchoWorker

/-!
# A thread of the verifier

The loop of `threadfn` in `verify_app.c` over the requests of one connection: a request is made and
written, and the response is read, by the functions of `sync_connection.c` that the worker uses too,
before the next one. All requests but the last ask for the connection to be kept.

`sync_client_new` has no `return`; the pointer it gives is taken to be that of the client it has
made. The response times that are stored at `time_index` are left out.
-/

namespace CHttp

/-- What `threadfn` knows of a connection. The url comes from the command line. -/
structure ThreadContext where
  ident : ℕ
  connectionIndex : ℕ
  url : List UInt8
  howmanyRequests : ℕ
  url_ne_nil : url ≠ []
  url_visible : Visible url
  url_length_le : url.length ≤ Cbuffer.maxSize
  howmanyRequests_pos : 0 < howmanyRequests

namespace ThreadContext

variable (ctx : ThreadContext)

/-- `make_uid`, for the request number `i`. -/
def uid (i : ℕ) : List UInt8 := Message.makeUid ctx.ident ctx.connectionIndex i

/-- `make_uid` and `make_request`. -/
def request (junk : Message.Junk) (i : ℕ) : Except Abort Message :=
  Message.makeRequest junk ctx.url (ctx.uid i) (i + 1 < ctx.howmanyRequests)

/-- The text of the request, whatever memory it is made in. -/
def requestText (i : ℕ) : List UInt8 :=
  Http1.encodeRequestHead ⟨ascii "GET", ctx.url, (1, 1),
    (Message.requestHeaders (ctx.uid i) (i + 1 < ctx.howmanyRequests)).map fun item =>
      (item.label, item.value)⟩

/-- The texts of all the requests. -/
def texts : List (List UInt8) := (List.range ctx.howmanyRequests).map ctx.requestText

/-- A request number `i`. -/
def IsRequest (i : ℕ) (m : Message) : Prop := ∃ junk, ctx.request junk i = .ok m

/-- The answer to a request number `i`. -/
def IsAnswer (i : ℕ) (bytes : List UInt8) : Prop :=
  ∃ m body, ctx.IsRequest i m ∧ Message.AnswerBody m body ∧ bytes = Message.answerBytes m body

/-- The answer to a request number `i` for `/echo`: it has the request as its body. -/
def echoText (i : ℕ) : List UInt8 :=
  ascii "HTTP/1.1  200 OK\r\n" ++ ascii "C-HTTP-ECHO-ID: " ++ ctx.uid i ++ ascii "\r\n" ++
    ascii "CONTENT-TYPE: text/html; charset=UTF-8\r\n" ++
    ascii "CONTENT-LENGTH: " ++ Message.formatNat (ctx.requestText i).length ++ ascii "\r\n" ++
    ascii "CONNECTION: " ++
      (if i + 1 < ctx.howmanyRequests then ascii "keep-alive" else ascii "close") ++ ascii "\r\n" ++
    ascii "\r\n" ++ ctx.requestText i

variable {ctx} {i : ℕ} {m : Message}

private theorem exists_request (ctx : ThreadContext) (junk : Message.Junk) (i : ℕ) :
    ∃ m, ctx.request junk i = .ok m ∧ m.Transparent ∧
      m.MadeFor ctx.url (ctx.uid i) (i + 1 < ctx.howmanyRequests) :=
  Message.transparent_of_makeRequest junk ctx.url_ne_nil ctx.url_visible ctx.url_length_le
    ctx.ident ctx.connectionIndex i (i + 1 < ctx.howmanyRequests)

private theorem exists_isRequest (ctx : ThreadContext) (junk : Message.Junk) (i : ℕ) :
    ∃ m, ctx.request junk i = .ok m ∧ ctx.IsRequest i m := by
  obtain ⟨m, hm, -⟩ := ctx.exists_request junk i
  exact ⟨m, hm, junk, hm⟩

private theorem IsRequest.madeFor (h : ctx.IsRequest i m) :
    m.Transparent ∧ m.MadeFor ctx.url (ctx.uid i) (i + 1 < ctx.howmanyRequests) := by
  obtain ⟨junk, hm⟩ := h
  obtain ⟨m', hm', hspec⟩ := ctx.exists_request junk i
  cases hm.symm.trans hm'
  exact hspec

theorem IsRequest.keepAlive_eq (h : ctx.IsRequest i m) :
    World.keepAlive m = decide (i + 1 < ctx.howmanyRequests) :=
  h.madeFor.2.keepAlive_eq

theorem IsRequest.serialize_eq (h : ctx.IsRequest i m) (memory : ByteMemory) :
    ∃ iob, m.serialize memory = .ok iob ∧ iob.data = ctx.requestText i := by
  obtain ⟨ht, hfor⟩ := h.madeFor
  have hmeth : Message.llhttpMethodName m.method = .ok (ascii "GET") := by
    rw [hfor.method]
    rfl
  obtain ⟨iob, hiob, hdata⟩ := ht.serialize_eq hmeth memory
  refine ⟨iob, hiob, ?_⟩
  rw [hdata, hfor.body, List.append_nil, Message.head, hfor.target, hfor.minorVers, Message.fields,
    hfor.headers]
  rfl

/-- Nothing but the request comes back from `/echo`. -/
theorem IsAnswer.eq_echoText {bytes : List UInt8} (h : ctx.IsAnswer i bytes)
    (hurl : ctx.url = ascii "/echo") : bytes = ctx.echoText i := by
  obtain ⟨m, body, hm, hbody, rfl⟩ := h
  obtain ⟨ht, hfor⟩ := hm.madeFor
  have htarget : m.target.cstr = .ok (ascii "/echo") := by rw [ht.cstr_target, hfor.target, hurl]
  have hcstr : cString (ctx.uid i) = ctx.uid i :=
    cString_eq_self.mpr fun h0 => (Message.oneLine_makeUid _ _ _ 0 h0).2.2 rfl
  have hvalue : m.getHeaderValue Message.headerEchoId = some (ctx.uid i) :=
    hfor.getHeaderValue_eq.trans (congrArg some hcstr)
  cases hbody with
  | echo htarget' hser =>
    obtain ⟨iob', hiob', hdata⟩ := hm.serialize_eq _
    cases hser.symm.trans hiob'
    rw [Message.answerBytes, Message.echoLine, if_pos htarget, hvalue, hfor.keepAlive_eq, hdata]
    simp [echoText]
  | page htarget' hne _ =>
    cases htarget.symm.trans htarget'
    exact absurd rfl hne

/-! ### All the requests of a connection -/

variable {is : List ℕ} {ms ds : List Message}

theorem eq_echoTexts {answers : List (List UInt8)} (h : List.Forall₂ ctx.IsAnswer is answers)
    (hurl : ctx.url = ascii "/echo") : answers = is.map ctx.echoText := by
  induction h with
  | nil => rfl
  | cons ha _ ih => rw [List.map_cons, ha.eq_echoText hurl, ih]

theorem length_texts (ctx : ThreadContext) : ctx.texts.length = ctx.howmanyRequests := by
  simp [texts]

theorem texts_ne_nil (ctx : ThreadContext) : ∀ r ∈ ctx.texts, r ≠ [] := by
  intro r hr
  obtain ⟨i, -, rfl⟩ := List.mem_map.mp hr
  simp [requestText, Http1.encodeRequestHead]

theorem take_texts {k : ℕ} (h : k ≤ ctx.howmanyRequests) :
    ctx.texts.take k = (List.range k).map ctx.requestText := by
  rw [texts, ← List.map_take, List.take_range, min_eq_left h]

theorem forall_transparent (h : List.Forall₂ ctx.IsRequest is ms) : ∀ m ∈ ms, m.Transparent := by
  induction h with
  | nil => exact List.forall_mem_nil _
  | cons hm _ ih => exact List.forall_mem_cons.mpr ⟨hm.madeFor.1, ih⟩

/-- What the requests are serialised into. -/
theorem sendAll_requests (h : List.Forall₂ ctx.IsRequest is ms) (junk : ByteMemory) :
    Message.sendAll junk ms = .ok (is.map ctx.requestText).flatten := by
  induction h with
  | nil => rfl
  | cons hm _ ih =>
    obtain ⟨iob, hiob, hdata⟩ := hm.serialize_eq junk
    exact Message.sendAll_cons_eq_ok.mpr ⟨iob, _, hiob, ih, by simp [hdata]⟩

/-- The requests sent are the first of all requests. -/
theorem exists_all_requests (h : List.Forall₂ ctx.IsRequest (List.range ms.length) ms) (k : ℕ) :
    ∃ rest, List.Forall₂ ctx.IsRequest (List.range (ms.length + k)) (ms ++ rest) := by
  induction k with
  | zero => exact ⟨[], by simpa using h⟩
  | succ k ih =>
    obtain ⟨rest, hrest⟩ := ih
    obtain ⟨m, -, hm⟩ := ctx.exists_isRequest .zeros (ms.length + k)
    refine ⟨rest ++ [m], ?_⟩
    rw [← Nat.add_assoc, List.range_succ, ← List.append_assoc]
    exact List.rel_append hrest (.cons hm .nil)

/-- A request that arrives asks for what was asked when it was sent. -/
theorem forall₂_keepAlive (h : List.Forall₂ ctx.IsRequest is ms)
    (hds : List.Forall₂ Message.Arrives ms ds) :
    List.Forall₂ (fun i d => World.keepAlive d = decide (i + 1 < ctx.howmanyRequests)) is ds := by
  induction h generalizing ds with
  | nil =>
    cases hds
    exact .nil
  | cons hm _ ih =>
    cases hds with
    | cons hd hds => exact .cons (hd.keepAlive_eq.trans hm.keepAlive_eq) (ih hds)

theorem forall₂_isAnswer {bodies : List (List UInt8)} (h : List.Forall₂ ctx.IsRequest is ms)
    (hbodies : List.Forall₂ Message.AnswerBody ms bodies) :
    List.Forall₂ ctx.IsAnswer is (List.zipWith Message.answerBytes ms bodies) := by
  induction h generalizing bodies with
  | nil =>
    cases hbodies
    exact .nil
  | cons hm _ ih =>
    cases hbodies with
    | cons hbody hbodies => exact .cons ⟨_, _, hm, hbody, rfl⟩ (ih hbodies)

end ThreadContext

/-- The worker's `llhttp` reports the requests of the thread as the reference grammar reads them. -/
structure Llhttp.ReadsRequests (L : Llhttp) (ctx : ThreadContext) : Prop extends
    L.Takes ctx.texts where
  reports : L.ReportsStream ctx.texts.flatten

/-- The thread's `llhttp` takes every stream of answers to the first of its requests. -/
def Llhttp.ReadsAnswers (L : Llhttp) (ctx : ThreadContext) : Prop :=
  ∀ answers : List (List UInt8), answers.length ≤ ctx.howmanyRequests →
    List.Forall₂ ctx.IsAnswer (List.range answers.length) answers → L.Takes answers

/-! ### The loop -/

/-- Where `threadfn` is in the loop: at its head, in `read` for the response, or past it, with the
socket closed. -/
inductive ThreadControl (L : Llhttp)
  | sending (conn : SyncConnection L)
  | reading (conn : SyncConnection L) (request : Message)
  | closed

/-- The thread on a connection: `cycle_index`, `response_ptr`, and a history of the chunks read and
of the requests written. -/
structure VerifyThread (L : Llhttp) where
  control : ThreadControl L
  cycleIndex : ℕ
  response : Option Message
  received : List (List UInt8)
  sent : List Message

namespace VerifyThread

variable {L : Llhttp}

/-- `sync_client_connect` has returned. -/
def connected (L : Llhttp) (sockfd : ℤ) (heap : Heap) (memory : ByteMemory) : VerifyThread L :=
  ⟨.sending (.new L sockfd heap memory), 0, none, [], []⟩

/-- The thread is about to write a request. -/
def isSending (t : VerifyThread L) : Bool :=
  match t.control with
  | .sending _ => true
  | _ => false

/-- The thread waits in `read`. -/
def isReading (t : VerifyThread L) : Bool :=
  match t.control with
  | .reading _ _ => true
  | _ => false

/-- The thread has closed the connection. -/
def isClosed (t : VerifyThread L) : Bool :=
  match t.control with
  | .closed => true
  | _ => false

theorem not_open_of_isClosed {t : VerifyThread L} (h : t.isClosed = true) :
    t.isSending = false ∧ t.isReading = false := by
  cases hc : t.control with
  | closed => simp [isSending, isReading, hc]
  | _ => simp [isClosed, hc] at h

/-- `verify_response`, in which `VERIFY_DISABLED` is defined: the two texts are not compared. -/
def verifyResponse (request response : Message) (memory : ByteMemory) : Except Fault Unit := do
  let _ ← library (request.serialize memory)
  let _ ← library (response.serialize memory)

/-- The loop goes round, or ends with `sync_client_close`. -/
def nextRequest (t : VerifyThread L) (ctx : ThreadContext) (conn : SyncConnection L) :
    VerifyThread L :=
  { t with
    cycleIndex := t.cycleIndex + 1
    control := if t.cycleIndex + 1 < ctx.howmanyRequests then .sending conn else .closed }

/-- The assertion of `threadfn` that a response was read. -/
def responseNull : Fault := .state "threadfn" ""

/-- The loop from the return of `sync_connection_read_message` on. -/
def gotMessage (t : VerifyThread L) (ctx : ThreadContext) (conn : SyncConnection L)
    (request : Message) (gotone : ℤ) (response : Option Message) (memory : ByteMemory) :
    Except Fault (VerifyThread L) :=
  let t := { t with response }
  if gotone ≠ 0 then
    match t.response with
    | none => .error responseNull
    | some response => do
      verifyResponse request response memory
      -- `Message_dispose` leaves `NULL` behind
      return { t with response := none }.nextRequest ctx conn
  else .ok { t with control := .closed }

/-- The thread calls `sync_connection_read_message`. -/
def readMessage (t : VerifyThread L) (ctx : ThreadContext) (conn : SyncConnection L)
    (request : Message) (memory : ByteMemory) : Except Fault (VerifyThread L) :=
  if conn.inputList.length ≤ 0 then
    .ok { t with control := .reading { conn with readerStatus := false } request }
  else do
    let (conn, gotone, response) ← conn.takeMessage
    t.gotMessage ctx conn request gotone response memory

/-- The head of the loop up to `read`, with the bytes given to `write`. -/
def send (t : VerifyThread L) (ctx : ThreadContext) (conn : SyncConnection L)
    (junk : Message.Junk) (memory : ByteMemory) :
    Except Fault (VerifyThread L × List UInt8) := do
  let request ← library (ctx.request junk t.cycleIndex)
  assertState t.response.isNone "threadfn" "Verifier response_ptr not null"
  let serialized ← library (request.serialize memory)
  let t ← { t with sent := t.sent ++ [request] }.readMessage ctx conn request memory
  return (t, serialized.data)

/-- History: the bytes that `read` returned. -/
def arrived (t : VerifyThread L) (nread : RecvResult) : VerifyThread L :=
  if nread.chunk ≠ [] then { t with received := t.received ++ [nread.chunk] } else t

/-- `read` returns. -/
def read (t : VerifyThread L) (ctx : ThreadContext) (conn : SyncConnection L) (request : Message)
    (nread : RecvResult) (memory : ByteMemory) : Except Fault (VerifyThread L) := do
  let t := t.arrived nread
  let (conn, rc) ← conn.syncConnectionRead nread
  match rc with
  | none => return { t with control := .reading conn request }
  | some rc => do
    let (conn, gotone, response) ← conn.afterRead rc
    t.gotMessage ctx conn request gotone response memory

/-! ### Where the thread stands -/

/-- The parser stands after the chunks read, and the messages completed are those that the thread
has taken and those in the list. -/
def ParsedBy (heap : Heap) (memory : ByteMemory) (t : VerifyThread L) (conn : SyncConnection L) :
    Prop :=
  conn.llhttp = (L.reports L.init t.received).1 ∧ ∃ ds,
    HttpParser.callbacks HttpParser.collect (HttpParser.new heap memory, [])
      (L.reports L.init t.received).2 = .ok (conn.parser, ds) ∧
    t.cycleIndex + conn.inputList.length = ds.length

/-- One response was taken for each request but the last one written, for which the thread waits,
and was disposed of. -/
structure Stands (ctx : ThreadContext) (heap : Heap) (memory : ByteMemory) (t : VerifyThread L) :
    Prop where
  response : t.response = none
  chunks : ∀ c ∈ t.received, c ≠ []
  taken : t.cycleIndex ≤ (L.reports L.init t.received).2.count .messageComplete
  sending : ∀ conn, t.control = .sending conn → 0 < conn.socketfd ∧
    t.sent.length = t.cycleIndex ∧ t.cycleIndex < ctx.howmanyRequests ∧ t.ParsedBy heap memory conn
  reading : ∀ conn request, t.control = .reading conn request → conn.Waiting ∧
    t.sent.length = t.cycleIndex + 1 ∧ t.cycleIndex < ctx.howmanyRequests ∧
      t.ParsedBy heap memory conn
  closed : t.control = .closed → t.sent.length = ctx.howmanyRequests ∧
    t.cycleIndex = ctx.howmanyRequests

variable {ctx : ThreadContext} {heap : Heap} {memory : ByteMemory} {t : VerifyThread L}
  {conn conn' : SyncConnection L} {request : Message}

theorem connected_stands (L : Llhttp) (ctx : ThreadContext) {sockfd : ℤ} (h : 0 < sockfd)
    (heap : Heap) (memory : ByteMemory) :
    (connected L sockfd heap memory).Stands ctx heap memory where
  response := rfl
  chunks := List.forall_mem_nil _
  taken := Nat.zero_le _
  sending := by
    rintro conn ⟨⟩
    exact ⟨h, rfl, ctx.howmanyRequests_pos, rfl, [], rfl, rfl⟩
  reading := by rintro conn request ⟨⟩
  closed := by rintro ⟨⟩

/-- The number of messages that were completed. -/
theorem ParsedBy.count_eq (h : t.ParsedBy heap memory conn) :
    (L.reports L.init t.received).2.count .messageComplete =
      t.cycleIndex + conn.inputList.length := by
  obtain ⟨-, ds, hds, hlen⟩ := h
  have hcount := HttpParser.length_of_callbacks hds
  simp only [List.length_nil, Nat.zero_add] at hcount
  rw [hlen, hcount]

/-- **The thread writes a request** and waits for the response. -/
theorem Stands.send_spec (h : t.Stands ctx heap memory) (hc : t.control = .sending conn)
    (hlist : conn.inputList = []) (junk : Message.Junk) (memory' : ByteMemory) :
    ∃ t' m, t.send ctx conn junk memory' = .ok (t', ctx.requestText t.cycleIndex) ∧
      t'.Stands ctx heap memory ∧ ctx.IsRequest t.cycleIndex m ∧ t'.sent = t.sent ++ [m] ∧
      t'.received = t.received ∧ t'.cycleIndex = t.cycleIndex := by
  obtain ⟨hfd, hsent, hlt, hparsed⟩ := h.sending conn hc
  obtain ⟨m, hm, hreq⟩ := ctx.exists_isRequest junk t.cycleIndex
  obtain ⟨iob, hiob, hdata⟩ := hreq.serialize_eq memory'
  refine ⟨{ t with
      sent := t.sent ++ [m]
      control := .reading { conn with readerStatus := false } m }, m, ?_, ?_, hreq, rfl, rfl, rfl⟩
  · simp only [send, hm, hiob, World.library_ok, Except.ok_bind, h.response, Option.isNone_none,
      assertState_true, readMessage, hlist, List.length_nil, le_refl, if_true, hdata]
    rfl
  · refine ⟨h.response, h.chunks, h.taken, ?_, ?_, ?_⟩
    · rintro conn' ⟨⟩
    · rintro conn' request ⟨⟩
      exact ⟨⟨hlist, rfl, hfd⟩, by simp [hsent], hlt, hparsed⟩
    · rintro ⟨⟩

/-- A response is complete. -/
theorem gotMessage_cases (t : VerifyThread L) (ctx : ThreadContext) (conn : SyncConnection L)
    (request response : Message) (memory' : ByteMemory) :
    (∃ abort, t.gotMessage ctx conn request 1 (some response) memory' = .error (.library abort)) ∨
      t.gotMessage ctx conn request 1 (some response) memory' =
        .ok ({ t with response := none }.nextRequest ctx conn) := by
  simp only [gotMessage, verifyResponse]
  cases request.serialize memory' with
  | error abort => exact Or.inl ⟨abort, rfl⟩
  | ok _ =>
    cases response.serialize memory' with
    | error abort => exact Or.inl ⟨abort, rfl⟩
    | ok _ => exact Or.inr rfl

/-- A chunk that `llhttp` takes is parsed; the thread reads on or takes the first response. -/
theorem read_cases (t : VerifyThread L) (ctx : ThreadContext) (h : conn.Waiting)
    {nread : RecvResult} (hne : nread.chunk ≠ [])
    (hrc : (L.execute conn.llhttp nread.chunk).2.2 = .ok) (request : Message)
    (memory' : ByteMemory) :
    (∃ abort, t.read ctx conn request nread memory' = .error (.library abort)) ∨
      ∃ conn' ms, SyncConnection.Consumed conn nread.chunk ms conn' ∧
        (ms = [] ∧ t.read ctx conn request nread memory' =
            .ok { t with
              received := t.received ++ [nread.chunk]
              control := .reading conn' request } ∨
          ∃ m rest, ms = m :: rest ∧ t.read ctx conn request nread memory' =
            .ok ({ t with
              response := none
              received := t.received ++ [nread.chunk] }.nextRequest ctx
                { conn' with inputList := rest })) := by
  simp only [read, arrived, if_pos hne, SyncConnection.syncConnectionRead_of_chunk conn hne]
  obtain hnil | ⟨-, ⟨e, hc⟩ | ⟨conn', ms, hc, hms⟩⟩ := h.read_cases nread
  · exact absurd hnil hne
  · obtain ⟨abort, rfl⟩ := SyncConnection.consume_error hc
    rw [hc]
    exact Or.inl ⟨abort, rfl⟩
  · rw [hc, hrc]
    simp only [Except.ok_bind, h.afterConsume_eq hms]
    cases ms with
    | nil => exact Or.inr ⟨conn', [], hms, Or.inl ⟨rfl, rfl⟩⟩
    | cons m rest =>
      have hafter : conn'.afterRead .ok = .ok ({ conn' with inputList := rest }, 1, some m) := by
        simp [SyncConnection.afterRead, SyncConnection.invariantGotone,
          SyncConnection.invariantGoterror, hms.inputList, hms.readerStatus,
          SyncConnection.takeMessage]
      have hgot := gotMessage_cases { t with received := t.received ++ [nread.chunk] } ctx
        { conn' with inputList := rest } request m memory'
      simp only [ne_eq, not_true_eq_false, if_false, reduceCtorEq, Except.ok_bind,
        Except.pure_eq_ok, hafter]
      rcases hgot with ⟨abort, habort⟩ | hnext
      · exact Or.inl ⟨abort, habort⟩
      · exact Or.inr ⟨conn', m :: rest, hms, Or.inr ⟨m, rest, rfl, hnext⟩⟩

/-- The parser after one more chunk. -/
theorem ParsedBy.consumed (h : t.ParsedBy heap memory conn) (hlist : conn.inputList = [])
    {buffer : List UInt8} {ms : List Message}
    (hms : SyncConnection.Consumed conn buffer ms conn') :
    conn'.llhttp = (L.reports L.init (t.received ++ [buffer])).1 ∧ ∃ ds,
      HttpParser.callbacks HttpParser.collect (HttpParser.new heap memory, [])
        (L.reports L.init (t.received ++ [buffer])).2 = .ok (conn'.parser, ds) ∧
      t.cycleIndex + ms.length = ds.length := by
  obtain ⟨hll, ds, hds, hlen⟩ := h
  rw [Llhttp.reports_concat, ← hll]
  refine ⟨hms.llhttp, ds ++ ms, ?_, ?_⟩
  · rw [HttpParser.callbacks] at hds
    rw [HttpParser.callbacks, List.foldlM_append, hds, Except.ok_bind]
    exact hms.parser ds
  · rw [List.length_append, ← hlen, hlist, List.length_nil, Nat.add_zero]

/-- **The thread reads** a chunk that `llhttp` takes. -/
theorem Stands.read_spec (h : t.Stands ctx heap memory) (hc : t.control = .reading conn request)
    {nread : RecvResult} (hne : nread.chunk ≠ [])
    (hrc : (L.execute conn.llhttp nread.chunk).2.2 = .ok) (memory' : ByteMemory) :
    (∃ abort, t.read ctx conn request nread memory' = .error (.library abort)) ∨
      ∃ t', t.read ctx conn request nread memory' = .ok t' ∧ t'.Stands ctx heap memory ∧
        t'.sent = t.sent ∧ t'.received = t.received ++ [nread.chunk] := by
  obtain ⟨hwait, hsent, hlt, hparsed⟩ := h.reading conn request hc
  refine (read_cases t ctx hwait hne hrc request memory').imp_right ?_
  have hchunks : ∀ c ∈ t.received ++ [nread.chunk], c ≠ [] :=
    List.forall_mem_append.mpr ⟨h.chunks, List.forall_mem_singleton.mpr hne⟩
  rintro ⟨conn', ms, hms, hcase⟩
  obtain ⟨hll, ds, hds, hlen⟩ := hparsed.consumed hwait.inputList hms
  have hcount := HttpParser.length_of_callbacks hds
  simp only [List.length_nil, Nat.zero_add] at hcount
  have hfd : 0 < conn'.socketfd := hms.socketfd ▸ hwait.socketfd
  rcases hcase with ⟨rfl, hread⟩ | ⟨m, rest, rfl, hread⟩
  · refine ⟨_, hread, ⟨h.response, hchunks, ?_, ?_, ?_, ?_⟩, rfl, rfl⟩
    · change t.cycleIndex ≤ _
      rw [← hcount, ← hlen]
      exact Nat.le_add_right _ _
    · rintro conn'' ⟨⟩
    · rintro conn'' request' ⟨⟩
      refine ⟨⟨hms.inputList, hms.readerStatus, hfd⟩, hsent, hlt, hll, ds, hds, ?_⟩
      rw [hms.inputList]
      exact hlen
    · rintro ⟨⟩
  · rw [List.length_cons] at hlen
    refine ⟨_, hread, ⟨rfl, hchunks, ?_, ?_, ?_, ?_⟩, rfl, rfl⟩
    · change t.cycleIndex + 1 ≤
        (L.reports L.init (t.received ++ [nread.chunk])).2.count .messageComplete
      rw [← hcount]
      omega
    · intro conn'' heq
      simp only [nextRequest] at heq
      split at heq
      · cases heq
        refine ⟨hfd, hsent, ‹_›, hll, ds, hds, ?_⟩
        change t.cycleIndex + 1 + rest.length = ds.length
        omega
      · cases heq
    · intro conn'' request' heq
      simp only [nextRequest] at heq
      split at heq
      · cases heq
      · cases heq
    · intro heq
      simp only [nextRequest] at heq
      split at heq
      · cases heq
      · have hn : t.cycleIndex + 1 = ctx.howmanyRequests := by omega
        exact ⟨hsent.trans hn, hn⟩

/-- **A read that fails**, be it by a timeout, makes the thread abort. -/
theorem read_fail (t : VerifyThread L) (ctx : ThreadContext) (h : conn.Waiting) (request : Message)
    (errno : ℕ) (memory' : ByteMemory) :
    t.read ctx conn request (.fail errno) memory' = .error responseNull := by
  simp only [read, SyncConnection.syncConnectionRead, Except.ok_bind, SyncConnection.afterRead,
    SyncConnection.invariantGotone, SyncConnection.invariantGoterror, h.inputList, h.readerStatus]
  rfl

end VerifyThread

end CHttp
