import CHttp.Http.Forward
import CHttp.Sync.Outcomes
import CHttp.ForMathlib.Machine

/-!
# The synchronous server answers in order

A client sends keep-alive requests on one connection, and the stream is cut into `read` results
anywhere. The parser puts every request it completes into `input_list`, and the worker takes them
from there one by one, reading again when the list is empty. So every request is given to
`app_handler` once and in order, and its response written before the next one is taken
(`requests_answered_in_order`).
-/

namespace CHttp

/-! ### Keep-alive requests -/

/-- The report of a keep-alive request, of any size: it has a url and a method that `llhttp` knows,
and the first header field named `Connection` says `keep-alive`, letter case apart. -/
structure MessageEvents.KeepsAlive (m : MessageEvents) : Prop where
  request : ∃ url, m.start = .request url
  url : cString m.start.url ≠ []
  method : m.method < Message.methodNames.length
  connection : ∃ h, m.headers.find? (fun h => makeUpper h.name = ascii "CONNECTION") = some h ∧
    makeUpper h.text = ascii "KEEP-ALIVE"

/-- What is assumed of `llhttp` on the stream of these requests, however it is cut: it completes
each of them with its last byte, what it reports are keep-alive requests, the last of them perhaps
in part, and it finds no error. -/
structure Llhttp.ReadsKeepAlive (L : Llhttp) (reqs : List (List UInt8)) : Prop where
  completes : L.CompletesEach reqs
  reports : ∀ chunks : List (List UInt8), (∀ c ∈ chunks, c ≠ []) →
    chunks.flatten <+: reqs.flatten → ∃ rs : List MessageEvents, (∀ r ∈ rs, r.KeepsAlive) ∧
      (L.reports L.init chunks).2 <+: rs.flatMap MessageEvents.events
  goesOn : ∀ (chunks : List (List UInt8)) (c : List UInt8), (∀ c ∈ chunks, c ≠ []) → c ≠ [] →
    (chunks ++ [c]).flatten <+: reqs.flatten →
      (L.execute (L.reports L.init chunks).1 c).2.2 = .ok

/-- The texts of these requests are within the limits of the parser's buffers. -/
def Llhttp.ReportsFit (L : Llhttp) (reqs : List (List UInt8)) : Prop :=
  ∀ chunks : List (List UInt8), (∀ c ∈ chunks, c ≠ []) → chunks.flatten <+: reqs.flatten →
    ∃ rs : List MessageEvents, (∀ r ∈ rs, r.Accepted) ∧
      (L.reports L.init chunks).2 <+: rs.flatMap MessageEvents.events

namespace MessageEvents

/-- Every message delivered was reported. -/
theorem exists_of_mem_deliverAll {junk : ℕ → Message.Junk} {n : ℕ} {rs : List MessageEvents}
    {v : MessageView} (h : v ∈ deliverAll junk n rs) : ∃ r ∈ rs, ∃ j, v = r.deliver j := by
  induction rs generalizing n with
  | nil => cases h
  | cons r rs ih =>
    rcases List.mem_cons.mp h with rfl | h
    · exact ⟨r, List.mem_cons_self, _, rfl⟩
    · obtain ⟨r', hr', hj⟩ := ih h
      exact ⟨r', List.mem_cons_of_mem _ hr', hj⟩

/-- The report of a message ends with `on_message_complete`, and there is none before. -/
theorem events_eq_concat (m : MessageEvents) :
    ∃ evs, m.events = evs ++ [.messageComplete] ∧ .messageComplete ∉ evs := by
  refine ⟨.messageBegin :: (m.start.events ++ (m.headers.flatMap HeaderFragments.events ++
    (.headersComplete m.httpMajor m.httpMinor m.method :: (m.body.map .body ++
      m.trailers.flatMap HeaderFragments.events)))), by simp [events], ?_⟩
  have hfields : ∀ hs : List HeaderFragments,
      LlEvent.messageComplete ∉ hs.flatMap HeaderFragments.events := by
    intro hs
    simp [HeaderFragments.events]
  have hstart : LlEvent.messageComplete ∉ m.start.events := by
    cases m.start with
    | request url => simp [StartLine.events]
    | response code reason => simp [StartLine.events]
  simp [hstart, hfields]

/-- Part of a stream of reports: some whole ones, and a part of the next in which no message is
complete. -/
theorem exists_take_of_prefix {rs : List MessageEvents} {evs : List LlEvent}
    (h : evs <+: rs.flatMap events) :
    ∃ j tail, evs = (rs.take j).flatMap events ++ tail ∧ .messageComplete ∉ tail := by
  induction rs generalizing evs with
  | nil =>
    rw [List.flatMap_nil, List.prefix_nil] at h
    exact ⟨0, [], by simp [h], by simp⟩
  | cons r rs ih =>
    rw [List.flatMap_cons] at h
    obtain ⟨whole, hwhole, hno⟩ := r.events_eq_concat
    rcases List.prefix_or_prefix_of_prefix h (List.prefix_append r.events _) with hle | hle
    · rw [hwhole] at hle
      rcases List.prefix_concat_iff.mp hle with rfl | hle
      · exact ⟨1, [], by simp [hwhole], by simp⟩
      · exact ⟨0, evs, by simp, fun hmem => hno (hle.subset hmem)⟩
    · obtain ⟨evs', rfl⟩ := hle
      obtain ⟨j, tail, rfl, htail⟩ := ih ((List.prefix_append_right_inj _).mp h)
      exact ⟨j + 1, tail, by simp, htail⟩

end MessageEvents

namespace HttpParser

variable {heap : Heap} {memory : ByteMemory} {rs : List MessageEvents} {evs : List LlEvent}

/-- Events in which no message is complete deliver nothing. -/
theorem eq_of_callbacks {s t : HttpParser × List Message} (h : callbacks collect s evs = .ok t)
    (hno : .messageComplete ∉ evs) : t.2 = s.2 := by
  have hkept : Kept collect s.2 s.2 s s := ⟨rfl, [], by simp, rfl⟩
  obtain ⟨t', ht', -, ms, hms, -⟩ := (callbacks_kept hkept evs).exists_ok_right h
  cases h.symm.trans ht'
  have hlen := length_of_callbacks h
  rw [List.count_eq_zero.mpr hno, hms, List.length_append, Nat.add_zero] at hlen
  rw [hms, List.length_eq_zero_iff.mp (by omega : ms.length = 0), List.append_nil]

/-- What the parser delivers for part of a stream of reports. -/
theorem view_of_prefix (h : evs <+: rs.flatMap MessageEvents.events) {p : HttpParser}
    {ds : List Message} (hc : callbacks collect (new heap memory, []) evs = .ok (p, ds)) :
    ∀ m ∈ ds, ∃ r ∈ rs, ∃ j, m.view = r.deliver j := by
  obtain ⟨n, tail, rfl, htail⟩ := MessageEvents.exists_take_of_prefix h
  rw [callbacks, List.foldlM_append, Except.bind_eq_ok] at hc
  obtain ⟨s, hs, hrest⟩ := hc
  have hds : ds = s.2 := eq_of_callbacks hrest htail
  have hdel : delivered heap memory ((rs.take n).flatMap MessageEvents.events) = .ok ds := by
    rw [delivered, callbacks, hs, hds]
    rfl
  have hacc : ∀ r ∈ rs.take n, r.Accepted := by
    by_contra hno
    obtain ⟨e, he⟩ := delivered_error heap memory hno
    cases hdel.symm.trans he
  obtain ⟨ds', hds', hview⟩ := delivered_ok heap memory hacc
  cases hdel.symm.trans hds'
  intro m hm
  obtain ⟨r, hr, j, hrj⟩ := MessageEvents.exists_of_mem_deliverAll
    (hview ▸ List.mem_map_of_mem (f := Message.view) hm)
  exact ⟨r, List.mem_of_mem_take hr, j, hrj⟩

/-- Where every message goes through, so does part of the stream. -/
theorem exists_callbacks_of_prefix (h : evs <+: rs.flatMap MessageEvents.events)
    (hacc : ∀ r ∈ rs, r.Accepted) : ∃ s, callbacks collect (new heap memory, []) evs = .ok s := by
  obtain ⟨ds, hds, -⟩ := delivered_ok heap memory hacc
  obtain ⟨tail, htail⟩ := h
  simp only [delivered, ← htail, callbacks, List.foldlM_append, Except.bind_eq_ok] at hds
  obtain ⟨t, ⟨s, hs, -⟩, -⟩ := hds
  exact ⟨s, hs⟩

end HttpParser

/-! ### A keep-alive request as a message -/

namespace Message

variable {m : Message} {r : MessageEvents} {j : Junk}

/-- The worker sees that the request asks for the connection to be kept. -/
theorem keepAlive_of_view (hr : r.KeepsAlive) (hv : m.view = r.deliver j) :
    World.keepAlive m := by
  obtain ⟨h, hfind, htext⟩ := hr.connection
  have hheaders : m.headers = Decoder.kept r.headers ++ Decoder.kept r.trailers.dropLast :=
    congrArg MessageView.headers hv
  have hkey : makeUpper World.headerConnectionKey = ascii "CONNECTION" := by decide
  have hkept : (Decoder.kept r.headers).find World.headerConnectionKey = some h.pair := by
    rw [HdrList.find, Decoder.kept, List.find?_map, List.find?_filter, hkey]
    refine congrArg (Option.map HeaderFragments.pair) (Eq.trans ?_ hfind)
    refine congrArg (r.headers.find? ·) (funext fun f => decide_eq_decide.mpr ?_)
    simp only [Function.comp_apply, HeaderFragments.pair, KVPair.new, cString_map_toUpper,
      decide_eq_true_eq]
    -- a field with this name has a name, so the parser keeps it
    refine and_iff_right_of_imp fun hf hname => ?_
    rw [hname] at hf
    cases hf
  have hpair : m.headers.find World.headerConnectionKey = some h.pair := by
    rw [hheaders, HdrList.find, List.find?_append, ← HdrList.find, hkept]
    rfl
  have htext' : (cString h.pair.value).map toUpper =
      (cString World.headerConnectionKeepalive).map toUpper :=
    htext.trans (by decide)
  rw [World.keepAlive, cmpHeader, hpair]
  simp only [htext', if_true, decide_true]

/-- Its first line can be formatted. -/
theorem exists_firstLine_of_view (hb : m.Built) (hr : r.KeepsAlive) (hv : m.view = r.deliver j) :
    ∃ line, m.firstLine = .ok line := by
  obtain ⟨url, hurl⟩ := hr.request
  have hne : r.start.url ≠ [] := fun h0 => hr.url (by rw [h0]; rfl)
  have hreq : m.isRequest = true := by
    refine (congrArg MessageView.isRequest hv).trans ?_
    have hurl' : url ≠ [] := fun h0 => hne (by rw [hurl, h0]; rfl)
    simp [MessageEvents.deliver, StartLine.view, hurl, hurl']
  have hmethod : m.method = r.method := (congrArg MessageView.method hv).trans (if_neg hne)
  have htarget : m.target.data = cString r.start.url := congrArg MessageView.target hv
  obtain ⟨meth, hmeth, -⟩ := exists_llhttpMethodName (hmethod ▸ hr.method)
  exact ⟨_, firstLine_request hb.sound hreq (htarget ▸ hr.url) hmeth⟩

end Message

/-! ### What the worker has served -/

/-- The requests that `app_handler` was called with. -/
def Note.request? : Note → Option Message
  | .called request => some request
  | .wrote _ _ _ => none

/-- After each call of `app_handler` one response is written, the answer to that request, before
anything else is noted. -/
def InTurn : List Note → Prop
  | [] => True
  | .called request :: .wrote response bytes _ :: rest =>
    (∃ reply memory iob, response = World.markConnection request reply ∧
      response.serialize memory = .ok iob ∧ bytes = iob.data) ∧ InTurn rest
  | _ => False

theorem InTurn.append {notes rest : List Note} (h : InTurn notes) (hrest : InTurn rest) :
    InTurn (notes ++ rest) := by
  fun_induction InTurn notes with
  | case1 => exact hrest
  | case2 request response bytes rc notes ih => exact ⟨h.1, ih h.2⟩
  | case3 => exact h.elim

namespace Worker

open SyncConnection

variable {L : Llhttp} {w w' : Worker L} {a : Act} {reqs : List (List UInt8)} {heap : Heap}
  {memory : ByteMemory}

/-- The requests that were taken from the connection, in the order of the calls. -/
def handled (w : Worker L) : List Message := w.notes.filterMap Note.request?

/-- The connection, and the requests on it that wait for their answer: the one being handled and
those in the list. -/
def serving (w : Worker L) : Option (SyncConnection L × List Message) :=
  match w.control with
  | .accepting | .exited => none
  | .reading conn => some (conn, conn.inputList)
  | .handling conn request => some (conn, request :: conn.inputList)

/-- The worker waits in `read`. -/
def isReading (w : Worker L) : Bool :=
  match w.control with
  | .reading _ => true
  | _ => false

/-- The bytes read go on with the stream of the requests. -/
def InStream (reqs : List (List UInt8)) (w : Worker L) : Act → Prop
  | .read nread => w.isReading →
    nread.chunk ≠ [] ∧ w.received.flatten ++ nread.chunk <+: reqs.flatten
  | _ => True

instance (reqs : List (List UInt8)) (w : Worker L) : ∀ a, Decidable (w.InStream reqs a)
  | .read _ => inferInstanceAs (Decidable (_ → _ ∧ _))
  | .accept _ _ _ => isTrue trivial
  | .handle _ _ _ => isTrue trivial

/-- The application answers with a response that can be written. -/
def Answers (w : Worker L) : Act → Prop
  | .handle reply _ _ =>
    match w.control with
    | .handling _ _ =>
      ∃ response line, reply = some response ∧ response.Built ∧ response.firstLine = .ok line
    | _ => True
  | _ => True

/-- Every request whose last byte was read is handled once and in order, and answered before the
next one is taken; the worker reads again when none is left. -/
structure Answered (heap : Heap) (memory : ByteMemory) (reqs : List (List UInt8)) (w : Worker L) :
    Prop where
  handled : ∃ conn queue ds, w.serving = some (conn, queue) ∧
    HttpParser.delivered heap memory (L.reports L.init w.received).2 = .ok ds ∧
    ds.length = requestsWithin reqs w.received.flatten.length ∧ w.handled ++ queue = ds
  inTurn : InTurn w.notes
  drained : ∀ conn, w.control = .reading conn → conn.inputList = []

/-- Where the parser of the connection stands: after the chunks read, with the messages `ds`
completed, which were handled or wait for it. -/
structure Tracked (heap : Heap) (memory : ByteMemory) (reqs : List (List UInt8))
    (ds : List Message) (w : Worker L) : Prop where
  coherent : Coherent w
  chunks : ∀ c ∈ w.received, c ≠ []
  stream : w.received.flatten <+: reqs.flatten
  inTurn : InTurn w.notes
  serving : ∃ conn queue, w.serving = some (conn, queue) ∧ w.handled ++ queue = ds ∧
    (L.reports L.init w.received).1 = conn.llhttp ∧
    HttpParser.callbacks HttpParser.collect (HttpParser.new heap memory, [])
      (L.reports L.init w.received).2 = .ok (conn.parser, ds)

variable {ds : List Message}

theorem Tracked.answered (hL : L.CompletesEach reqs) (h : Tracked heap memory reqs ds w) :
    Answered heap memory reqs w := by
  obtain ⟨conn, queue, hserving, hqueue, -, hparser⟩ := h.serving
  refine ⟨⟨conn, queue, ds, hserving, ?_, ?_, hqueue⟩, h.inTurn, fun conn' hw => ?_⟩
  · rw [HttpParser.delivered, hparser]
    rfl
  · rw [← hL w.received h.chunks h.stream]
    simpa using HttpParser.length_of_callbacks hparser
  · have hcoh := h.coherent
    simp only [Coherent, hw] at hcoh
    exact hcoh.inputList

theorem opened_tracked (w : Worker L) {sock2 : ℤ} (hs : 0 < sock2) (heap : Heap)
    (memory : ByteMemory) (reqs : List (List UInt8)) :
    Tracked heap memory reqs [] (w.opened sock2 heap memory) :=
  ⟨⟨rfl, rfl, hs⟩, nofun, List.nil_prefix, trivial, _, _, rfl, rfl, rfl, rfl⟩

/-- Every message delivered is a keep-alive request. -/
theorem Tracked.exists_report (hL : L.ReadsKeepAlive reqs) (h : Tracked heap memory reqs ds w) :
    ∀ m ∈ ds, m.Built ∧ ∃ r j, MessageEvents.KeepsAlive r ∧ m.view = r.deliver j := by
  obtain ⟨conn, queue, -, -, -, hparser⟩ := h.serving
  obtain ⟨rs, hrs, hpre⟩ := hL.reports w.received h.chunks h.stream
  have hdel : HttpParser.delivered heap memory (L.reports L.init w.received).2 = .ok ds := by
    rw [HttpParser.delivered, hparser]
    rfl
  intro m hm
  obtain ⟨r, hr, j, hv⟩ := HttpParser.view_of_prefix hpre hparser m hm
  exact ⟨HttpParser.delivered_built hdel m hm, r, j, hrs r hr, hv⟩

theorem InStream.stream {nread : RecvResult} {conn : SyncConnection L}
    (hin : w.InStream reqs (.read nread)) (hw : w.control = .reading conn) :
    nread.chunk ≠ [] ∧ (w.received ++ [nread.chunk]).flatten <+: reqs.flatten := by
  have hreading : w.isReading := by
    rw [isReading, hw]
  rw [List.flatten_concat]
  exact hin hreading

/-- A chunk is parsed: the messages completed come after those there were. -/
theorem Tracked.parsed {conn conn' c : SyncConnection L} {nread : RecvResult} {ms : List Message}
    (h : Tracked heap memory reqs ds w) (hw : w.control = .reading conn)
    (hin : w.InStream reqs (.read nread)) (hms : Consumed conn nread.chunk ms conn')
    (hcoh : Coherent w') (hreceived : w'.received = w.received ++ [nread.chunk])
    (hnotes : w'.notes = w.notes) (hserving : w'.serving = some (c, ms))
    (hllhttp : c.llhttp = conn'.llhttp) (hparser : c.parser = conn'.parser) :
    Tracked heap memory reqs (ds ++ ms) w' := by
  obtain ⟨hne, hstream⟩ := hin.stream hw
  have hcoh' := h.coherent
  simp only [Coherent, hw] at hcoh'
  obtain ⟨conn₀, queue, hs, hqueue, hll, hp⟩ := h.serving
  simp only [Worker.serving, hw, Option.some.injEq, Prod.mk.injEq] at hs
  obtain ⟨rfl, rfl⟩ := hs
  rw [hcoh'.inputList, List.append_nil] at hqueue
  refine ⟨hcoh, ?_, hreceived ▸ hstream, hnotes ▸ h.inTurn, c, ms, hserving, ?_, ?_, ?_⟩
  · rw [hreceived]
    simp only [List.mem_append, List.mem_singleton]
    rintro c' (hc | rfl)
    · exact h.chunks c' hc
    · exact hne
  · rw [handled, hnotes, ← hqueue]
    rfl
  · rw [hreceived, Llhttp.reports_concat, hll, hllhttp, hms.llhttp]
  · rw [HttpParser.callbacks] at hp
    rw [hreceived, Llhttp.reports_concat, hll, HttpParser.callbacks, List.foldlM_append, hp,
      Except.ok_bind, hparser]
    exact hms.parser ds

/-- A request was answered, and the worker goes on with the connection. -/
theorem Tracked.wrote {conn conn' : SyncConnection L} {request response : Message}
    {memory' : ByteMemory} {iob : IOBuffer} {rc : SendResult}
    (h : Tracked heap memory reqs ds w) (hw : w.control = .handling conn request)
    (hser : (World.markConnection request response).serialize memory' = .ok iob)
    (hcoh : Coherent w') (hreceived : w'.received = w.received)
    (hnotes : w'.notes = (w.answered request response iob.data rc).notes)
    (hserving' : w'.serving = some (conn', conn.inputList)) (hll' : conn'.llhttp = conn.llhttp)
    (hp' : conn'.parser = conn.parser) : Tracked heap memory reqs ds w' := by
  obtain ⟨conn₀, queue, hserving, hqueue, hll, hp⟩ := h.serving
  simp only [Worker.serving, hw, Option.some.injEq, Prod.mk.injEq] at hserving
  obtain ⟨rfl, rfl⟩ := hserving
  refine ⟨hcoh, hreceived ▸ h.chunks, hreceived ▸ h.stream, ?_, conn', _, hserving', ?_, ?_, ?_⟩
  · rw [hnotes]
    exact h.inTurn.append ⟨⟨_, _, _, rfl, hser, rfl⟩, trivial⟩
  · rw [← hqueue, handled, hnotes]
    simp [handled, Worker.answered, Note.request?]
  · rw [hreceived, hll, hll']
  · rw [hreceived, hp, hp']

/-- **One step.** The worker goes on with the connection. -/
theorem tracked_step (hL : L.ReadsKeepAlive reqs) (h : Tracked heap memory reqs ds w)
    (hin : w.InStream reqs a) (hs : w.step a = .ok w') :
    ∃ ds', Tracked heap memory reqs ds' w' := by
  have hm := move_of_step h.coherent hs
  have hcoh := hm.coherent h.coherent
  have hreport := h.exists_report hL
  obtain ⟨conn₀, queue, hserving, hqueue, hll, hp⟩ := h.serving
  cases hm with
  | stay hi => exact ⟨ds, h⟩
  | refuse hw _ => simp [serving, hw] at hserving
  | opens hw _ => simp [serving, hw] at hserving
  | more hw hne hms _ =>
    refine ⟨_, h.parsed hw hin hms hcoh rfl rfl ?_ rfl rfl⟩
    simp [serving, hms.inputList]
  | request hw hne hms _ => exact ⟨_, h.parsed hw hin hms hcoh rfl rfl rfl rfl rfl⟩
  | @next conn _ _ m rest _ _ _ hw hkeep hser hlist =>
    have hqueue' : some ({ conn with inputList := rest }, m :: rest) =
        some ({ conn with inputList := rest }, conn.inputList) := by
      rw [hlist]
    exact ⟨ds, h.wrote hw hser hcoh rfl rfl hqueue' rfl rfl⟩
  | again hw hkeep hser hlist => exact ⟨ds, h.wrote hw hser hcoh rfl rfl rfl rfl rfl⟩
  | @finish conn request _ _ _ _ hw hkeep _ =>
    -- every request asks for the connection to be kept
    simp only [serving, hw, Option.some.injEq, Prod.mk.injEq] at hserving
    obtain ⟨rfl, rfl⟩ := hserving
    obtain ⟨-, r, j, hr, hv⟩ := hreport request (hqueue ▸ by simp)
    exact absurd (Message.keepAlive_of_view hr hv) hkeep

/-! ### No step aborts -/

/-- A message that was built and has a first line can be printed. -/
theorem exists_dump {m : Message} (hb : m.Built) {line : List UInt8} (hline : m.firstLine = .ok line)
    (memory : ByteMemory) : ∃ iob, m.dump memory = .ok iob :=
  Message.dump_spec hline (fun bc hbc => (hb.sound.body bc hbc).sound) memory

/-- Marking a response changes neither its first line nor how it was built. -/
theorem markConnection_spec (request : Message) {response : Message} (hb : response.Built) :
    (World.markConnection request response).Built ∧
      (World.markConnection request response).firstLine = response.firstLine := by
  unfold World.markConnection
  split
  · exact ⟨.addHeaderCstring _ _ hb, rfl⟩
  · exact ⟨.addHeaderCstring _ _ hb, rfl⟩

/-- A read goes through when the texts of the requests fit the parser's buffers. -/
theorem Tracked.exists_step_read (hL : L.ReadsKeepAlive reqs) (hfit : L.ReportsFit reqs)
    (h : Tracked heap memory reqs ds w) {nread : RecvResult} (hin : w.InStream reqs (.read nread))
    {conn : SyncConnection L} (hw : w.control = .reading conn) :
    ∃ w', w.step (.read nread) = .ok w' := by
  have hcoh := h.coherent
  obtain ⟨conn₀, queue, hserving, hqueue, hll, hp⟩ := h.serving
  simp only [step, hw]
  simp only [Coherent, hw] at hcoh
  simp only [Worker.serving, hw, Option.some.injEq, Prod.mk.injEq] at hserving
  obtain ⟨rfl, rfl⟩ := hserving
  obtain ⟨hne, hstream⟩ := hin.stream hw
  have hchunks : ∀ c ∈ w.received ++ [nread.chunk], c ≠ [] := by
    simp only [List.mem_append, List.mem_singleton]
    rintro c (hc | rfl)
    · exact h.chunks c hc
    · exact hne
  obtain ⟨rs, hacc, hpre⟩ := hfit _ hchunks hstream
  obtain ⟨s, hs⟩ := HttpParser.exists_callbacks_of_prefix hpre hacc
  rw [HttpParser.callbacks] at hp
  rw [Llhttp.reports_concat, hll, HttpParser.callbacks, List.foldlM_append, hp,
    Except.ok_bind] at hs
  refine exists_read hcoh hne hs ?_
  rw [← hll]
  exact hL.goesOn w.received nread.chunk h.chunks hne hstream

/-- A request is handled when the application answers it. -/
theorem Tracked.exists_step_handle (hL : L.ReadsKeepAlive reqs)
    (h : Tracked heap memory reqs ds w) {reply : Option Message} {memory' : ByteMemory}
    {sent : SendResult} (hans : w.Answers (.handle reply memory' sent)) {conn : SyncConnection L}
    {request : Message} (hw : w.control = .handling conn request) :
    ∃ w', w.step (.handle reply memory' sent) = .ok w' := by
  have hreport := h.exists_report hL
  obtain ⟨conn₀, queue, hserving, hqueue, -, -⟩ := h.serving
  simp only [step, hw]
  simp only [Answers, hw] at hans
  simp only [Worker.serving, hw, Option.some.injEq, Prod.mk.injEq] at hserving
  obtain ⟨rfl, rfl⟩ := hserving
  obtain ⟨response, line, rfl, hb, hline⟩ := hans
  obtain ⟨hbr, r, j, hr, hv⟩ := hreport request (hqueue ▸ by simp)
  obtain ⟨line', hline'⟩ := Message.exists_firstLine_of_view hbr hr hv
  obtain ⟨hbm, hmark⟩ := markConnection_spec request hb
  rw [← hmark] at hline
  obtain ⟨b, hreq⟩ := exists_dump hbr hline' memory'
  obtain ⟨b', hres⟩ := exists_dump hbm hline memory'
  obtain ⟨iob, hser, -⟩ := Message.serialize_spec hline
    (fun bc hbc => (hbm.sound.body bc hbc).sound) memory'
  exact exists_handle hreq hres hser

/-- **One step, progress.** Texts fit, and the application answers: the step goes through. -/
theorem Tracked.exists_step (hL : L.ReadsKeepAlive reqs) (hfit : L.ReportsFit reqs)
    (h : Tracked heap memory reqs ds w) (hin : w.InStream reqs a) (hans : w.Answers a) :
    ∃ w', w.step a = .ok w' := by
  cases a with
  | accept sock2 heap' memory' =>
    simp only [step]
    split
    · exact exists_accept w sock2 heap' memory'
    · exact ⟨w, rfl⟩
  | read nread =>
    cases hw : w.control with
    | reading conn => exact h.exists_step_read hL hfit hin hw
    | _ =>
      simp only [step, hw]
      exact ⟨w, rfl⟩
  | handle reply memory' sent =>
    cases hw : w.control with
    | handling conn request => exact h.exists_step_handle hL hans hw
    | _ =>
      simp only [step, hw]
      exact ⟨w, rfl⟩

/-! ### Along a run -/

/-- **The synchronous server answers in order.** A worker has accepted a connection on which
keep-alive requests arrive, cut into `read` results in any way. Then in every state reached, every
request whose last byte was read was handled once and in order or waits for it, each call of
`app_handler` was followed by the write of one response before the next request was taken, and the
worker reads only when none waits. And when the texts of the requests fit the parser's buffers and
the application answers each request with a response that can be written, nothing aborts. -/
theorem requests_answered_in_order (hL : L.ReadsKeepAlive reqs) (w₀ : Worker L) {sock2 : ℤ}
    (hsock : 0 < sock2) (heap : Heap) (memory : ByteMemory) {as : List Act}
    (hin : Machine.Along step (InStream reqs) (w₀.opened sock2 heap memory) as) :
    Machine.Always step (Answered heap memory reqs) (w₀.opened sock2 heap memory) as ∧
      (L.ReportsFit reqs → Machine.Along step Answers (w₀.opened sock2 heap memory) as →
        ∃ t, Machine.run step (w₀.opened sock2 heap memory) as = .ok t) := by
  have hopened : ∃ ds, Tracked heap memory reqs ds (w₀.opened sock2 heap memory) :=
    ⟨[], opened_tracked w₀ hsock heap memory reqs⟩
  have hstep : ∀ (w : Worker L) a w', (∃ ds, Tracked heap memory reqs ds w) → w.InStream reqs a →
      w.step a = .ok w' → ∃ ds, Tracked heap memory reqs ds w' := by
    rintro w a w' ⟨ds, h⟩ hp hs
    exact tracked_step hL h hp hs
  constructor
  · refine (Machine.always_of_along hstep hopened hin).mono ?_
    rintro w ⟨ds, h⟩
    exact h.answered hL.completes
  · intro hfit hans
    refine Machine.run_ok_of_along (fun w a w' h hp hs => hstep w a w' h hp.1 hs) ?_ hopened
      (hin.and hans)
    rintro w a ⟨ds, h⟩ hp
    exact h.exists_step hL hfit hp.1 hp.2

/-- What `getRequests` reports of one request. -/
def getReport : MessageEvents where
  start := .request [ascii "/"]
  httpMajor := 1
  httpMinor := 1
  method := 1
  headers := [⟨[ascii "Connection"], [ascii "keep-alive"], by simp, by simp⟩]
  body := []
  trailers := []
  body_ne_nil := MessageEvents.noBody

/-- However the stream is cut, a part of the requests is reported. -/
theorem reports_getRequests (n : ℕ) (chunks : List (List UInt8)) :
    ((World.getRequests n).reports (World.getRequests n).init chunks).2 <+:
      (List.replicate n getReport).flatMap MessageEvents.events := by
  have hevents : Script.events (List.replicate n World.getScript).flatten =
      (List.replicate n getReport).flatMap MessageEvents.events := by
    rw [Script.events_flatten, List.flatMap_replicate, List.flatMap_replicate]
    rfl
  rw [← hevents, World.getRequests, Llhttp.reports_script]
  exact Script.within_prefix_events _ _

private theorem readsKeepAlive_getRequests (n : ℕ) :
    (World.getRequests n).ReadsKeepAlive (List.replicate n World.getRequest) where
  completes := (World.takes_getRequests n).completes
  reports chunks _ _ := by
    refine ⟨List.replicate n getReport, fun r hr => ?_, reports_getRequests n chunks⟩
    rw [List.eq_of_mem_replicate hr]
    exact ⟨⟨_, rfl⟩, by decide, by decide, _, rfl, by decide⟩
  goesOn := (World.takes_getRequests n).goesOn

private theorem reportsFit_getRequests (n : ℕ) (reqs : List (List UInt8)) :
    (World.getRequests n).ReportsFit reqs := by
  intro chunks _ _
  refine ⟨List.replicate n getReport, fun r hr => ?_, reports_getRequests n chunks⟩
  rw [List.eq_of_mem_replicate hr]
  refine ⟨show (ascii "/").length ≤ Cbuffer.maxSize by decide, fun h hh => ?_, nofun⟩
  rw [getReport, List.mem_singleton] at hh
  subst hh
  exact ⟨show (ascii "Connection").length ≤ Cbuffer.maxSize by decide,
    show (ascii "keep-alive").length ≤ Cbuffer.maxSize by decide⟩

/-- A response the application may give. -/
def okResponse : Message := (Message.newResponse .zeros).setStatus 200

/-- Two requests, the second of them cut after its first line, and the answers. -/
def twoRequests : List Act :=
  [.read (.got (World.getRequest ++ World.getRequest.take 16)),
    .handle (some okResponse) (fun _ => 0) (.accepted 1000),
    .read (.got (World.getRequest.drop 16)),
    .handle (some okResponse) (fun _ => 0) (.accepted 1000)]

/-- Both are answered, and nothing aborts. -/
theorem requests_answered_in_order_two :
    Machine.Always step (Answered (.const .zeros) (fun _ => 0) (List.replicate 2 World.getRequest))
        ((init (World.getRequests 2)).opened 4 (.const .zeros) fun _ => 0) twoRequests ∧
      ∃ t, Machine.run step ((init (World.getRequests 2)).opened 4 (.const .zeros) fun _ => 0)
        twoRequests = .ok t := by
  have hin : Machine.Along step (InStream (List.replicate 2 World.getRequest))
      ((init (World.getRequests 2)).opened 4 (.const .zeros) fun _ => 0) twoRequests := by
    decide +kernel
  have hans : Machine.Along step Answers
      ((init (World.getRequests 2)).opened 4 (.const .zeros) fun _ => 0) twoRequests := by
    refine Machine.along_of_forall fun a ha w => ?_
    have hok : ∃ response line, some okResponse = some response ∧ response.Built ∧
        response.firstLine = .ok line :=
      ⟨okResponse, _, rfl, .setStatus 200 (.newResponse .zeros), rfl⟩
    simp only [twoRequests, List.mem_cons, List.not_mem_nil, or_false] at ha
    rcases ha with rfl | rfl | rfl | rfl
    · trivial
    · simp only [Answers]
      split
      · exact hok
      · trivial
    · trivial
    · simp only [Answers]
      split
      · exact hok
      · trivial
  obtain ⟨hall, hrun⟩ := requests_answered_in_order (readsKeepAlive_getRequests 2)
    (init (World.getRequests 2)) (by decide) (.const .zeros) (fun _ => 0) hin
  exact ⟨hall, hrun (reportsFit_getRequests 2 _) hans⟩

end Worker

end CHttp
