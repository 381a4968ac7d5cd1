import CHttp.Sync.Endings
import CHttp.Sync.Verifier

/-!
# The synchronous server with its example application

A worker whose application is `app_handler_example` of `sync_handler_example.c`. What it does on a
connection is determined by the requests that the parser delivers: it handles them in order, none
left out, up to the first that does not ask for the connection to be kept, and writes for each the
one response that belongs to it (`worker_echoes`). So the answers to a client are the answers to its
first requests (`first_requests_answered`), where the asynchronous server may leave some out.
-/

namespace CHttp

/-- The bytes of a response that was written. -/
def Note.bytes? : Note → Option (List UInt8)
  | .called _ => none
  | .wrote _ bytes _ => some bytes

namespace Worker

open SyncConnection

variable {L : Llhttp} {w w' : Worker L} {heap : Heap} {memory : ByteMemory}

/-- What can happen next; `app_handler_example` makes its response from the memory that
`Message_new` gets, that of the buffers, and what it is told for the page. -/
inductive ServerAct
  | accept (sock2 : ℤ) (heap : Heap) (memory : ByteMemory)
  | read (nread : RecvResult)
  | handle (junk : Message.Junk) (info : Message.PageInfo) (memory memory' : ByteMemory)
      (rc : SendResult)

/-- One step with `app_handler_example` as the application. -/
def serverStep (w : Worker L) : ServerAct → Except Fault (Worker L)
  | .accept sock2 heap memory => w.step (.accept sock2 heap memory)
  | .read nread => w.step (.read nread)
  | .handle junk info memory memory' rc =>
    match w.control with
    | .handling _ request => do
      let reply ← library (Message.appHandlerExample junk memory info request)
      w.step (.handle (some reply) memory' rc)
    | _ => .ok w

/-- The bytes given to `write`, one buffer for each response. -/
def written (w : Worker L) : List (List UInt8) := w.notes.filterMap Note.bytes?

/-- Each request handled was answered in its turn, with the bytes that belong to it. -/
structure Echoed (w : Worker L) : Prop where
  inTurn : InTurn w.notes
  bytes : ∃ bodies, List.Forall₂ Message.AnswerBody w.handled bodies ∧
    w.written = List.zipWith Message.answerBytes w.handled bodies

/-- The requests handled are the first of those delivered, and all of them when the worker reads.
Each asked for the connection to be kept, but for the last one on a connection that was left. -/
structure Echoes (w : Worker L) : Prop extends Echoed w where
  requests : ∃ heap memory ds, HttpParser.delivered heap memory (L.reports L.init w.received).2 =
    .ok ds ∧ w.handled <+: ds ∧ (w.isReading → w.handled = ds)
  stays : w.serving.isSome → ∀ request ∈ w.handled, World.keepAlive request
  leaves : w.serving = none → w.handled = [] ∨ ∃ kept last, w.handled = kept ++ [last] ∧
    (∀ request ∈ kept, World.keepAlive request) ∧ ¬ World.keepAlive last

/-! ### The notes -/

theorem handled_answered (w : Worker L) (request response : Message) (bytes : List UInt8)
    (rc : SendResult) :
    (w.answered request response bytes rc).handled = w.handled ++ [request] := by
  simp [handled, answered, Note.request?]

theorem written_answered (w : Worker L) (request response : Message) (bytes : List UInt8)
    (rc : SendResult) : (w.answered request response bytes rc).written = w.written ++ [bytes] := by
  rw [written, answered, List.filterMap_append]
  rfl

private theorem Echoed.of_notes (h : Echoed w) (hnotes : w'.notes = w.notes) : Echoed w' := by
  obtain ⟨hturn, hbytes⟩ := h
  refine ⟨hnotes ▸ hturn, ?_⟩
  rw [handled, written, hnotes]
  exact hbytes

/-- A request is answered by the application. -/
theorem Echoed.answered (h : Echoed w) {junk : Message.Junk} {info : Message.PageInfo}
    {memory' : ByteMemory} {request reply : Message} {iob : IOBuffer} (rc : SendResult)
    (happ : Message.appHandlerExample junk memory info request = .ok reply)
    (hser : (World.markConnection request reply).serialize memory' = .ok iob) :
    Echoed (w.answered request reply iob.data rc) := by
  obtain ⟨bodies, hbodies, hwritten⟩ := h.bytes
  obtain ⟨body, hbody, hbytes⟩ := Message.bytes_of_appHandlerExample happ
  obtain ⟨iob', hser', hdata⟩ := hbytes memory'
  cases hser.symm.trans hser'
  refine ⟨h.inTurn.append ⟨⟨_, _, _, rfl, hser, rfl⟩, trivial⟩, bodies ++ [body], ?_, ?_⟩
  · rw [handled_answered]
    exact List.rel_append hbodies (.cons hbody .nil)
  · rw [handled_answered, written_answered, hwritten, hdata, List.zipWith_append hbodies.length_eq]
    rfl

/-! ### One connection -/

/-- The parser has delivered these messages, and those handled are the first of them. -/
theorem Tracked.handled_prefix {reqs : List (List UInt8)} {ds : List Message}
    (h : Tracked heap memory reqs ds w) :
    HttpParser.delivered heap memory (L.reports L.init w.received).2 = .ok ds ∧
      w.handled <+: ds := by
  obtain ⟨conn, queue, -, hqueue, -, hparser⟩ := h.serving
  refine ⟨?_, queue, hqueue⟩
  rw [HttpParser.delivered, hparser]
  rfl

/-- What is kept along a run: on the connection that it has, the worker stands where the bytes read
have brought it. -/
structure Serves (w : Worker L) : Prop where
  coherent : Coherent w
  chunks : ∀ c ∈ w.received, c ≠ []
  echoed : Echoed w
  requests : ∃ heap memory ds, HttpParser.delivered heap memory (L.reports L.init w.received).2 =
    .ok ds ∧ w.handled <+: ds ∧
      (w.serving.isSome → Tracked heap memory [w.received.flatten] ds w)
  stays : w.serving.isSome → ∀ request ∈ w.handled, World.keepAlive request
  leaves : w.serving = none → w.handled = [] ∨ ∃ kept last, w.handled = kept ++ [last] ∧
    (∀ request ∈ kept, World.keepAlive request) ∧ ¬ World.keepAlive last

theorem Serves.of_tracked {ds : List Message} (h : Tracked heap memory [w.received.flatten] ds w)
    (hechoed : Echoed w) (hkeep : ∀ request ∈ w.handled, World.keepAlive request) : Serves w := by
  obtain ⟨hdel, hpre⟩ := h.handled_prefix
  obtain ⟨conn, queue, hserving, -⟩ := h.serving
  refine ⟨h.coherent, h.chunks, hechoed, ⟨heap, memory, ds, hdel, hpre, fun _ => h⟩,
    fun _ => hkeep, fun hnone => ?_⟩
  cases hnone.symm.trans hserving

theorem Serves.echoes (h : Serves w) : Echoes w := by
  obtain ⟨heap, memory, ds, hdel, hpre, htracked⟩ := h.requests
  refine ⟨h.echoed, ⟨heap, memory, ds, hdel, hpre, fun hreading => ?_⟩, h.stays, h.leaves⟩
  rw [isReading] at hreading
  split at hreading
  · rename_i conn hw
    have hcoh := h.coherent
    simp only [Coherent, hw] at hcoh
    obtain ⟨conn', queue, hserving, hqueue, -⟩ := (htracked (by simp [serving, hw])).serving
    simp only [serving, hw, Option.some.injEq, Prod.mk.injEq] at hserving
    obtain ⟨rfl, rfl⟩ := hserving
    rw [← hqueue, hcoh.inputList, List.append_nil]
  · cases hreading

/-- A chunk is parsed. -/
theorem Serves.parsed {conn conn' c : SyncConnection L} {nread : RecvResult} {ms : List Message}
    (h : Serves w) (hw : w.control = .reading conn) (hne : nread.chunk ≠ [])
    (hms : Consumed conn nread.chunk ms conn') (hcoh : Coherent w')
    (hreceived : w'.received = w.received ++ [nread.chunk]) (hnotes : w'.notes = w.notes)
    (hserving : w'.serving = some (c, ms)) (hllhttp : c.llhttp = conn'.llhttp)
    (hparser : c.parser = conn'.parser) : Serves w' := by
  obtain ⟨heap, memory, ds, -, -, htracked⟩ := h.requests
  have hsome : w.serving.isSome := by simp [serving, hw]
  have hin : w.InStream [w'.received.flatten] (.read nread) :=
    fun _ => ⟨hne, by simp [hreceived]⟩
  -- the stream is now the one that goes on with this chunk
  have hstream : Tracked heap memory [w'.received.flatten] ds w :=
    { htracked hsome with stream := by simp [hreceived] }
  refine .of_tracked (hstream.parsed hw hin hms hcoh hreceived hnotes hserving hllhttp hparser)
    (h.echoed.of_notes hnotes) ?_
  rw [handled, hnotes]
  exact h.stays hsome

/-- A request was answered, and the worker goes on with the connection. -/
theorem Serves.wrote {conn conn' : SyncConnection L} {request reply : Message}
    {memory' : ByteMemory} {iob : IOBuffer} {rc : SendResult} (h : Serves w)
    (hw : w.control = .handling conn request) (hkeep : World.keepAlive request)
    (hser : (World.markConnection request reply).serialize memory' = .ok iob)
    (hechoed : Echoed (w.answered request reply iob.data rc)) (hcoh : Coherent w')
    (hreceived : w'.received = w.received)
    (hnotes : w'.notes = (w.answered request reply iob.data rc).notes)
    (hserving : w'.serving = some (conn', conn.inputList)) (hllhttp : conn'.llhttp = conn.llhttp)
    (hparser : conn'.parser = conn.parser) : Serves w' := by
  obtain ⟨heap, memory, ds, -, -, htracked⟩ := h.requests
  have hsome : w.serving.isSome := by simp [serving, hw]
  have hhandled : w'.handled = w.handled ++ [request] := by
    rw [← handled_answered w request reply iob.data rc, handled, handled, hnotes]
  have htracked' := (htracked hsome).wrote hw hser hcoh hreceived hnotes hserving hllhttp hparser
  refine .of_tracked (hreceived ▸ htracked') (hechoed.of_notes hnotes) ?_
  rw [hhandled]
  exact List.forall_mem_append.mpr ⟨h.stays hsome, List.forall_mem_singleton.mpr hkeep⟩

/-- The last request on the connection was answered. -/
theorem Serves.finished {conn : SyncConnection L} {request reply : Message} {iob : IOBuffer}
    {rc : SendResult} (h : Serves w) (hw : w.control = .handling conn request)
    (hkeep : ¬ World.keepAlive request)
    (hechoed : Echoed (w.answered request reply iob.data rc)) :
    ({ w.answered request reply iob.data rc with control := .accepting } : Worker L).Serves := by
  obtain ⟨heap, memory, ds, hdel, -, htracked⟩ := h.requests
  have hsome : w.serving.isSome := by simp [serving, hw]
  obtain ⟨conn', queue, hserving, hqueue, -⟩ := (htracked hsome).serving
  simp only [serving, hw, Option.some.injEq, Prod.mk.injEq] at hserving
  obtain ⟨rfl, rfl⟩ := hserving
  have hhandled := handled_answered w request reply iob.data rc
  refine ⟨trivial, h.chunks, hechoed.of_notes rfl, ⟨heap, memory, ds, hdel, ?_, fun hsome => ?_⟩,
    fun hsome => ?_, fun _ => ?_⟩
  · refine ⟨conn.inputList, ?_⟩
    rw [← hqueue, List.append_cons]
    exact congrArg (· ++ conn.inputList) hhandled
  · cases hsome
  · cases hsome
  · exact Or.inr ⟨w.handled, request, hhandled, h.stays hsome, hkeep⟩

/-! ### One step -/

/-- A step of the server is a step of the worker with an application that does what
`app_handler_example` does. -/
theorem move_of_serverStep {a : ServerAct} (h : Coherent w) (hs : w.serverStep a = .ok w') :
    ∃ act, Move w act w' ∧ ∀ conn request reply memory' rc, w.control = .handling conn request →
      act = .handle (some reply) memory' rc →
        ∃ junk memory info, Message.appHandlerExample junk memory info request = .ok reply := by
  cases a with
  | accept sock2 heap memory =>
    exact ⟨.accept sock2 heap memory, move_of_step h hs, by rintro _ _ _ _ _ - ⟨⟩⟩
  | read nread => exact ⟨.read nread, move_of_step h hs, by rintro _ _ _ _ _ - ⟨⟩⟩
  | handle junk info memory memory' rc =>
    simp only [serverStep] at hs
    split at hs
    · rename_i conn request hw
      simp only [Except.bind_eq_ok, World.library_eq_ok] at hs
      obtain ⟨reply, happ, hstep⟩ := hs
      refine ⟨_, move_of_step h hstep, ?_⟩
      rintro conn' request' reply' - - hw' ⟨⟩
      cases hw.symm.trans hw'
      exact ⟨junk, memory, info, happ⟩
    · rename_i hno
      cases hs
      refine ⟨.handle none memory' rc, .stay hno, ?_⟩
      rintro _ _ _ _ _ - ⟨⟩

/-- **Moves keep what the worker serves**, when the application is `app_handler_example`. -/
theorem Move.serves {act : Act} (hm : Move w act w') (h : Serves w)
    (happ : ∀ conn request reply memory' rc, w.control = .handling conn request →
      act = .handle (some reply) memory' rc →
        ∃ junk memory info, Message.appHandlerExample junk memory info request = .ok reply) :
    Serves w' := by
  have hcoh := hm.coherent h.coherent
  cases hm with
  | stay _ => exact h
  | refuse hw _ =>
    obtain ⟨heap, memory, ds, hdel, hpre, -⟩ := h.requests
    have hnone : w.serving = none := by simp [serving, hw]
    refine ⟨hcoh, h.chunks, h.echoed.of_notes rfl, ⟨heap, memory, ds, hdel, hpre, fun hsome => ?_⟩,
      fun hsome => ?_, fun _ => h.leaves hnone⟩
    · cases hsome
    · cases hsome
  | opens _ hs =>
    exact .of_tracked (opened_tracked w hs _ _ _) ⟨trivial, [], .nil, rfl⟩ (List.forall_mem_nil _)
  | more hw hne hms _ =>
    refine h.parsed hw hne hms hcoh rfl rfl ?_ rfl rfl
    simp [serving, hms.inputList]
  | request hw hne hms _ => exact h.parsed hw hne hms hcoh rfl rfl rfl rfl rfl
  | @next conn request reply m rest _ _ rc hw hkeep hser hlist =>
    obtain ⟨_, _, _, hreply⟩ := happ _ _ _ _ _ hw rfl
    have hserving : some ({ conn with inputList := rest }, m :: rest) =
        some ({ conn with inputList := rest }, conn.inputList) := by
      rw [hlist]
    exact h.wrote hw hkeep hser (h.echoed.answered rc hreply hser) hcoh rfl rfl hserving rfl rfl
  | @again _ _ _ _ _ rc hw hkeep hser _ =>
    obtain ⟨_, _, _, hreply⟩ := happ _ _ _ _ _ hw rfl
    exact h.wrote hw hkeep hser (h.echoed.answered rc hreply hser) hcoh rfl rfl rfl rfl rfl
  | @finish _ _ _ _ _ rc hw hkeep hser =>
    obtain ⟨_, _, _, hreply⟩ := happ _ _ _ _ _ hw rfl
    exact h.finished hw hkeep (h.echoed.answered rc hreply hser)

theorem serves_step (w : Worker L) (a : ServerAct) (w' : Worker L) (h : Serves w)
    (hs : w.serverStep a = .ok w') : Serves w' := by
  obtain ⟨act, hm, happ⟩ := move_of_serverStep h.coherent hs
  exact hm.serves h happ

/-- Where a worker aborts: at the assertion about the request or the one about the outcome of a
read, or in a library function. -/
def AbortsAt (e : Fault) : Prop :=
  e = nullRequest ∨ e = invariantsFailed ∨ ∃ abort, e = .library abort

private theorem abortsAt_of_read {conn : SyncConnection L} {nread : RecvResult} {e : Fault}
    (h : conn.Waiting) (hs : w.read conn nread = .error e) : AbortsAt e := by
  obtain hnil | ⟨hne, ⟨e', hc⟩ | ⟨conn', ms, hc, hms⟩⟩ := h.read_cases nread
  · cases (read_of_chunk_nil h hnil).symm.trans hs
    exact Or.inl rfl
  · cases (read_of_consume_error hne hc).symm.trans hs
    exact Or.inr (Or.inr (consume_error hc))
  · rw [read_of_consumed h hne hc hms] at hs
    split at hs
    · cases hs
      split
      · exact Or.inl rfl
      · exact Or.inr (Or.inl rfl)
    · split at hs
      · cases hs
      · cases hs

private theorem abortsAt_of_step {a : Act} {e : Fault} (h : Coherent w) (hs : w.step a = .error e) :
    AbortsAt e := by
  cases a with
  | accept sock2 heap memory =>
    simp only [step] at hs
    split at hs
    · obtain ⟨w', hw'⟩ := exists_accept w sock2 heap memory
      cases hs.symm.trans hw'
    · cases hs
  | read nread =>
    simp only [step] at hs
    split at hs
    · rename_i conn hw
      simp only [Coherent, hw] at h
      exact abortsAt_of_read h hs
    · cases hs
  | handle reply memory sent =>
    simp only [step] at hs
    split at hs
    · exact Or.inr (Or.inr (handle_error hs))
    · cases hs

private theorem abortsAt_of_serverStep {a : ServerAct} {e : Fault} (h : Coherent w)
    (hs : w.serverStep a = .error e) : AbortsAt e := by
  cases a with
  | accept sock2 heap memory => exact abortsAt_of_step (a := .accept sock2 heap memory) h hs
  | read nread => exact abortsAt_of_step (a := .read nread) h hs
  | handle junk info memory memory' rc =>
    simp only [serverStep] at hs
    split at hs
    · rename_i conn request hw
      cases happ : Message.appHandlerExample junk memory info request with
      | error abort =>
        rw [happ] at hs
        cases hs
        exact Or.inr (Or.inr ⟨abort, rfl⟩)
      | ok reply =>
        rw [happ, World.library_ok, Except.ok_bind] at hs
        exact abortsAt_of_step h hs
    · cases hs

/-! ### Along a run -/

private theorem init_serves (L : Llhttp) : Serves (init L) := by
  refine ⟨init_coherent L, List.forall_mem_nil _, ⟨trivial, [], .nil, rfl⟩,
    ⟨.const .zeros, fun _ => 0, [], rfl, List.nil_prefix, fun hsome => ?_⟩, fun hsome => ?_,
    fun _ => Or.inl rfl⟩
  · cases hsome
  · cases hsome

/-- **The echo worker.** In every state of every run of a worker whose application is
`app_handler_example`, over any connections: the requests handled on the last connection are the
first of those that the parser delivered, all of them when the worker reads again; each asked for
the connection to be kept, but the one after which it was left; and the buffers written are the
responses that belong to them, one for each. A run ends early only at one of the worker's two
assertions or in a library function. -/
theorem worker_echoes (L : Llhttp) (as : List ServerAct) :
    Machine.Always serverStep Echoes (init L) as ∧
      ∀ e, Machine.run serverStep (init L) as = .error e → AbortsAt e := by
  refine ⟨(Machine.always_invariant serves_step (init_serves L)).mono fun _ h => h.echoes, ?_⟩
  intro e he
  by_contra hne
  exact Machine.run_error (E := fun e => ¬ AbortsAt e) serves_step
    (fun w a e' h he' hE => hE (abortsAt_of_serverStep h.coherent he')) (init_serves L) he hne

/-! ### A client -/

/-- The answers to the first requests of a client were written, and nothing else. -/
def AnswersFirst (ms : List Message) (w : Worker L) : Prop :=
  ∃ bodies, List.Forall₂ Message.AnswerBody (ms.take w.handled.length) bodies ∧
    w.written = List.zipWith Message.answerBytes (ms.take w.handled.length) bodies

/-- What the worker has handled are the first requests that the client sent. -/
theorem Serves.arrives {ms : List Message} {bs : List UInt8} {junk : ByteMemory}
    (h : Serves w) (hms : ∀ m ∈ ms, m.Transparent) (hsend : Message.sendAll junk ms = .ok bs)
    (hL : L.ReportsStream bs) (hin : w.received.flatten <+: bs) :
    List.Forall₂ Message.Arrives (ms.take w.handled.length) w.handled := by
  obtain ⟨heap, memory, ds, hdel, hpre, -⟩ := h.requests
  obtain ⟨n, harrive⟩ := arrives_of_reportsStream hms hsend hL h.chunks hin hdel
  have hle : w.handled.length ≤ n := by
    have hlen := harrive.length_eq
    have hle := hpre.length_le
    rw [List.length_take] at hlen
    omega
  have htake := List.forall₂_take w.handled.length harrive
  rwa [List.take_take, min_eq_left hle, ← List.prefix_iff_eq_take.mp hpre] at htake

theorem Serves.answersFirst {ms : List Message} {bs : List UInt8} {junk : ByteMemory}
    (h : Serves w) (hms : ∀ m ∈ ms, m.Transparent) (hsend : Message.sendAll junk ms = .ok bs)
    (hL : L.ReportsStream bs) (hin : w.received.flatten <+: bs) : w.AnswersFirst ms := by
  obtain ⟨bodies, hbodies, hwritten⟩ := h.echoed.bytes
  obtain ⟨hanswers, heq⟩ := Message.forall₂_answerBody (h.arrives hms hsend hL hin) hbodies
  exact ⟨bodies, hanswers, hwritten.trans heq⟩

/-- **A client of a worker.** A client sends requests that the grammar can carry and that announce
their bodies. In every state of every run, as long as nothing else was received on the connection:
what was written to it are the answers to the first requests that the client sent, one for each
request handled, and the answer to a request for `/echo` has the client's own bytes as its body. -/
theorem first_requests_answered {ms : List Message} {bs : List UInt8} {junk : ByteMemory}
    (hms : ∀ m ∈ ms, m.Transparent) (hsend : Message.sendAll junk ms = .ok bs)
    (hL : L.ReportsStream bs) (as : List ServerAct) :
    Machine.Always serverStep (fun w => w.received.flatten <+: bs → w.AnswersFirst ms) (init L)
      as :=
  (Machine.always_invariant serves_step (init_serves L)).mono fun _ h =>
    h.answersFirst hms hsend hL

/-- Two requests of `verify_app.c` arrive in three pieces. -/
def verifyRun : List ServerAct :=
  let handle : ServerAct :=
    .handle .zeros ⟨ascii "now", 4, 1⟩ (fun _ => 0) (fun _ => 0) (.accepted 1000)
  let first := verifyText false
  let second := verifyText true
  [.accept 4 (.const .zeros) fun _ => 0, .read (.got (first.take 20)),
    .read (.got (first.drop 20 ++ second.take 20)), handle, .read (.got (second.drop 20)), handle]

theorem first_requests_answered_verify : ∃ m m',
    Message.makeRequest .zeros (ascii "/echo") (Message.makeUid 0 0 0) true = .ok m ∧
      Message.makeRequest .zeros (ascii "/echo") (Message.makeUid 0 0 1) false = .ok m' ∧
      Machine.Always serverStep
        (fun w => w.received.flatten <+: verifyTexts → w.AnswersFirst [m, m']) (init verifyParser)
        verifyRun ∧
      (Machine.run serverStep (init verifyParser) verifyRun).map
        (fun w => (w.handled.length, w.written.length)) = .ok (2, 2) := by
  obtain ⟨m, m', hm, hm', hms, hsend⟩ := sendAll_verifyTexts
  exact ⟨m, m', hm, hm', first_requests_answered hms hsend reportsStream_verifyTexts _,
    by decide +kernel⟩

end Worker

end CHttp
