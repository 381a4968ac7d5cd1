import CHttp.Async.Pipelining
import CHttp.Sync.Worker

/-!
# What one step of a worker can do

While the worker waits in `read`, its list is empty, `reader_status` is 0 and the socket is there
(`Worker.Coherent`). From such a state every end of a step is written out: a chunk is parsed
(`Consumed`), and depending on the code that `llhttp` returns and on the messages it completed, the
worker reads on, handles a request or aborts (`read_of_consumed`).
-/

namespace CHttp

/-- The bytes that `read` returns; none at the end of the stream and for an error. -/
def RecvResult.chunk (nread : RecvResult) : List UInt8 :=
  nread.bytes.take SyncConnection.readLength

namespace SyncConnection

variable {L : Llhttp}

/-- A connection whose worker waits in `read`. -/
structure Waiting (conn : SyncConnection L) : Prop where
  inputList : conn.inputList = []
  readerStatus : conn.readerStatus = false
  socketfd : 0 < conn.socketfd

/-- What the parser makes of a buffer: the messages it completes are in the list, and
`reader_status` tells whether there are any. A handler that keeps every message would have them
after those it had. -/
structure Consumed (conn : SyncConnection L) (buffer : List UInt8) (ms : List Message)
    (conn' : SyncConnection L) : Prop where
  llhttp : conn'.llhttp = (L.execute conn.llhttp buffer).1
  parser : ∀ ds, HttpParser.callbacks HttpParser.collect (conn.parser, ds)
    (L.execute conn.llhttp buffer).2.1 = .ok (conn'.parser, ds ++ ms)
  inputList : conn'.inputList = ms
  readerStatus : conn'.readerStatus = !ms.isEmpty
  socketfd : conn'.socketfd = conn.socketfd

private theorem foldl_parserOnMessageHandler (s : List Message × Bool) (ms : List Message) :
    ms.foldl parserOnMessageHandler s = (s.1 ++ ms, s.2 || !ms.isEmpty) := by
  induction ms generalizing s with
  | nil => simp
  | cons m ms ih => simp [ih, parserOnMessageHandler]

/-- The same events through the connection's handler and through one that keeps every message after
those it had. -/
theorem Waiting.callbacks_rel {conn : SyncConnection L} (h : conn.Waiting) (ds : List Message)
    (evs : List LlEvent) :
    Except.Rel (HttpParser.Kept parserOnMessageHandler ([], false) ds)
      (HttpParser.callbacks parserOnMessageHandler
        (conn.parser, conn.inputList, conn.readerStatus) evs)
      (HttpParser.callbacks HttpParser.collect (conn.parser, ds) evs) := by
  have hkept : HttpParser.Kept parserOnMessageHandler ([], false) ds
      (conn.parser, conn.inputList, conn.readerStatus) (conn.parser, ds) := by
    rw [h.inputList, h.readerStatus]
    exact ⟨rfl, [], (List.append_nil ds).symm, rfl⟩
  exact HttpParser.callbacks_kept hkept evs

/-- `http_parser_consume` with some bytes. -/
theorem consume_eq (conn : SyncConnection L) {buffer : List UInt8} (hne : buffer ≠ []) :
    conn.consume buffer = (do
      let s ← library (HttpParser.callbacks parserOnMessageHandler
        (conn.parser, conn.inputList, conn.readerStatus) (L.execute conn.llhttp buffer).2.1)
      return (⟨(L.execute conn.llhttp buffer).1, s.1, conn.socketfd, s.2.1, s.2.2⟩,
        (L.execute conn.llhttp buffer).2.2)) := by
  have hlen : buffer.length ≠ 0 := by simpa using hne
  unfold consume HttpParser.consume
  simp only [hlen, if_false]
  cases HttpParser.callbacks parserOnMessageHandler
      (conn.parser, conn.inputList, conn.readerStatus) (L.execute conn.llhttp buffer).2.1 with
  | ok s => rfl
  | error e => rfl

/-- The parser over a buffer, when the worker waits: its code is that of `llhttp`. -/
theorem Waiting.consume_spec {conn conn' : SyncConnection L} (h : conn.Waiting)
    {buffer : List UInt8} (hne : buffer ≠ []) {rc : LlhttpErrno}
    (hc : conn.consume buffer = .ok (conn', rc)) :
    rc = (L.execute conn.llhttp buffer).2.2 ∧ ∃ ms, Consumed conn buffer ms conn' := by
  rw [consume_eq conn hne] at hc
  cases hs : HttpParser.callbacks parserOnMessageHandler
      (conn.parser, conn.inputList, conn.readerStatus) (L.execute conn.llhttp buffer).2.1 with
  | error e =>
    rw [hs] at hc
    cases hc
  | ok s =>
    rw [hs] at hc
    cases hc
    have hparser : ∀ ds, HttpParser.callbacks HttpParser.collect (conn.parser, ds)
        (L.execute conn.llhttp buffer).2.1 = .ok (s.1, ds ++ s.2.1) ∧ s.2.2 = !s.2.1.isEmpty := by
      intro ds
      obtain ⟨⟨p, ds'⟩, hds, hp, ms, hds', hms⟩ := (h.callbacks_rel ds _).exists_ok_right hs
      rw [foldl_parserOnMessageHandler] at hms
      rw [hds, hms, hp]
      exact ⟨congrArg (fun l => Except.ok (p, l)) hds', rfl⟩
    exact ⟨rfl, s.2.1, rfl, fun ds => (hparser ds).1, rfl, (hparser []).2, rfl⟩

/-- What the parser's callbacks accept, the connection consumes. -/
theorem Waiting.exists_consume {conn : SyncConnection L} (h : conn.Waiting) {buffer : List UInt8}
    (hne : buffer ≠ []) {ds : List Message} {s : HttpParser × List Message}
    (hs : HttpParser.callbacks HttpParser.collect (conn.parser, ds)
      (L.execute conn.llhttp buffer).2.1 = .ok s) :
    ∃ conn' rc, conn.consume buffer = .ok (conn', rc) := by
  obtain ⟨t, ht, -⟩ := (h.callbacks_rel ds _).exists_ok hs
  rw [consume_eq conn hne, ht]
  exact ⟨_, _, rfl⟩

/-- Nothing but a callback aborts while a buffer is consumed. -/
theorem consume_error {conn : SyncConnection L} {buffer : List UInt8} {e : Fault}
    (h : conn.consume buffer = .error e) : ∃ abort, e = .library abort := by
  unfold consume at h
  cases hc : HttpParser.consume L parserOnMessageHandler conn.llhttp
      (conn.parser, conn.inputList, conn.readerStatus) buffer with
  | ok r =>
    rw [hc] at h
    cases h
  | error abort =>
    rw [hc] at h
    cases h
    exact ⟨abort, rfl⟩

/-- As many messages as `on_message_complete` was called. -/
theorem Consumed.length_eq {conn conn' : SyncConnection L} {buffer : List UInt8}
    {ms : List Message} (h : Consumed conn buffer ms conn') :
    ms.length = (L.execute conn.llhttp buffer).2.1.count .messageComplete := by
  simpa using HttpParser.length_of_callbacks (h.parser [])

/-- `sync_connection_read` after the parser ran. -/
theorem Waiting.afterConsume_eq {conn conn' : SyncConnection L} (h : conn.Waiting)
    {buffer : List UInt8} {ms : List Message} (hms : Consumed conn buffer ms conn')
    (rc : LlhttpErrno) :
    conn'.afterConsume rc = .ok
      (if rc ≠ .ok then some rc else if ms = [] then none else some .ok) := by
  have hfd : conn'.socketfd ≠ -1 := by
    have := h.socketfd
    rw [hms.socketfd]
    omega
  unfold afterConsume
  rw [if_neg hfd, hms.inputList, hms.readerStatus]
  by_cases hrc : rc ≠ .ok
  · rw [if_pos hrc, if_pos hrc]
  · rw [if_neg hrc, if_neg hrc]
    cases ms with
    | nil => rfl
    | cons m rest => rfl

/-! ### A read that returns -/

/-- The assertion of `sync_connection_read_message` on the outcome of `sync_connection_read`. -/
def invariantsFailed : Fault := .state "sync_connection_read_message" "invariants failed"

/-- The assertion of `Worker_main` on the request. -/
def nullRequest : Fault := .state "Worker_main" "request should not be NULL"

theorem syncConnectionRead_of_chunk_nil (conn : SyncConnection L) {nread : RecvResult}
    (hnil : nread.chunk = []) : conn.syncConnectionRead nread = .ok (conn, some hpeUser) := by
  cases nread with
  | got bs => exact if_neg (not_not.mpr hnil)
  | fail errno => rfl

theorem syncConnectionRead_of_chunk (conn : SyncConnection L) {nread : RecvResult}
    (hne : nread.chunk ≠ []) :
    conn.syncConnectionRead nread = (do
      let (this, rc) ← conn.consume nread.chunk
      return (this, ← this.afterConsume rc)) := by
  cases nread with
  | got bs => exact if_pos hne
  | fail errno => exact absurd rfl hne

end SyncConnection

namespace Worker

open SyncConnection

variable {L : Llhttp} {w : Worker L} {conn conn' : SyncConnection L} {nread : RecvResult}
  {rc : LlhttpErrno} {ms : List Message}

private theorem arrived_of_chunk (hne : nread.chunk ≠ []) :
    w.arrived nread = { w with received := w.received ++ [nread.chunk] } := by
  cases nread with
  | got bs => exact if_pos hne
  | fail errno => exact absurd rfl hne

/-- No bytes: the end of the stream, a timeout or an error. The return code is −1, and the worker
takes it for a message. -/
theorem read_of_chunk_nil (h : conn.Waiting) (hnil : nread.chunk = []) :
    w.read conn nread = .error nullRequest := by
  have hafter : conn.afterRead hpeUser = .ok (conn, -1, none) := by
    simp [afterRead, invariantGotone, invariantGoterror, h.inputList, h.readerStatus, hpeUser,
      assertState]
  simp only [read, syncConnectionRead_of_chunk_nil conn hnil, Except.ok_bind, hafter]
  rfl

/-- The turn of the loop, when there are bytes. -/
theorem read_of_consume (hne : nread.chunk ≠ [])
    (hc : conn.consume nread.chunk = .ok (conn', rc)) :
    w.read conn nread = (do
      match ← conn'.afterConsume rc with
      | none => return { w.arrived nread with control := .reading conn' }
      | some rc => do
        let (conn, gotone, request) ← conn'.afterRead rc
        (w.arrived nread).gotMessage conn gotone request) := by
  rw [read, syncConnectionRead_of_chunk conn hne, hc, Except.ok_bind]
  simp only
  cases conn'.afterConsume rc with
  | ok r => rfl
  | error e => rfl

/-- A callback aborts. -/
theorem read_of_consume_error (hne : nread.chunk ≠ []) {e : Fault}
    (hc : conn.consume nread.chunk = .error e) : w.read conn nread = .error e := by
  rw [read, syncConnectionRead_of_chunk conn hne, hc]
  rfl

/-- **One read.** `llhttp` takes the chunk, and the worker reads on or handles the first message
completed; or `llhttp` rejects it, and the worker aborts, in one place or another. -/
theorem read_of_consumed (h : conn.Waiting) (hne : nread.chunk ≠ [])
    (hc : conn.consume nread.chunk = .ok (conn', rc)) (hms : Consumed conn nread.chunk ms conn') :
    w.read conn nread =
      if rc ≠ .ok then .error (if ms = [] then nullRequest else invariantsFailed)
      else match ms with
        | [] => .ok { w.arrived nread with control := .reading conn' }
        | m :: rest =>
          .ok { w.arrived nread with control := .handling { conn' with inputList := rest } m } := by
  rw [read_of_consume hne hc, h.afterConsume_eq hms, Except.ok_bind]
  by_cases hrc : rc ≠ .ok
  · rw [if_pos hrc, if_pos hrc]
    cases ms with
    | nil =>
      have hbad : conn'.afterRead rc = .ok (conn', -1, none) := by
        simp [afterRead, invariantGotone, invariantGoterror, hms.inputList, hms.readerStatus, hrc,
          assertState]
      simp only [hbad, Except.ok_bind]
      rfl
    | cons m rest =>
      have hbad : conn'.afterRead rc = .error invariantsFailed := by
        simp [afterRead, invariantGotone, invariantGoterror, hms.inputList, hms.readerStatus, hrc,
          assertState, invariantsFailed]
      simp only [hbad]
      rfl
  · rw [if_neg hrc, if_neg hrc]
    cases ms with
    | nil => rfl
    | cons m rest =>
      have hgood : conn'.afterRead .ok = .ok ({ conn' with inputList := rest }, 1, some m) := by
        simp [afterRead, invariantGotone, invariantGoterror, hms.inputList, hms.readerStatus,
          takeMessage]
      simp only [reduceCtorEq, if_false, hgood, Except.ok_bind]
      rfl

/-! ### Steps -/

/-- What holds of every state between two steps. -/
def Coherent (w : Worker L) : Prop :=
  match w.control with
  | .accepting | .exited => True
  | .reading conn => conn.Waiting
  | .handling conn _ => 0 < conn.socketfd

/-- The action does not fit the point where the worker waits. -/
def Ignores (w : Worker L) : Act → Prop
  | .accept _ _ _ => w.control ≠ .accepting
  | .read _ => ∀ conn, w.control ≠ .reading conn
  | .handle _ _ _ => ∀ conn request, w.control ≠ .handling conn request

/-- The worker with a new connection. -/
def opened (w : Worker L) (sock2 : ℤ) (heap : Heap) (memory : ByteMemory) : Worker L :=
  { w with
    control := .reading (.new L sock2 heap memory)
    received := []
    notes := []
    accepted := w.accepted ++ [sock2] }

/-- The worker after a request was answered. -/
def answered (w : Worker L) (request response : Message) (bytes : List UInt8) (rc : SendResult) :
    Worker L :=
  { w with notes := w.notes ++
      [.called request, .wrote (World.markConnection request response) bytes rc] }

/-- What a step can do. -/
inductive Move (w : Worker L) : Act → Worker L → Prop
  | stay {a : Act} (hi : w.Ignores a) : Move w a w
  | refuse {sock2 : ℤ} {heap : Heap} {memory : ByteMemory} (hw : w.control = .accepting)
      (hs : sock2 ≤ 0) : Move w (.accept sock2 heap memory) { w with control := .exited }
  | opens {sock2 : ℤ} {heap : Heap} {memory : ByteMemory} (hw : w.control = .accepting)
      (hs : 0 < sock2) : Move w (.accept sock2 heap memory) (w.opened sock2 heap memory)
  | more {conn conn' : SyncConnection L} {nread : RecvResult} (hw : w.control = .reading conn)
      (hne : nread.chunk ≠ []) (hms : Consumed conn nread.chunk [] conn')
      (hrc : (L.execute conn.llhttp nread.chunk).2.2 = .ok) :
      Move w (.read nread)
        { w with received := w.received ++ [nread.chunk], control := .reading conn' }
  | request {conn conn' : SyncConnection L} {nread : RecvResult} {m : Message}
      {rest : List Message} (hw : w.control = .reading conn) (hne : nread.chunk ≠ [])
      (hms : Consumed conn nread.chunk (m :: rest) conn')
      (hrc : (L.execute conn.llhttp nread.chunk).2.2 = .ok) :
      Move w (.read nread)
        { w with
          received := w.received ++ [nread.chunk]
          control := .handling { conn' with inputList := rest } m }
  | next {conn : SyncConnection L} {request response m : Message} {rest : List Message}
      {memory : ByteMemory} {iob : IOBuffer} {rc : SendResult}
      (hw : w.control = .handling conn request) (hkeep : World.keepAlive request)
      (hser : (World.markConnection request response).serialize memory = .ok iob)
      (hlist : conn.inputList = m :: rest) :
      Move w (.handle (some response) memory rc)
        { w.answered request response iob.data rc with
          control := .handling { conn with inputList := rest } m }
  | again {conn : SyncConnection L} {request response : Message} {memory : ByteMemory}
      {iob : IOBuffer} {rc : SendResult} (hw : w.control = .handling conn request)
      (hkeep : World.keepAlive request)
      (hser : (World.markConnection request response).serialize memory = .ok iob)
      (hlist : conn.inputList = []) :
      Move w (.handle (some response) memory rc)
        { w.answered request response iob.data rc with
          control := .reading { conn with readerStatus := false } }
  | finish {conn : SyncConnection L} {request response : Message} {memory : ByteMemory}
      {iob : IOBuffer} {rc : SendResult} (hw : w.control = .handling conn request)
      (hkeep : ¬ World.keepAlive request)
      (hser : (World.markConnection request response).serialize memory = .ok iob) :
      Move w (.handle (some response) memory rc)
        { w.answered request response iob.data rc with control := .accepting }

private theorem move_of_accept {w' : Worker L} {sock2 : ℤ} {heap : Heap} {memory : ByteMemory}
    (hw : w.control = .accepting) (hs : w.accept sock2 heap memory = .ok w') :
    Move w (.accept sock2 heap memory) w' := by
  by_cases h0 : sock2 ≤ 0
  · rw [accept, if_pos h0] at hs
    cases hs
    exact .refuse hw h0
  · rw [accept, if_neg h0] at hs
    cases hs
    exact .opens hw (by omega)

/-- A `read` after which the worker goes on. -/
theorem move_of_read {w' : Worker L} (hw : w.control = .reading conn) (h : conn.Waiting)
    (hs : w.read conn nread = .ok w') : Move w (.read nread) w' := by
  by_cases hne : nread.chunk = []
  · rw [read_of_chunk_nil h hne] at hs
    cases hs
  · cases hc : conn.consume nread.chunk with
    | error e =>
      rw [read_of_consume_error hne hc] at hs
      cases hs
    | ok r =>
      obtain ⟨conn', rc⟩ := r
      obtain ⟨rfl, ms, hms⟩ := h.consume_spec hne hc
      rw [read_of_consumed h hne hc hms] at hs
      by_cases hrc : (L.execute conn.llhttp nread.chunk).2.2 = .ok
      · rw [if_neg (not_not.mpr hrc), arrived_of_chunk hne] at hs
        cases ms with
        | nil =>
          cases hs
          exact .more hw hne hms hrc
        | cons m rest =>
          cases hs
          exact .request hw hne hms hrc
      · rw [if_pos hrc] at hs
        cases hs

private theorem move_of_handle {w' : Worker L} {request : Message} {reply : Option Message}
    {memory : ByteMemory} {sent : SendResult} (hw : w.control = .handling conn request)
    (hs : w.handle conn request reply memory sent = .ok w') :
    Move w (.handle reply memory sent) w' := by
  cases reply with
  | none => cases hs
  | some response =>
    simp only [handle, syncConnectionWrite, Except.bind_eq_ok] at hs
    obtain ⟨-, -, -, -, w₁, ⟨iob, hlib, hw₁⟩, hs⟩ := hs
    have hser := World.library_eq_ok.mp hlib
    cases hw₁
    rw [List.append_assoc, List.singleton_append] at hs
    by_cases hkeep : World.keepAlive request
    · rw [if_pos hkeep, readMessage] at hs
      by_cases hlist : conn.inputList.length ≤ 0
      · rw [if_pos hlist] at hs
        cases hs
        exact .again hw hkeep hser (List.length_eq_zero_iff.mp (Nat.le_zero.mp hlist))
      · rw [if_neg hlist, takeMessage] at hs
        split at hs
        · cases hs
        · rename_i m rest hmr
          cases hs
          exact .next hw hkeep hser hmr
    · rw [if_neg hkeep] at hs
      cases hs
      exact .finish hw hkeep hser

/-- Going on with the connection never aborts. -/
theorem exists_readMessage (w : Worker L) (conn : SyncConnection L) :
    ∃ w', w.readMessage conn = .ok w' := by
  unfold readMessage takeMessage
  cases conn.inputList with
  | nil => exact ⟨_, rfl⟩
  | cons m rest => exact ⟨_, rfl⟩

/-- `accept` never aborts. -/
theorem exists_accept (w : Worker L) (sock2 : ℤ) (heap : Heap) (memory : ByteMemory) :
    ∃ w', w.accept sock2 heap memory = .ok w' := by
  unfold accept
  split
  · exact ⟨_, rfl⟩
  · exact exists_readMessage _ _

/-- While a request is handled, nothing but a library function aborts. -/
theorem handle_error {request : Message} {reply : Option Message} {memory : ByteMemory}
    {sent : SendResult} {e : Fault} (hs : w.handle conn request reply memory sent = .error e) :
    ∃ abort, e = .library abort := by
  cases reply with
  | none =>
    cases hs
    exact ⟨_, rfl⟩
  | some response =>
    simp only [handle, syncConnectionWrite] at hs
    cases hreq : request.dump memory with
    | error a =>
      rw [hreq] at hs
      cases hs
      exact ⟨a, rfl⟩
    | ok _ =>
      cases hres : (World.markConnection request response).dump memory with
      | error a =>
        rw [hreq, hres] at hs
        cases hs
        exact ⟨a, rfl⟩
      | ok _ =>
        cases hser : (World.markConnection request response).serialize memory with
        | error a =>
          rw [hreq, hres, hser] at hs
          cases hs
          exact ⟨a, rfl⟩
        | ok iob =>
          rw [hreq, hres, hser] at hs
          simp only [World.library_ok, Except.ok_bind, Except.pure_eq_ok] at hs
          split at hs
          · obtain ⟨w', hw'⟩ := exists_readMessage { w with notes := w.notes ++ [.called request] ++
              [.wrote (World.markConnection request response) iob.data sent] } conn
            cases hs.symm.trans hw'
          · cases hs

/-- A request is answered when both messages can be printed and the response serialised. -/
theorem exists_handle {request response : Message} {memory : ByteMemory} {sent : SendResult}
    {b b' iob : IOBuffer} (hreq : request.dump memory = .ok b)
    (hres : (World.markConnection request response).dump memory = .ok b')
    (hser : (World.markConnection request response).serialize memory = .ok iob) :
    ∃ w', w.handle conn request (some response) memory sent = .ok w' := by
  simp only [handle, syncConnectionWrite, hreq, hres, hser, World.library_ok, Except.ok_bind,
    Except.pure_eq_ok]
  split
  · exact exists_readMessage _ _
  · exact ⟨_, rfl⟩

/-- A chunk that the callbacks accept and `llhttp` finds no error in. -/
theorem exists_read (h : conn.Waiting) (hne : nread.chunk ≠ []) {ds : List Message}
    {s : HttpParser × List Message}
    (hs : HttpParser.callbacks HttpParser.collect (conn.parser, ds)
      (L.execute conn.llhttp nread.chunk).2.1 = .ok s)
    (hrc : (L.execute conn.llhttp nread.chunk).2.2 = .ok) :
    ∃ w', w.read conn nread = .ok w' := by
  obtain ⟨conn', rc, hc⟩ := h.exists_consume hne hs
  obtain ⟨rfl, ms, hms⟩ := h.consume_spec hne hc
  rw [read_of_consumed h hne hc hms, if_neg (not_not.mpr hrc)]
  cases ms with
  | nil => exact ⟨_, rfl⟩
  | cons m rest => exact ⟨_, rfl⟩

/-- **Steps.** Every step that does not abort is one of these. -/
theorem move_of_step {w' : Worker L} {a : Act} (h : Coherent w) (hs : w.step a = .ok w') :
    Move w a w' := by
  cases a with
  | accept sock2 heap memory =>
    simp only [step] at hs
    split at hs
    · exact move_of_accept ‹_› hs
    · cases hs
      exact .stay ‹_›
  | read nread =>
    simp only [step] at hs
    split at hs
    · rename_i conn hw
      simp only [Coherent, hw] at h
      exact move_of_read hw h hs
    · cases hs
      exact .stay ‹_›
  | handle reply memory sent =>
    simp only [step] at hs
    split at hs
    · exact move_of_handle ‹_› hs
    · cases hs
      exact .stay ‹_›

theorem Move.coherent {w' : Worker L} {a : Act} (hm : Move w a w') (h : Coherent w) :
    Coherent w' := by
  cases hm with
  | stay hi => exact h
  | refuse hw hs => trivial
  | opens hw hs => exact ⟨rfl, rfl, hs⟩
  | more hw hne hms hrc =>
    simp only [Coherent, hw] at h
    exact ⟨hms.inputList, hms.readerStatus, hms.socketfd ▸ h.socketfd⟩
  | request hw hne hms hrc =>
    simp only [Coherent, hw] at h
    exact hms.socketfd ▸ h.socketfd
  | next hw hkeep hser hlist =>
    simp only [Coherent, hw] at h
    exact h
  | again hw hkeep hser hlist =>
    simp only [Coherent, hw] at h
    exact ⟨hlist, rfl, h⟩
  | finish hw hkeep hser => trivial

theorem init_coherent (L : Llhttp) : Coherent (init L) := trivial

theorem coherent_step {w w' : Worker L} {a : Act} (h : Coherent w) (hs : w.step a = .ok w') :
    Coherent w' := (move_of_step h hs).coherent h

end Worker

end CHttp
