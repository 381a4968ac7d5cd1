import CHttp.Sync.VerifyThread

/-!
# The verifier against the synchronous server

One thread of `verify_app.c` and one worker of `sync_handler_example.c`, on a connection that the
worker has accepted. Two streams of bytes are in flight between them, and `read` takes any part of
what has arrived. Both sockets block, so that `write` takes a whole buffer. A `read` can fail, for
one thing when five seconds pass without a byte. The worker closes no socket.

The thread waits for each response before it goes on, and the worker reads when it has nothing to
handle. `Kept` says how the two stand to each other, from which it follows that they never wait for
each other (`Kept.goesOn`).
-/

namespace CHttp

/-! ### A step of the worker -/

namespace Worker

variable {L : Llhttp} {w w' : Worker L} {conn : SyncConnection L} {nread : RecvResult}

/-- A request waits for the application. -/
def isHandling (w : Worker L) : Bool :=
  match w.control with
  | .handling _ _ => true
  | _ => false

/-- A chunk goes to the parser and nowhere else. -/
theorem read_frame (h : Coherent w) (hw : w.control = .reading conn)
    (hs : w.step (.read nread) = .ok w') :
    w'.received = w.received ++ [nread.chunk] ∧ w'.notes = w.notes ∧ w'.serving.isSome := by
  cases move_of_step h hs with
  | stay hi => exact absurd hw (hi conn)
  | more _ _ _ _ => exact ⟨rfl, rfl, rfl⟩
  | request _ _ _ _ => exact ⟨rfl, rfl, rfl⟩

/-- A request is handled, and its response written. -/
theorem handle_frame {request reply : Message} {memory : ByteMemory} {rc : SendResult}
    {iob : IOBuffer} (h : Coherent w) (hw : w.control = .handling conn request)
    (hser : (World.markConnection request reply).serialize memory = .ok iob)
    (hs : w.step (.handle (some reply) memory rc) = .ok w') :
    w'.received = w.received ∧ w'.handled = w.handled ++ [request] ∧
      w'.written = w.written ++ [iob.data] := by
  have hanswered := handled_answered w request reply iob.data rc
  have hwritten := written_answered w request reply iob.data rc
  cases move_of_step h hs with
  | stay hi => exact absurd hw (hi conn request)
  | next hw' _ hser' _ =>
    cases hw.symm.trans hw'
    cases hser.symm.trans hser'
    exact ⟨rfl, hanswered, hwritten⟩
  | again hw' _ hser' _ =>
    cases hw.symm.trans hw'
    cases hser.symm.trans hser'
    exact ⟨rfl, hanswered, hwritten⟩
  | finish hw' _ hser' =>
    cases hw.symm.trans hw'
    cases hser.symm.trans hser'
    exact ⟨rfl, hanswered, hwritten⟩

/-- A chunk that `llhttp` takes makes nothing but a callback abort. -/
theorem library_of_read_error {e : Fault} (h : conn.Waiting) (hne : nread.chunk ≠ [])
    (hrc : (L.execute conn.llhttp nread.chunk).2.2 = .ok)
    (hs : w.read conn nread = .error e) : ∃ abort, e = .library abort := by
  obtain hnil | ⟨-, ⟨e', hc⟩ | ⟨conn', ms, hc, hms⟩⟩ := h.read_cases nread
  · exact absurd hnil hne
  · cases (read_of_consume_error hne hc).symm.trans hs
    exact SyncConnection.consume_error hc
  · rw [read_of_consumed h hne hc hms, if_neg (not_not.mpr hrc)] at hs
    split at hs
    · cases hs
    · cases hs

end Worker

/-! ### The two together -/

/-- A thread and a worker, with the bytes in flight. -/
structure RoundTrips (L L' : Llhttp) where
  thread : VerifyThread L'
  worker : Worker L
  toWorker : List UInt8
  toThread : List UInt8

namespace RoundTrips

/-- What can happen next: the thread writes a request; `read` returns in the thread or in the
worker, with one byte more than `n` at most, or fails; the worker handles a request. -/
inductive Act
  | send (junk : Message.Junk) (memory : ByteMemory)
  | receive (n : ℕ) (memory : ByteMemory)
  | receiveFails (errno : ℕ) (memory : ByteMemory)
  | read (n : ℕ)
  | readFails (errno : ℕ)
  | handle (junk : Message.Junk) (info : Message.PageInfo) (memory memory' : ByteMemory)

/-- A `read` fails. It does so after five seconds without a byte, for one thing. -/
def Act.Fails : Act → Prop
  | .receiveFails _ _ | .readFails _ => True
  | _ => False

/-- The bytes that `read` takes. -/
def taken (n : ℕ) (inFlight : List UInt8) : List UInt8 :=
  inFlight.take (min (n + 1) SyncConnection.readLength)

variable {L L' : Llhttp}

/-- One action. A `read` waits for bytes or, in the worker, for the thread to close; it can fail at
any time. -/
def step (ctx : ThreadContext) (s : RoundTrips L L') : Act → Except Fault (RoundTrips L L')
  | .send junk memory =>
    match s.thread.control with
    | .sending conn => do
      let (thread, bytes) ← s.thread.send ctx conn junk memory
      return { s with thread, toWorker := s.toWorker ++ bytes }
    | _ => .ok s
  | .receive n memory =>
    match s.thread.control with
    | .reading conn request =>
      if s.toThread = [] then .ok s
      else do
        let bytes := taken n s.toThread
        let thread ← s.thread.read ctx conn request (.got bytes) memory
        return { s with thread, toThread := s.toThread.drop bytes.length }
    | _ => .ok s
  | .receiveFails errno memory =>
    match s.thread.control with
    | .reading conn request => do
      let thread ← s.thread.read ctx conn request (.fail errno) memory
      return { s with thread }
    | _ => .ok s
  | .read n =>
    if s.toWorker = [] ∧ !s.thread.isClosed then .ok s
    else if s.worker.isReading then do
      let bytes := taken n s.toWorker
      let worker ← s.worker.step (.read (.got bytes))
      return { s with worker, toWorker := s.toWorker.drop bytes.length }
    else .ok s
  | .readFails errno => do
    let worker ← s.worker.step (.read (.fail errno))
    return { s with worker }
  | .handle junk info memory memory' =>
    match s.worker.control with
    | .handling _ request => do
      let reply ← library (Message.appHandlerExample junk memory info request)
      let serialized ← library ((World.markConnection request reply).serialize memory')
      let worker ← s.worker.step (.handle (some reply) memory' (.accepted serialized.data.length))
      return { s with worker, toThread := s.toThread ++ serialized.data }
    | _ => .ok s

/-- The connection is made and accepted. -/
def start (L' : Llhttp) (w₀ : Worker L) (sockfd sock2 : ℤ) (heap heap' : Heap)
    (memory memory' : ByteMemory) : RoundTrips L L' where
  thread := .connected L' sockfd heap memory
  worker := w₀.opened sock2 heap' memory'
  toWorker := []
  toThread := []

/-- The action can take place, and carries the round trips on, as a failure does not. -/
def Enabled (s : RoundTrips L L') : Act → Prop
  | .send _ _ => s.thread.isSending
  | .receive _ _ => s.thread.isReading ∧ s.toThread ≠ []
  | .receiveFails _ _ => False
  | .read _ => s.worker.isReading ∧ s.toWorker ≠ []
  | .readFails _ => False
  | .handle _ _ _ _ => s.worker.isHandling

instance (s : RoundTrips L L') : ∀ a, Decidable (s.Enabled a)
  | .send _ _ => inferInstanceAs (Decidable (_ = true))
  | .receive _ _ => inferInstanceAs (Decidable (_ ∧ _))
  | .receiveFails _ _ => inferInstanceAs (Decidable False)
  | .read _ => inferInstanceAs (Decidable (_ ∧ _))
  | .readFails _ => inferInstanceAs (Decidable False)
  | .handle _ _ _ _ => inferInstanceAs (Decidable (_ = true))

/-- The worker has answered the first of the requests sent, and its answers, with what the thread
has received of them, are in order. The thread is one response behind at most, the worker leaves the
connection after the last request, and until the thread has closed it something can happen. -/
structure InStep (ctx : ThreadContext) (s : RoundTrips L L') : Prop where
  answers : s.worker.AnswersFirst s.thread.sent
  bytes : s.thread.received.flatten ++ s.toThread = s.worker.written.flatten
  taken_le : s.thread.cycleIndex ≤ s.worker.handled.length
  handled_le : s.worker.handled.length ≤ s.thread.sent.length
  sent_le : s.thread.sent.length ≤ s.thread.cycleIndex + 1
  serving_iff : s.worker.serving.isSome ↔ s.worker.handled.length < ctx.howmanyRequests
  closed : s.thread.control = .closed → s.worker.handled.length = ctx.howmanyRequests ∧
    s.toWorker = [] ∧ s.toThread = []
  goesOn : s.thread.control ≠ .closed → ∃ a, s.Enabled a

/-- A `read` that fails stops its program, at the assertion that a message was read: `-1` passes for
one. -/
structure AbortsOnFailure (ctx : ThreadContext) (s : RoundTrips L L') : Prop where
  thread : s.thread.isReading → ∀ errno memory,
    s.step ctx (.receiveFails errno memory) = .error VerifyThread.responseNull
  worker : s.worker.isReading → ∀ errno,
    s.step ctx (.readFails errno) = .error SyncConnection.nullRequest

/-- A run ends early in a library function, or at an assertion that a message was read, and then
some `read` failed. -/
def EndsAt (as : List Act) (e : Fault) : Prop :=
  (∃ abort, e = .library abort) ∨
    (e = VerifyThread.responseNull ∨ e = SyncConnection.nullRequest) ∧ ∃ a ∈ as, a.Fails

/-! ### What is kept -/

/-- What is kept along a run. -/
structure Kept (ctx : ThreadContext) (heap : Heap) (memory : ByteMemory) (s : RoundTrips L L') :
    Prop where
  worker : s.worker.Serves
  begun : s.worker.serving = none → s.worker.handled ≠ []
  thread : s.thread.Stands ctx heap memory
  sent : List.Forall₂ ctx.IsRequest (List.range s.thread.sent.length) s.thread.sent
  toWorker : s.worker.received.flatten ++ s.toWorker =
    (ctx.texts.take s.thread.sent.length).flatten
  toThread : s.thread.received.flatten ++ s.toThread = s.worker.written.flatten

variable {ctx : ThreadContext} {heap : Heap} {memory : ByteMemory} {s s' : RoundTrips L L'}

theorem start_kept (w₀ : Worker L) {sockfd sock2 : ℤ} (h : 0 < sockfd) (h' : 0 < sock2)
    (heap heap' : Heap) (memory memory' : ByteMemory) :
    (start L' w₀ sockfd sock2 heap heap' memory memory').Kept ctx heap memory where
  worker := .of_tracked (Worker.opened_tracked w₀ h' heap' memory' _) ⟨trivial, [], .nil, rfl⟩
    (List.forall_mem_nil _)
  begun := by rintro ⟨⟩
  thread := VerifyThread.connected_stands L' ctx h heap memory
  sent := .nil
  toWorker := rfl
  toThread := rfl

theorem Kept.sent_le (h : s.Kept ctx heap memory) :
    s.thread.sent.length ≤ ctx.howmanyRequests ∧
      s.thread.sent.length ≤ s.thread.cycleIndex + 1 ∧
      s.thread.cycleIndex ≤ s.thread.sent.length := by
  obtain ⟨-, -, -, hsending, hreading, hclosed⟩ := h.thread
  cases hc : s.thread.control with
  | sending conn =>
    obtain ⟨-, hsent, hlt, -⟩ := hsending conn hc
    omega
  | reading conn request =>
    obtain ⟨-, hsent, hlt, -⟩ := hreading conn request hc
    omega
  | closed =>
    obtain ⟨hsent, hcycle⟩ := hclosed hc
    omega

private theorem Kept.worker_prefix (h : s.Kept ctx heap memory) :
    s.worker.received.flatten <+: ctx.texts.flatten := by
  have hpre : s.worker.received.flatten <+: (ctx.texts.take s.thread.sent.length).flatten :=
    ⟨s.toWorker, h.toWorker⟩
  refine hpre.trans ⟨(ctx.texts.drop s.thread.sent.length).flatten, ?_⟩
  rw [← List.flatten_append, List.take_append_drop]

/-- The requests that the worker's parser has delivered are those whose bytes it has read. -/
theorem Kept.requests (h : s.Kept ctx heap memory) (hL : L.ReadsRequests ctx) :
    ∃ ds, s.worker.handled <+: ds ∧ (s.worker.isReading → s.worker.handled = ds) ∧
      ds.length = requestsWithin ctx.texts s.worker.received.flatten.length := by
  obtain ⟨_, _, ds, hdel, hpre, hreading⟩ := h.worker.echoes.requests
  refine ⟨ds, hpre, hreading, ?_⟩
  rw [HttpParser.length_of_delivered hdel]
  exact hL.completes _ h.worker.chunks h.worker_prefix

theorem Kept.handled_le (h : s.Kept ctx heap memory) (hL : L.ReadsRequests ctx) :
    s.worker.handled.length ≤ s.thread.sent.length := by
  obtain ⟨ds, hpre, -, hlen⟩ := h.requests hL
  have hread : s.worker.received.flatten.length ≤
      (ctx.texts.take s.thread.sent.length).flatten.length := by
    rw [← h.toWorker, List.length_append]
    exact Nat.le_add_right _ _
  have hmono := requestsWithin_mono ctx.texts hread
  rw [requestsWithin_take ctx.texts_ne_nil] at hmono
  have hle := hpre.length_le
  omega

/-- A worker that reads and finds nothing has handled every request. -/
theorem Kept.handled_eq (h : s.Kept ctx heap memory) (hL : L.ReadsRequests ctx)
    (hreading : s.worker.isReading) (hempty : s.toWorker = []) :
    s.worker.handled.length = s.thread.sent.length := by
  obtain ⟨ds, -, heq, hlen⟩ := h.requests hL
  have hread := h.toWorker
  rw [hempty, List.append_nil] at hread
  rw [heq hreading, hlen, hread, requestsWithin_take ctx.texts_ne_nil, ctx.length_texts]
  exact min_eq_left h.sent_le.1

private theorem Kept.exists_all (h : s.Kept ctx heap memory) : ∃ rest,
    (∀ m ∈ s.thread.sent ++ rest, m.Transparent) ∧
      Message.sendAll (fun _ => 0) (s.thread.sent ++ rest) = .ok ctx.texts.flatten := by
  obtain ⟨rest, hall⟩ :=
    ThreadContext.exists_all_requests h.sent (ctx.howmanyRequests - s.thread.sent.length)
  rw [Nat.add_sub_cancel' h.sent_le.1] at hall
  exact ⟨rest, ThreadContext.forall_transparent hall, ThreadContext.sendAll_requests hall _⟩

/-- What the worker has handled arrived as the thread sent it. -/
theorem Kept.arrives (h : s.Kept ctx heap memory) (hL : L.ReadsRequests ctx) :
    List.Forall₂ Message.Arrives (s.thread.sent.take s.worker.handled.length)
      s.worker.handled := by
  obtain ⟨rest, ht, hsend⟩ := h.exists_all
  have harrives := h.worker.arrives ht hsend hL.reports h.worker_prefix
  rwa [List.take_append_of_le_length (h.handled_le hL)] at harrives

theorem Kept.answersFirst (h : s.Kept ctx heap memory) (hL : L.ReadsRequests ctx) :
    s.worker.AnswersFirst s.thread.sent := by
  obtain ⟨rest, ht, hsend⟩ := h.exists_all
  have hanswers := h.worker.answersFirst ht hsend hL.reports h.worker_prefix
  rwa [Worker.AnswersFirst, List.take_append_of_le_length (h.handled_le hL)] at hanswers

theorem Kept.isRequest (h : s.Kept ctx heap memory) (hL : L.ReadsRequests ctx) :
    List.Forall₂ ctx.IsRequest (List.range s.worker.handled.length)
      (s.thread.sent.take s.worker.handled.length) := by
  have htake := List.forall₂_take s.worker.handled.length h.sent
  rwa [List.take_range, min_eq_left (h.handled_le hL)] at htake

/-- The buffers written are answers to the first requests. -/
theorem Kept.isAnswer (h : s.Kept ctx heap memory) (hL : L.ReadsRequests ctx) :
    List.Forall₂ ctx.IsAnswer (List.range s.worker.handled.length) s.worker.written := by
  obtain ⟨bodies, hbodies, hwritten⟩ := h.answersFirst hL
  rw [hwritten]
  exact ThreadContext.forall₂_isAnswer (h.isRequest hL) hbodies

theorem Kept.length_written (h : s.Kept ctx heap memory) (hL : L.ReadsRequests ctx) :
    s.worker.written.length = s.worker.handled.length := by
  rw [← (h.isAnswer hL).length_eq, List.length_range]

theorem Kept.takes (h : s.Kept ctx heap memory) (hL : L.ReadsRequests ctx)
    (hL' : L'.ReadsAnswers ctx) : L'.Takes s.worker.written := by
  have hlen := h.length_written hL
  refine hL' _ ?_ ?_
  · rw [hlen]
    exact (h.handled_le hL).trans h.sent_le.1
  · rw [hlen]
    exact h.isAnswer hL

/-- The responses that the thread's parser has completed are those whose bytes it has read. -/
theorem Kept.count_eq (h : s.Kept ctx heap memory) (hL : L.ReadsRequests ctx)
    (hL' : L'.ReadsAnswers ctx) :
    (L'.reports L'.init s.thread.received).2.count .messageComplete =
      requestsWithin s.worker.written s.thread.received.flatten.length :=
  (h.takes hL hL').completes _ h.thread.chunks ⟨s.toThread, h.toThread⟩

private theorem Kept.taken_le (h : s.Kept ctx heap memory) (hL : L.ReadsRequests ctx)
    (hL' : L'.ReadsAnswers ctx) : s.thread.cycleIndex ≤ s.worker.handled.length := by
  have htaken := h.thread.taken
  rw [h.count_eq hL hL'] at htaken
  rw [← h.length_written hL]
  exact htaken.trans (requestsWithin_le_length _ _)

/-- The worker leaves the connection after the last request. -/
theorem Kept.serving_iff (h : s.Kept ctx heap memory) (hL : L.ReadsRequests ctx) :
    s.worker.serving.isSome ↔ s.worker.handled.length < ctx.howmanyRequests := by
  have hkeep := ThreadContext.forall₂_keepAlive (h.isRequest hL) (h.arrives hL)
  have hle := (h.handled_le hL).trans h.sent_le.1
  have hpos := ctx.howmanyRequests_pos
  have hat : ∀ i (hi : i < s.worker.handled.length),
      World.keepAlive s.worker.handled[i] = decide (i + 1 < ctx.howmanyRequests) := by
    intro i hi
    have hget := List.Forall₂.get hkeep (by simpa using hi) hi
    simpa using hget
  constructor
  · intro hsome
    by_contra hall
    have hlast : ctx.howmanyRequests - 1 < s.worker.handled.length := by omega
    have hstays := h.worker.stays hsome _ (List.getElem_mem hlast)
    rw [hat _ hlast, decide_eq_true_eq] at hstays
    omega
  · intro hlt
    by_contra hnone
    rw [Option.not_isSome_iff_eq_none] at hnone
    obtain hnil | ⟨kept, last, hhandled, -, hleft⟩ := h.worker.leaves hnone
    · exact h.begun hnone hnil
    · have hlast := hat kept.length (by simp [hhandled])
      simp only [hhandled, List.getElem_concat_length] at hlast
      rw [hlast, decide_eq_true_eq] at hleft
      rw [hhandled, List.length_append, List.length_singleton] at hlt
      omega

/-- When the thread waits for a response and nothing is on its way, the worker has not handled the
request. -/
theorem Kept.handled_lt (h : s.Kept ctx heap memory) (hL : L.ReadsRequests ctx)
    (hL' : L'.ReadsAnswers ctx) {conn : SyncConnection L'} {request : Message}
    (hc : s.thread.control = .reading conn request) (hempty : s.toThread = []) :
    s.worker.handled.length < s.thread.sent.length := by
  obtain ⟨hwait, hsent, -, hparsed⟩ := h.thread.reading conn request hc
  have hread := h.toThread
  rw [hempty, List.append_nil] at hread
  have hcount := hparsed.count_eq
  rw [h.count_eq hL hL', hread, requestsWithin_flatten, h.length_written hL,
    hwait.inputList] at hcount
  rw [hcount, hsent]
  exact Nat.lt_succ_self _

/-- Until the thread has closed the connection something can happen. -/
theorem Kept.goesOn (h : s.Kept ctx heap memory) (hL : L.ReadsRequests ctx)
    (hL' : L'.ReadsAnswers ctx) (hopen : s.thread.control ≠ .closed) : ∃ a, s.Enabled a := by
  cases hc : s.thread.control with
  | closed => exact absurd hc hopen
  | sending conn => exact ⟨.send .zeros fun _ => 0, by simp [Enabled, VerifyThread.isSending, hc]⟩
  | reading conn request =>
    by_cases hempty : s.toThread = []
    · have hlt := h.handled_lt hL hL' hc hempty
      have hsome := (h.serving_iff hL).mpr (hlt.trans_le h.sent_le.1)
      cases hw : s.worker.control with
      | accepting => simp [Worker.serving, hw] at hsome
      | exited => simp [Worker.serving, hw] at hsome
      | handling conn' request' =>
        exact ⟨.handle .zeros ⟨[], 0, 0⟩ (fun _ => 0) fun _ => 0,
          by simp [Enabled, Worker.isHandling, hw]⟩
      | reading conn' =>
        have hreading : s.worker.isReading := by simp [Worker.isReading, hw]
        refine ⟨.read 0, hreading, fun hnone => ?_⟩
        exact absurd (h.handled_eq hL hreading hnone) hlt.ne
    · exact ⟨.receive 0 fun _ => 0, by simp [VerifyThread.isReading, hc], hempty⟩

/-- A thread that has closed the connection has every answer. -/
theorem Kept.closed (h : s.Kept ctx heap memory) (hL : L.ReadsRequests ctx)
    (hL' : L'.ReadsAnswers ctx) (hc : s.thread.control = .closed) :
    s.worker.handled.length = ctx.howmanyRequests ∧ s.toWorker = [] ∧ s.toThread = [] := by
  obtain ⟨hsent, hcycle⟩ := h.thread.closed hc
  have hhandled : s.worker.handled.length = ctx.howmanyRequests := by
    have hle := h.handled_le hL
    have hge := h.taken_le hL hL'
    omega
  refine ⟨hhandled, ?_, ?_⟩
  · obtain ⟨ds, hpre, -, hlen⟩ := h.requests hL
    have hall := hpre.length_le
    rw [hhandled, ← ctx.length_texts, hlen] at hall
    have hread := length_flatten_le hall
    have hbytes := congrArg List.length h.toWorker
    rw [hsent, List.take_of_length_le ctx.length_texts.le, List.length_append] at hbytes
    exact List.length_eq_zero_iff.mp (by omega)
  · have hall := h.thread.taken
    rw [h.count_eq hL hL', hcycle, ← hhandled, ← h.length_written hL] at hall
    have hread := length_flatten_le hall
    have hbytes := congrArg List.length h.toThread
    rw [List.length_append] at hbytes
    exact List.length_eq_zero_iff.mp (by omega)

theorem Kept.inStep (h : s.Kept ctx heap memory) (hL : L.ReadsRequests ctx)
    (hL' : L'.ReadsAnswers ctx) : s.InStep ctx where
  answers := h.answersFirst hL
  bytes := h.toThread
  taken_le := h.taken_le hL hL'
  handled_le := h.handled_le hL
  sent_le := h.sent_le.2.1
  serving_iff := h.serving_iff hL
  closed := h.closed hL hL'
  goesOn := h.goesOn hL hL'

end RoundTrips

end CHttp
