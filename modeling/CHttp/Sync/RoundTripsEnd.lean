import CHttp.Sync.RoundTrips
import Mathlib.Data.Prod.Lex

/-!
# Every round trip ends

What can happen next to a thread of the verifier and its worker keeps what `RoundTrips` says of them
and makes a measure smaller (`Kept.goes`). So they stay in step along every run (`round_trips`), and
a run in which something that can happen always happens in the end comes to the end of the
connection (`round_trips_end`).
-/

namespace CHttp

namespace RoundTrips

variable {L L' : Llhttp} {ctx : ThreadContext} {heap : Heap} {memory : ByteMemory}
  {s s' : RoundTrips L L'}

/-! ### One step -/

private theorem taken_ne_nil {inFlight : List UInt8} (h : inFlight ≠ []) (n : ℕ) :
    taken n inFlight ≠ [] := by
  have hpos : min (n + 1) SyncConnection.readLength ≠ 0 := by
    rw [SyncConnection.readLength]
    omega
  simpa [taken, List.take_eq_nil_iff, h] using hpos

private theorem chunk_taken (n : ℕ) (inFlight : List UInt8) :
    (RecvResult.got (taken n inFlight)).chunk = taken n inFlight := by
  refine List.take_of_length_le ?_
  change (taken n inFlight).length ≤ _
  rw [taken, List.length_take]
  exact (min_le_left _ _).trans (min_le_right _ _)

/-- What a `read` takes moves from the bytes in flight to the bytes received. -/
private theorem flatten_concat_taken (received : List (List UInt8)) (n : ℕ)
    (inFlight : List UInt8) :
    (received ++ [taken n inFlight]).flatten ++ inFlight.drop (taken n inFlight).length =
      received.flatten ++ inFlight := by
  have hsplit : taken n inFlight ++ inFlight.drop (taken n inFlight).length = inFlight :=
    (List.prefix_iff_eq_append.mp (List.take_prefix _ _)).symm ▸ rfl
  rw [List.flatten_concat, List.append_assoc, hsplit]

/-- What decreases with every action that takes place: the requests that are to be sent and those
that are to be handled, and the bytes in flight. -/
def variant (ctx : ThreadContext) (s : RoundTrips L L') : ℕ ×ₗ ℕ ×ₗ ℕ ×ₗ ℕ :=
  toLex (ctx.howmanyRequests - s.thread.sent.length,
    toLex (ctx.howmanyRequests - s.worker.handled.length,
      toLex (s.toWorker.length, s.toThread.length)))

private theorem length_drop_taken {inFlight : List UInt8} (h : inFlight ≠ []) (n : ℕ) :
    (inFlight.drop (taken n inFlight).length).length < inFlight.length := by
  have hpos := List.length_pos_iff.mpr (taken_ne_nil h n)
  have hpos' := List.length_pos_iff.mpr h
  rw [List.length_drop]
  omega

/-- An action that goes through keeps what is kept, and decreases the variant or changes nothing. -/
def Goes (ctx : ThreadContext) (heap : Heap) (memory : ByteMemory) (s : RoundTrips L L') (a : Act)
    (s' : RoundTrips L L') : Prop :=
  s'.Kept ctx heap memory ∧
    (s.Enabled a ∧ s'.variant ctx < s.variant ctx ∨ ¬ s.Enabled a ∧ s' = s)

/-- The thread writes a request. -/
theorem Kept.send (h : s.Kept ctx heap memory) (hL : L.ReadsRequests ctx)
    (hL' : L'.ReadsAnswers ctx) (junk : Message.Junk) (memory' : ByteMemory) :
    ∃ s', s.step ctx (.send junk memory') = .ok s' ∧
      Goes ctx heap memory s (.send junk memory') s' := by
  cases hc : s.thread.control with
  | reading conn request =>
    refine ⟨s, by simp only [step, hc], h, Or.inr ⟨?_, rfl⟩⟩
    simp [Enabled, VerifyThread.isSending, hc]
  | closed =>
    refine ⟨s, by simp only [step, hc], h, Or.inr ⟨?_, rfl⟩⟩
    simp [Enabled, VerifyThread.isSending, hc]
  | sending conn =>
    obtain ⟨-, hsent, hlt, hparsed⟩ := h.thread.sending conn hc
    -- no response is complete that the thread has not taken
    have hlist : conn.inputList = [] := by
      have hcount := hparsed.count_eq
      have hwithin := requestsWithin_le_length s.worker.written s.thread.received.flatten.length
      rw [← h.count_eq hL hL', hcount, h.length_written hL] at hwithin
      have hle := h.handled_le hL
      exact List.length_eq_zero_iff.mp (by omega)
    obtain ⟨t', m, hsend, ht', hm, hsent', hreceived, hcycle⟩ :=
      h.thread.send_spec hc hlist junk memory'
    have hlen : t'.sent.length = s.thread.sent.length + 1 := by rw [hsent', List.length_append]; rfl
    refine ⟨{ s with thread := t', toWorker := s.toWorker ++ ctx.requestText s.thread.cycleIndex },
      ?_, ⟨h.worker, h.begun, ht', ?_, ?_, ?_⟩, Or.inl ⟨?_, ?_⟩⟩
    · simp only [step, hc, hsend, Except.ok_bind]
      rfl
    · change List.Forall₂ ctx.IsRequest (List.range t'.sent.length) t'.sent
      rw [hlen, hsent', List.range_succ]
      exact List.rel_append h.sent (.cons (hsent ▸ hm) .nil)
    · change s.worker.received.flatten ++ (s.toWorker ++ _) =
        (ctx.texts.take t'.sent.length).flatten
      rw [hlen, ← List.append_assoc, h.toWorker, ThreadContext.take_texts h.sent_le.1,
        ThreadContext.take_texts (by omega), List.range_succ, List.map_append, List.flatten_append,
        hsent]
      simp
    · change t'.received.flatten ++ _ = _
      rw [hreceived]
      exact h.toThread
    · simp [Enabled, VerifyThread.isSending, hc]
    · refine Prod.Lex.toLex_lt_toLex.mpr (Or.inl ?_)
      change ctx.howmanyRequests - t'.sent.length < _
      omega

/-- The thread reads. -/
theorem Kept.receive (h : s.Kept ctx heap memory) (hL : L.ReadsRequests ctx)
    (hL' : L'.ReadsAnswers ctx) (n : ℕ) (memory' : ByteMemory) :
    (∃ abort, s.step ctx (.receive n memory') = .error (.library abort)) ∨
      ∃ s', s.step ctx (.receive n memory') = .ok s' ∧
        Goes ctx heap memory s (.receive n memory') s' := by
  cases hc : s.thread.control with
  | sending conn =>
    refine Or.inr ⟨s, by simp only [step, hc], h, Or.inr ⟨?_, rfl⟩⟩
    simp [Enabled, VerifyThread.isReading, hc]
  | closed =>
    refine Or.inr ⟨s, by simp only [step, hc], h, Or.inr ⟨?_, rfl⟩⟩
    simp [Enabled, VerifyThread.isReading, hc]
  | reading conn request =>
    have hreading : s.thread.isReading := by simp [VerifyThread.isReading, hc]
    by_cases hempty : s.toThread = []
    · refine Or.inr ⟨s, by simp only [step, hc, if_pos hempty], h, Or.inr ⟨?_, rfl⟩⟩
      rintro ⟨-, hne⟩
      exact hne hempty
    · obtain ⟨hwait, -, -, hparsed⟩ := h.thread.reading conn request hc
      have hne := taken_ne_nil hempty n
      have hchunk := chunk_taken n s.toThread
      have hmoved := (flatten_concat_taken s.thread.received n s.toThread).trans h.toThread
      have hrc := (h.takes hL hL').goesOn _ _ h.thread.chunks hne ⟨_, hmoved⟩
      rw [← hparsed.1, ← hchunk] at hrc
      obtain ⟨abort, hread⟩ | ⟨t', hread, ht', hsent, hreceived⟩ :=
        h.thread.read_spec hc (hchunk.symm ▸ hne) hrc memory'
      · refine Or.inl ⟨abort, ?_⟩
        simp only [step, hc, if_neg hempty, hread]
        rfl
      · rw [hchunk] at hreceived
        refine Or.inr ⟨{ s with
            thread := t'
            toThread := s.toThread.drop (taken n s.toThread).length }, ?_,
          ⟨h.worker, h.begun, ht', ?_, ?_, ?_⟩, Or.inl ⟨⟨hreading, hempty⟩, ?_⟩⟩
        · simp only [step, hc, if_neg hempty, hread, Except.ok_bind]
          rfl
        · exact hsent.symm ▸ h.sent
        · exact hsent.symm ▸ h.toWorker
        · exact hreceived.symm ▸ hmoved
        · simp only [variant, hsent]
          refine Prod.Lex.toLex_lt_toLex.mpr (Or.inr ⟨rfl, ?_⟩)
          refine Prod.Lex.toLex_lt_toLex.mpr (Or.inr ⟨rfl, ?_⟩)
          refine Prod.Lex.toLex_lt_toLex.mpr (Or.inr ⟨rfl, ?_⟩)
          exact length_drop_taken hempty n

/-- The worker waits for bytes only where the thread has not closed the connection, so that some
are in flight if it does not wait. -/
private theorem Kept.toWorker_ne_nil (h : s.Kept ctx heap memory) (hL : L.ReadsRequests ctx)
    (hL' : L'.ReadsAnswers ctx) (hwaits : ¬ (s.toWorker = [] ∧ !s.thread.isClosed))
    (hserving : s.worker.serving.isSome) : s.toWorker ≠ [] := by
  intro hempty
  cases hc : s.thread.control with
  | sending conn => exact hwaits ⟨hempty, by simp [VerifyThread.isClosed, hc]⟩
  | reading conn request => exact hwaits ⟨hempty, by simp [VerifyThread.isClosed, hc]⟩
  | closed => exact ((h.serving_iff hL).mp hserving).ne (h.closed hL hL' hc).1

/-- The worker's parser takes what comes of the thread's requests without an error. -/
private theorem Kept.execute_ok {conn : SyncConnection L} (h : s.Kept ctx heap memory)
    (hL : L.ReadsRequests ctx) (hw : s.worker.control = .reading conn) (hne : s.toWorker ≠ [])
    (n : ℕ) : (L.execute conn.llhttp (taken n s.toWorker)).2.2 = .ok := by
  obtain ⟨_, _, ds, -, -, htracked⟩ := h.worker.requests
  obtain ⟨conn', queue, hserving, -, hll, -⟩ :=
    (htracked (by simp [Worker.serving, hw])).serving
  simp only [Worker.serving, hw, Option.some.injEq, Prod.mk.injEq] at hserving
  obtain ⟨rfl, rfl⟩ := hserving
  have hsent : (ctx.texts.take s.thread.sent.length).flatten <+: ctx.texts.flatten := by
    refine ⟨(ctx.texts.drop s.thread.sent.length).flatten, ?_⟩
    rw [← List.flatten_append, List.take_append_drop]
  have hmoved := (flatten_concat_taken s.worker.received n s.toWorker).trans h.toWorker
  exact hll ▸ hL.goesOn _ _ h.worker.chunks (taken_ne_nil hne n) (.trans ⟨_, hmoved⟩ hsent)

/-- The worker reads. -/
theorem Kept.read (h : s.Kept ctx heap memory) (hL : L.ReadsRequests ctx)
    (hL' : L'.ReadsAnswers ctx) (n : ℕ) :
    (∃ abort, s.step ctx (.read n) = .error (.library abort)) ∨
      ∃ s', s.step ctx (.read n) = .ok s' ∧ Goes ctx heap memory s (.read n) s' := by
  by_cases hwaits : s.toWorker = [] ∧ !s.thread.isClosed
  · refine Or.inr ⟨s, by simp only [step, if_pos hwaits], h, Or.inr ⟨?_, rfl⟩⟩
    rintro ⟨-, hne⟩
    exact hne hwaits.1
  · cases hw : s.worker.control with
    | reading conn =>
      have hreading : s.worker.isReading := by simp [Worker.isReading, hw]
      have hne := h.toWorker_ne_nil hL hL' hwaits (by simp [Worker.serving, hw])
      have hchunk := chunk_taken n s.toWorker
      have hwait := h.worker.coherent
      simp only [Worker.Coherent, hw] at hwait
      cases hstep : s.worker.step (.read (.got (taken n s.toWorker))) with
      | error e =>
        have hread : s.worker.read conn (.got (taken n s.toWorker)) = .error e := by
          simpa only [Worker.step, hw] using hstep
        obtain ⟨abort, rfl⟩ := Worker.library_of_read_error hwait
          (hchunk.symm ▸ taken_ne_nil hne n) (hchunk.symm ▸ h.execute_ok hL hw hne n) hread
        refine Or.inl ⟨abort, ?_⟩
        simp only [step, if_neg hwaits, hreading, if_true, hstep]
        rfl
      | ok w' =>
        obtain ⟨hreceived, hnotes, hsome'⟩ := Worker.read_frame h.worker.coherent hw hstep
        rw [hchunk] at hreceived
        have hhandled : w'.handled = s.worker.handled := by
          rw [Worker.handled, Worker.handled, hnotes]
        have hwritten : w'.written = s.worker.written := by
          rw [Worker.written, Worker.written, hnotes]
        have hserves : w'.Serves :=
          Worker.serves_step s.worker (.read (.got (taken n s.toWorker))) w' h.worker hstep
        refine Or.inr ⟨{ s with
            worker := w'
            toWorker := s.toWorker.drop (taken n s.toWorker).length }, ?_,
          ⟨hserves, fun hnone => ?_, h.thread, h.sent, ?_, ?_⟩, Or.inl ⟨⟨hreading, hne⟩, ?_⟩⟩
        · simp only [step, if_neg hwaits, hreading, if_true, hstep, Except.ok_bind]
          rfl
        · cases hnone.symm ▸ hsome'
        · exact hreceived.symm ▸
            (flatten_concat_taken s.worker.received n s.toWorker).trans h.toWorker
        · exact hwritten.symm ▸ h.toThread
        · simp only [variant, hhandled]
          refine Prod.Lex.toLex_lt_toLex.mpr (Or.inr ⟨rfl, ?_⟩)
          refine Prod.Lex.toLex_lt_toLex.mpr (Or.inr ⟨rfl, ?_⟩)
          exact Prod.Lex.toLex_lt_toLex.mpr (Or.inl (length_drop_taken hne n))
    | _ =>
      have hno : s.worker.isReading = false := by simp [Worker.isReading, hw]
      refine Or.inr ⟨s, by simp [step, hno], h, Or.inr ⟨?_, rfl⟩⟩
      rintro ⟨hreading, -⟩
      cases hno.symm.trans hreading

/-- The worker handles a request. -/
theorem Kept.handle (h : s.Kept ctx heap memory) (hL : L.ReadsRequests ctx) (junk : Message.Junk)
    (info : Message.PageInfo) (m m' : ByteMemory) :
    (∃ abort, s.step ctx (.handle junk info m m') = .error (.library abort)) ∨
      ∃ s', s.step ctx (.handle junk info m m') = .ok s' ∧
        Goes ctx heap memory s (.handle junk info m m') s' := by
  cases hw : s.worker.control with
  | handling conn request =>
    cases happ : Message.appHandlerExample junk m info request with
    | error abort => exact Or.inl ⟨abort, by simp only [step, hw, happ]; rfl⟩
    | ok reply =>
      cases hser : (World.markConnection request reply).serialize m' with
      | error abort =>
        refine Or.inl ⟨abort, ?_⟩
        simp only [step, hw, happ, World.library_ok, Except.ok_bind, hser]
        rfl
      | ok iob =>
        cases hstep : s.worker.step (.handle (some reply) m' (.accepted iob.data.length)) with
        | error e =>
          have hhandle : s.worker.handle conn request (some reply) m'
              (.accepted iob.data.length) = .error e := by
            simpa only [Worker.step, hw] using hstep
          obtain ⟨abort, rfl⟩ := Worker.handle_error hhandle
          refine Or.inl ⟨abort, ?_⟩
          simp only [step, hw, happ, World.library_ok, Except.ok_bind, hser, hstep]
          rfl
        | ok w' =>
          obtain ⟨hreceived, hhandled, hwritten⟩ :=
            Worker.handle_frame h.worker.coherent hw hser hstep
          have hserver : s.worker.serverStep
              (.handle junk info m m' (.accepted iob.data.length)) = .ok w' := by
            simp only [Worker.serverStep, hw, happ, World.library_ok, Except.ok_bind]
            exact hstep
          have hserves := Worker.serves_step _ _ _ h.worker hserver
          have hlt := (h.serving_iff hL).mp (by simp [Worker.serving, hw])
          refine Or.inr ⟨{ s with worker := w', toThread := s.toThread ++ iob.data }, ?_,
            ⟨hserves, fun _ => ?_, h.thread, h.sent, ?_, ?_⟩, Or.inl ⟨?_, ?_⟩⟩
          · simp only [step, hw, happ, World.library_ok, Except.ok_bind, hser, hstep]
            rfl
          · change w'.handled ≠ []
            simp [hhandled]
          · exact hreceived.symm ▸ h.toWorker
          · change _ ++ (s.toThread ++ iob.data) = w'.written.flatten
            rw [hwritten, List.flatten_concat, ← List.append_assoc, h.toThread]
          · simp [Enabled, Worker.isHandling, hw]
          · simp only [variant, hhandled]
            refine Prod.Lex.toLex_lt_toLex.mpr (Or.inr ⟨rfl, ?_⟩)
            refine Prod.Lex.toLex_lt_toLex.mpr (Or.inl ?_)
            rw [List.length_append, List.length_singleton]
            change _ - (_ + 1) < _ - _
            omega
  | _ =>
    refine Or.inr ⟨s, by simp only [step, hw], h, Or.inr ⟨?_, rfl⟩⟩
    simp [Enabled, Worker.isHandling, hw]

/-- A `read` of the worker fails. -/
theorem Kept.step_readFails (h : s.Kept ctx heap memory) (hreading : s.worker.isReading)
    (errno : ℕ) : s.step ctx (.readFails errno) = .error SyncConnection.nullRequest := by
  have hcoh := h.worker.coherent
  cases hw : s.worker.control with
  | reading conn =>
    simp only [Worker.Coherent, hw] at hcoh
    have hread : s.worker.read conn (.fail errno) = .error SyncConnection.nullRequest :=
      Worker.read_of_chunk_nil hcoh rfl
    simp only [step, Worker.step, hw, hread]
    rfl
  | _ => simp [Worker.isReading, hw] at hreading

/-- A `read` of the thread fails. -/
theorem Kept.step_receiveFails (h : s.Kept ctx heap memory) (hreading : s.thread.isReading)
    (errno : ℕ) (memory' : ByteMemory) :
    s.step ctx (.receiveFails errno memory') = .error VerifyThread.responseNull := by
  cases hc : s.thread.control with
  | reading conn request =>
    obtain ⟨hwait, -⟩ := h.thread.reading conn request hc
    simp only [step, hc, VerifyThread.read_fail _ _ hwait]
    rfl
  | _ => simp [VerifyThread.isReading, hc] at hreading

private theorem Kept.abortsOnFailure (h : s.Kept ctx heap memory) : s.AbortsOnFailure ctx :=
  ⟨h.step_receiveFails, h.step_readFails⟩

/-- **One step.** It goes through or a library function aborts, unless a `read` fails. -/
theorem Kept.goes (h : s.Kept ctx heap memory) (hL : L.ReadsRequests ctx)
    (hL' : L'.ReadsAnswers ctx) (a : Act) :
    (∃ e, s.step ctx a = .error e ∧ EndsAt [a] e) ∨
      ∃ s', s.step ctx a = .ok s' ∧ Goes ctx heap memory s a s' := by
  have hlibrary : (∃ abort, s.step ctx a = .error (.library abort)) →
      ∃ e, s.step ctx a = .error e ∧ EndsAt [a] e :=
    fun ⟨abort, habort⟩ => ⟨_, habort, Or.inl ⟨abort, rfl⟩⟩
  cases a with
  | send junk memory' => exact Or.inr (h.send hL hL' junk memory')
  | receive n memory' => exact (h.receive hL hL' n memory').imp_left hlibrary
  | read n => exact (h.read hL hL' n).imp_left hlibrary
  | handle junk info m m' => exact (h.handle hL junk info m m').imp_left hlibrary
  | receiveFails errno memory' =>
    cases hreading : s.thread.isReading with
    | true =>
      exact Or.inl ⟨_, h.step_receiveFails hreading errno memory',
        Or.inr ⟨Or.inl rfl, _, List.mem_singleton_self _, trivial⟩⟩
    | false =>
      refine Or.inr ⟨s, ?_, h, Or.inr ⟨not_false, rfl⟩⟩
      cases hc : s.thread.control with
      | reading conn request => simp [VerifyThread.isReading, hc] at hreading
      | _ => simp only [step, hc]
  | readFails errno =>
    cases hreading : s.worker.isReading with
    | true =>
      exact Or.inl ⟨_, h.step_readFails hreading errno,
        Or.inr ⟨Or.inr rfl, _, List.mem_singleton_self _, trivial⟩⟩
    | false =>
      refine Or.inr ⟨s, ?_, h, Or.inr ⟨not_false, rfl⟩⟩
      cases hw : s.worker.control with
      | reading conn => simp [Worker.isReading, hw] at hreading
      | _ =>
        simp only [step, Worker.step, hw, Except.ok_bind]
        rfl

private theorem Kept.goes_of_step (h : s.Kept ctx heap memory) (hL : L.ReadsRequests ctx)
    (hL' : L'.ReadsAnswers ctx) {a : Act} (hs : s.step ctx a = .ok s') :
    Goes ctx heap memory s a s' := by
  obtain ⟨e, he, -⟩ | ⟨s'', hs'', hgoes⟩ := h.goes hL hL' a
  · cases hs.symm.trans he
  · cases hs.symm.trans hs''
    exact hgoes

/-! ### Two requests for `/echo` -/

end RoundTrips

/-- A connection with two requests. -/
def ThreadContext.echo : ThreadContext where
  ident := 0
  connectionIndex := 0
  url := ascii "/echo"
  howmanyRequests := 2
  url_ne_nil := echo_ne_nil
  url_visible := echo_clean.2
  url_length_le := echo_clean.1
  howmanyRequests_pos := Nat.two_pos

/-- The lines of an answer, and its body. After the version there is one space too many, so that the
status is read as a part of the reason phrase. -/
def echoScript (last : Bool) : Script :=
  [.line (ascii "HTTP/1.1  200 OK") [.messageBegin, .status 0 (ascii "200 OK")],
    .header Message.headerEchoId (if last then ascii "0:0:1" else ascii "0:0:0"),
    .header (ascii "CONTENT-TYPE") (ascii "text/html; charset=UTF-8"),
    .header (ascii "CONTENT-LENGTH") (Message.formatNat (verifyText last).length),
    .header (ascii "CONNECTION") (if last then ascii "close" else ascii "keep-alive"),
    .line [] [.headersComplete 1 1 0],
    ⟨verifyText last, [.body (verifyText last), .messageComplete], by cases last <;> decide⟩]

/-- The parser of the thread for the two answers. -/
def echoParser : Llhttp := .script [echoScript false, echoScript true].flatten

namespace ThreadContext

private theorem texts_echo : echo.texts = [verifyText false, verifyText true] := by decide +kernel

private theorem readsRequests_echo : verifyParser.ReadsRequests echo where
  toTakes := texts_echo ▸ takes_verifyTexts
  reports := by
    have hflat : echo.texts.flatten = verifyTexts := by decide +kernel
    exact hflat ▸ reportsStream_verifyTexts

private theorem readsAnswers_echo : echoParser.ReadsAnswers echo := by
  intro answers hlen hanswers
  have hmessage : ∀ s ∈ [echoScript false, echoScript true], s.IsMessage :=
    List.forall_mem_cons.mpr ⟨⟨by decide +kernel, by decide +kernel⟩,
      List.forall_mem_singleton.mpr ⟨by decide +kernel, by decide +kernel⟩⟩
  have hbytes : [echoScript false, echoScript true].map Script.bytes =
      (List.range 2).map echo.echoText := by
    decide +kernel
  have hne : ∀ r ∈ (List.range 2).map echo.echoText, r ≠ [] := by decide +kernel
  have htakes := (hbytes ▸ Llhttp.takes_script hmessage).take hne answers.length
  have hle : answers.length ≤ 2 := hlen
  rw [← List.map_take, List.take_range, min_eq_left hle, ← eq_echoTexts hanswers rfl] at htakes
  exact htakes

end ThreadContext

namespace RoundTrips

/-! ### Along a run -/

/-- **The verifier and the worker stay in step.** In every state of every run, however the bytes are
cut and the two sides interleaved: the worker has answered the first of the requests that the thread
has sent, each `/echo` with the thread's own bytes; what the thread has received are those answers
in order; the worker leaves the connection after the last request, when everything is in flight or
has arrived; and until the thread has closed the connection, one of them can go on. A `read` that
fails, by a timeout or otherwise, makes its program abort. Unless one does, a run ends early only in
a library function, never at an assertion of the thread, the worker or the connection. -/
theorem round_trips (hL : L.ReadsRequests ctx) (hL' : L'.ReadsAnswers ctx) (w₀ : Worker L)
    {sockfd sock2 : ℤ} (hsockfd : 0 < sockfd) (hsock2 : 0 < sock2) (heap heap' : Heap)
    (memory memory' : ByteMemory) (as : List Act) :
    Machine.Always (step ctx) (fun s => InStep ctx s ∧ AbortsOnFailure ctx s)
        (start L' w₀ sockfd sock2 heap heap' memory memory') as ∧
      ∀ e, Machine.run (step ctx) (start L' w₀ sockfd sock2 heap heap' memory memory') as =
        .error e → EndsAt as e := by
  have hstart : (start L' w₀ sockfd sock2 heap heap' memory memory').Kept ctx heap memory :=
    start_kept w₀ hsockfd hsock2 heap heap' memory memory'
  have hstep : ∀ (s : RoundTrips L L') a s', s.Kept ctx heap memory → s.step ctx a = .ok s' →
      s'.Kept ctx heap memory := fun s a s' h hs => (h.goes_of_step hL hL' hs).1
  refine ⟨(Machine.always_invariant hstep hstart).mono fun _ h =>
    ⟨h.inStep hL hL', h.abortsOnFailure⟩, fun e he => ?_⟩
  obtain ⟨a, ha, s, h, hs⟩ := Machine.exists_step_error hstep hstart he
  obtain ⟨e', he', hends⟩ | ⟨s', hs', -⟩ := h.goes hL hL' a
  · cases hs.symm.trans he'
    refine hends.imp_right (And.imp_right ?_)
    rintro ⟨a', ha', hfails⟩
    exact ⟨a', List.mem_singleton.mp ha' ▸ ha, hfails⟩
  · cases hs.symm.trans hs'

/-- The worker and the thread at its first request. -/
def echoStart : RoundTrips verifyParser echoParser :=
  start _ (.init _) 3 4 (.const .zeros) (.const .zeros) (fun _ => 0) fun _ => 0

/-- Each request arrives in two pieces, and so does each answer. -/
def echoRun : List Act :=
  let handle : Act := .handle .zeros ⟨ascii "now", 4, 1⟩ (fun _ => 0) fun _ => 0
  [.send .zeros fun _ => 0, .read 19, .read 999, handle, .receive 17 fun _ => 0,
    .receive 999 fun _ => 0, .send .zeros fun _ => 0, .read 32, .read 999, handle,
    .receive 17 fun _ => 0, .receive 999 fun _ => 0]

/-- It ends with the connection closed by both. -/
theorem run_echoRun : (Machine.run (step .echo) echoStart echoRun).map (fun s =>
    (s.thread.isClosed, s.worker.isReading, s.worker.isHandling, s.worker.handled.length)) =
      .ok (true, false, false, 2) := by decide +kernel

theorem round_trips_echo :
    Machine.Always (step .echo) (fun s => InStep .echo s ∧ AbortsOnFailure .echo s) echoStart
        echoRun ∧
      (Machine.run (step .echo) echoStart echoRun).map (fun s =>
        (s.thread.isClosed, s.worker.isReading, s.worker.isHandling, s.worker.handled.length)) =
          .ok (true, false, false, 2) :=
  ⟨(round_trips ThreadContext.readsRequests_echo ThreadContext.readsAnswers_echo (.init _)
    (by decide) (by decide) _ _ _ _ echoRun).1, run_echoRun⟩

/-- **All round trips end.** In an infinite run in which something that can happen always happens in
the end, the thread closes the connection, and by then every request was answered, the worker has
left the connection, and every byte has arrived. -/
theorem round_trips_end (hL : L.ReadsRequests ctx) (hL' : L'.ReadsAnswers ctx) (w₀ : Worker L)
    {sockfd sock2 : ℤ} (hsockfd : 0 < sockfd) (hsock2 : 0 < sock2) (heap heap' : Heap)
    (memory memory' : ByteMemory) {st : ℕ → RoundTrips L L'} {as : ℕ → Act}
    (hpath : Machine.Path (step ctx) st as)
    (h0 : st 0 = start L' w₀ sockfd sock2 heap heap' memory memory')
    (hfair : ∀ n, (∃ a, (st n).Enabled a) → ∃ k, (st (n + k)).Enabled (as (n + k))) :
    ∃ n, (st n).thread.control = .closed ∧ (st n).InStep ctx ∧
      (st n).worker.serving = none ∧ (st n).thread.sent.length = ctx.howmanyRequests := by
  have hstart : (st 0).Kept ctx heap memory := by
    rw [h0]
    exact start_kept w₀ hsockfd hsock2 heap heap' memory memory'
  have hinv : ∀ n, (st n).Kept ctx heap memory :=
    hpath.invariant (P := fun _ _ => True) (fun s a s' h _ hs => (h.goes_of_step hL hL' hs).1)
      hstart fun _ => trivial
  have hstay : ∀ (s : RoundTrips L L') a s', s.Kept ctx heap memory → ¬ s.Enabled a →
      s.step ctx a = .ok s' → s' = s := by
    intro s a s' h hno hs
    obtain ⟨-, ⟨hen, -⟩ | ⟨-, heq⟩⟩ := h.goes_of_step hL hL' hs
    · exact absurd hen hno
    · exact heq
  have hdec : ∀ (s : RoundTrips L L') a s', s.Kept ctx heap memory → s.Enabled a →
      s.step ctx a = .ok s' → s'.variant ctx < s.variant ctx := by
    intro s a s' h hen hs
    obtain ⟨-, ⟨-, hlt⟩ | ⟨hno, -⟩⟩ := h.goes_of_step hL hL' hs
    · exact hlt
    · exact absurd hen hno
  obtain ⟨n, hn⟩ := hpath.exists_goal (Q := fun s => s.thread.control = .closed) hinv hstay hdec
    (fun s h hopen => h.goesOn hL hL' hopen) hfair
  have h := hinv n
  refine ⟨n, hn, h.inStep hL hL', ?_, (h.thread.closed hn).1⟩
  rw [← Option.not_isSome_iff_eq_none, h.serving_iff hL, (h.closed hL hL' hn).1]
  exact lt_irrefl _

theorem round_trips_end_echo : ∃ st as, Machine.Path (step .echo) st as ∧ st 0 = echoStart ∧
    ∃ n, (st n).thread.control = .closed ∧ (st n).InStep .echo ∧
      (st n).worker.serving = none ∧ (st n).thread.sent.length = 2 := by
  obtain ⟨t, hrun, hclosed, hreading, hhandling⟩ : ∃ t,
      Machine.run (step .echo) echoStart echoRun = .ok t ∧ t.thread.isClosed = true ∧
        t.worker.isReading = false ∧ t.worker.isHandling = false := by
    obtain ⟨t, hrun, heq⟩ := Except.map_eq_ok.mp run_echoRun
    simp only [Prod.mk.injEq] at heq
    exact ⟨t, hrun, heq.1, heq.2.1, heq.2.2.1⟩
  obtain ⟨hsending, hreading'⟩ := VerifyThread.not_open_of_isClosed hclosed
  have halong : Machine.Along (step .echo) Enabled echoStart echoRun := by decide +kernel
  have hstay : t.step .echo (.read 0) = .ok t := by simp [step, hreading]
  obtain ⟨st, as, hpath, h0, hP⟩ := Machine.exists_path_of_run hrun halong hstay
  refine ⟨st, as, hpath, h0, round_trips_end ThreadContext.readsRequests_echo
    ThreadContext.readsAnswers_echo (.init _) (by decide) (by decide) _ _ _ _ hpath h0 ?_⟩
  rintro n ⟨a, ha⟩
  rcases hP n with hen | heq
  · exact ⟨0, hen⟩
  · -- in the last state nothing can happen
    rw [heq] at ha
    cases a with
    | send junk memory => exact absurd ha (by simp [Enabled, hsending])
    | receive n memory => exact absurd ha (by simp [Enabled, hreading'])
    | receiveFails errno memory => exact ha.elim
    | readFails errno => exact ha.elim
    | read n => exact absurd ha (by simp [Enabled, hreading])
    | handle junk info memory memory' => exact absurd ha (by simp [Enabled, hhandling])

end RoundTrips

end CHttp
