import CHttp.Async.Connection
import CHttp.ForMathlib.Except

/-!
# What one call can do

The continuations of `Async.Connection`, each called in the state it expects, with the assertions
discharged and the state afterwards written out. Between two steps a connection stands in one of
eleven stages. `ReadOutcome` lists the seven ways in which `reader` can end and `WriteOutcome` the
four of `writer`, each with the stage it leads to; every later result about runs is a case analysis
over them.
-/

namespace CHttp

/-- Where a connection stands between two steps. -/
inductive Stage
  /-- not yet accepted -/
  | embryo
  /-- a read goes on in a posted reader -/
  | reading
  /-- a read waits for `EPOLLIN` -/
  | waiting
  /-- a complete request is on its way to the handler -/
  | handing
  /-- the application works on the request -/
  | answering
  /-- the application has posted the functor that answers -/
  | posted
  /-- a write goes on in a posted writer -/
  | writing
  /-- a write waits for `EPOLLOUT` -/
  | blocked
  /-- a response was sent and the handler is to be told -/
  | written
  /-- a close is posted -/
  | closing
  /-- closed and freed -/
  | freed
  deriving DecidableEq, Repr

namespace World

variable {L : Llhttp}

@[simp]
theorem library_ok {α : Type} (a : α) : library (.ok a) = .ok a := rfl

@[simp]
theorem library_error {α : Type} (e : Abort) :
    library (.error e : Except Abort α) = .error (.library e) := rfl

theorem library_eq_ok {α : Type} {x : Except Abort α} {a : α} :
    library x = .ok a ↔ x = .ok a := by
  cases x with
  | ok b => simp
  | error e => simp

/-! ### Reading -/

/-- The state in which `reader` may be called: a read is active, nothing waits in the message slot
and no reader is posted. An input buffer, once allocated, has the full size. -/
structure Reads (w : World L) : Prop where
  active : w.cref.readState = .active
  input : w.cref.inputMessage = none
  posted : w.cref.readsidePosted = false
  buffer : ∀ iob, w.cref.activeInputBuffer = some iob → iob.bufferCapacity = readBufferSize

/-- The connection after the parser ran over `nread`, the message slot empty (again). -/
def parsed (w : World L) (iob : IOBuffer) (llhttp : L.State) (parser : HttpParser)
    (nread : List UInt8) : World L :=
  { w with
    cref.activeInputBuffer := some iob
    cref.llhttp := llhttp
    cref.parser := parser
    cref.inputMessage := none
    received := w.received ++ [nread] }

/-- `http_parser_consume` as `reader` calls it. -/
def consumes (w : World L) (nread : List UInt8) :
    Except Abort (L.State × (HttpParser × Option Message) × LlhttpErrno) :=
  HttpParser.consume L asyncOnReadMessageComplete w.cref.llhttp (w.cref.parser, none) nread

theorem inputBuffer_holds {w : World L} (h : w.Reads) :
    w.inputBuffer.Holds [] ∧ w.inputBuffer.bufferPtr = 0 ∧
      w.inputBuffer.bufferCapacity = readBufferSize := by
  unfold inputBuffer
  cases hb : w.cref.activeInputBuffer with
  | none => exact ⟨IOBuffer.newWithCapacity_holds _ _, rfl, rfl⟩
  | some iob => exact ⟨IOBuffer.reset_holds iob, rfl, h.buffer iob hb⟩

/-- `recv` is given the whole buffer. -/
theorem recvBytes_eq {w : World L} (h : w.Reads) (bs : List UInt8) :
    w.recvBytes bs = bs.take readBufferSize := by
  obtain ⟨hh, hptr, hcap⟩ := inputBuffer_holds h
  have hrem : w.inputBuffer.bufferRemaining = 0 := hh.remaining
  rw [recvBytes, IOBuffer.spaceLen, hptr, hcap, hrem]
  rfl

/-- Committing and parsing the bytes received. -/
theorem consumeInput_eq {w : World L} (h : w.Reads) {nread : List UInt8} (hne : nread ≠ [])
    (hlen : nread.length ≤ readBufferSize) :
    ∃ iob : IOBuffer, iob.bufferCapacity = readBufferSize ∧
      w.consumeInput nread = library (do
        let (llhttp, (parser, slot), ec) ← w.consumes nread
        return ({ w.parsed iob llhttp parser nread with cref.inputMessage := slot }, ec)) := by
  obtain ⟨hh, hptr, hcap⟩ := inputBuffer_holds h
  obtain ⟨iob, hiob, hholds, -, hcap'⟩ :=
    IOBuffer.fill_commit_spec hh hptr hne (by simpa [hcap] using hlen)
  refine ⟨iob, hcap'.trans hcap, ?_⟩
  simp only [consumeInput, hiob, library_ok, Except.ok_bind, hholds.data_eq, List.nil_append,
    h.input, consumes]
  cases HttpParser.consume L asyncOnReadMessageComplete w.cref.llhttp (w.cref.parser, none)
      nread with
  | error e => rfl
  | ok r => rfl

/-- How a call of `reader` ends. The first four cases are those in which `recv` returned bytes. -/
inductive ReadOutcome (w : World L) (io : Io) : Stage → World L → Prop
  /-- A message was completed. -/
  | message {bs iob ll p m ec} (hrecv : io.recv = .got bs) (hne : bs ≠ [])
      (hcap : IOBuffer.bufferCapacity iob = readBufferSize)
      (hparse : w.consumes (bs.take readBufferSize) = .ok (ll, (p, some m), ec)) :
      ReadOutcome w io .handing ({ w.parsed iob ll p (bs.take readBufferSize) with
        cref.readState := .idle }.postDelegateHandleRequest m)
  /-- No message was completed, and `errno` held `EAGAIN` from an earlier call. -/
  | stale {bs iob ll p ec} (hrecv : io.recv = .got bs) (hne : bs ≠ [])
      (hcap : IOBuffer.bufferCapacity iob = readBufferSize)
      (hparse : w.consumes (bs.take readBufferSize) = .ok (ll, (p, none), ec))
      (herrno : io.errno = eagain) :
      ReadOutcome w io .waiting { w.parsed iob ll p (bs.take readBufferSize) with
        cref.readState := .eagained }
  /-- No message was completed and the parser wants more. -/
  | more {bs iob ll p} (hrecv : io.recv = .got bs) (hne : bs ≠ [])
      (hcap : IOBuffer.bufferCapacity iob = readBufferSize)
      (hparse : w.consumes (bs.take readBufferSize) = .ok (ll, (p, none), .ok))
      (herrno : io.errno ≠ eagain) :
      ReadOutcome w io .reading ({ w.parsed iob ll p (bs.take readBufferSize) with
        cref.readsidePosted := true }.post .postableReader)
  /-- No message was completed and the parser reports an error. -/
  | rejected {bs iob ll p code} (hrecv : io.recv = .got bs) (hne : bs ≠ [])
      (hcap : IOBuffer.bufferCapacity iob = readBufferSize)
      (hparse : w.consumes (bs.take readBufferSize) = .ok (ll, (p, none), .error code))
      (herrno : io.errno ≠ eagain) :
      ReadOutcome w io .closing { w.parsed iob ll p (bs.take readBufferSize) with
        cref.readState := .stop, cref.writeState := .stop }.postClose
  /-- The peer closed. -/
  | eof (hrecv : io.recv = .got []) :
      ReadOutcome w io .closing { w.withInputBuffer with
        cref.readState := .stop, cref.writeState := .stop }.postClose
  /-- Nothing to read. -/
  | again (hrecv : io.recv = .fail eagain) :
      ReadOutcome w io .waiting { w.withInputBuffer with cref.readState := .eagained }
  /-- An error. -/
  | broken {e} (hrecv : io.recv = .fail e) (he : e ≠ eagain) :
      ReadOutcome w io .closing { w.withInputBuffer with
        cref.readState := .stop, cref.writeState := .stop }.postClose

/-- The assertions at the end of a read hold while a read is active. -/
theorem assertReadEnd_ok {w : World L} (hs : w.cref.readState = .active)
    (hi : w.cref.inputMessage = none) (hp : w.cref.readsidePosted = false) (func text : String) :
    w.assertReadEnd func text = .ok () := by
  simp only [assertReadEnd, hs, hi, hp]
  rfl

private theorem readEagain_eq {w : World L} (hs : w.cref.readState = .active)
    (hi : w.cref.inputMessage = none) (hp : w.cref.readsidePosted = false) :
    w.readEagain = .ok { w with cref.readState := .eagained } := by
  simp only [readEagain, assertReadEnd_ok hs hi hp, Except.ok_bind, Except.pure_eq_ok]

private theorem readNeedData_eq {w : World L} (hs : w.cref.readState = .active)
    (hi : w.cref.inputMessage = none) (hp : w.cref.readsidePosted = false) :
    w.readNeedData = .ok ({ w with cref.readsidePosted := true }.post .postableReader) := by
  simp only [readNeedData, assertReadEnd_ok hs hi hp, Except.ok_bind, postReadStart, hp]
  rfl

private theorem readError_eq {w : World L} (hs : w.cref.readState = .active)
    (hi : w.cref.inputMessage = none) (hp : w.cref.readsidePosted = false) :
    w.readError =
      .ok { w with cref.readState := .stop, cref.writeState := .stop }.postClose := by
  simp only [readError, assertReadEnd_ok hs hi hp, Except.ok_bind, Except.pure_eq_ok]

private theorem readNewMessage_eq {w : World L} {m : Message} (hs : w.cref.readState = .active)
    (hi : w.cref.inputMessage = some m) (hp : w.cref.readsidePosted = false) :
    w.readNewMessage = .ok ({ w with
      cref.inputMessage := none, cref.readState := .idle }.postDelegateHandleRequest m) := by
  simp only [readNewMessage, hs, hi, hp]
  rfl

/-- `reader` once the parser ran and its result is known. -/
theorem afterConsume_spec {w : World L} (h : w.Reads) {io : Io} {bs : List UInt8}
    (hrecv : io.recv = .got bs) (hne : bs ≠ []) {iob : IOBuffer}
    (hcap : iob.bufferCapacity = readBufferSize) {ll : L.State} {p : HttpParser}
    {slot : Option Message} {ec : LlhttpErrno}
    (hparse : w.consumes (bs.take readBufferSize) = .ok (ll, (p, slot), ec)) :
    ∃ w', afterConsume { w.parsed iob ll p (bs.take readBufferSize) with
        cref.inputMessage := slot } io.errno ec = .ok w' ∧ ∃ st, ReadOutcome w io st w' := by
  -- The branches of `reader` in their order: a message, a stale `errno`, the parser's code.
  cases slot with
  | some m =>
    refine ⟨_, ?_, _, ReadOutcome.message hrecv hne hcap hparse⟩
    exact readNewMessage_eq h.active rfl h.posted
  | none =>
    by_cases herrno : io.errno = eagain
    · refine ⟨_, ?_, _, ReadOutcome.stale hrecv hne hcap hparse herrno⟩
      simp only [afterConsume, Option.isSome_none, Bool.false_eq_true, if_false, herrno, if_true]
      exact readEagain_eq h.active rfl h.posted
    · cases ec with
      | ok =>
        refine ⟨_, ?_, _, ReadOutcome.more hrecv hne hcap hparse herrno⟩
        simp only [afterConsume, Option.isSome_none, Bool.false_eq_true, if_false, herrno,
          if_true]
        exact readNeedData_eq h.active rfl h.posted
      | error code =>
        refine ⟨_, ?_, _, ReadOutcome.rejected hrecv hne hcap hparse herrno⟩
        simp only [afterConsume, Option.isSome_none, Bool.false_eq_true, if_false, herrno,
          reduceCtorEq]
        exact readError_eq h.active rfl h.posted

/-- `reader` in the state it expects is what follows its assertions. -/
theorem reader_eq {w : World L} (h : w.Reads) (io : Io) : w.reader io = w.receive io := by
  simp only [reader, h.active, h.input]
  rfl

/-- **`reader`.** Called when it may be, it ends in one of the outcomes, or an assertion of the
parser stops the process. -/
theorem reader_spec {w : World L} (h : w.Reads) (io : Io) :
    (∃ w', w.reader io = .ok w' ∧ ∃ st, ReadOutcome w io st w') ∨
      ∃ e bs, io.recv = .got bs ∧ bs ≠ [] ∧ w.consumes (bs.take readBufferSize) = .error e ∧
        w.reader io = .error (.library e) := by
  rw [reader_eq h, receive]
  cases hrecv : io.recv with
  | got bs =>
    simp only [recvBytes_eq h]
    by_cases hbs : bs = []
    · subst hbs
      refine Or.inl ⟨_, ?_, _, ReadOutcome.eof hrecv⟩
      exact readError_eq h.active h.input h.posted
    · have hne : bs.take readBufferSize ≠ [] := by
        simp [readBufferSize, hbs]
      have hlen : (bs.take readBufferSize).length ≤ readBufferSize := List.length_take_le _ _
      obtain ⟨iob, hcap, heq⟩ := consumeInput_eq h hne hlen
      simp only [hne, ne_eq, not_false_eq_true, if_true, heq]
      cases hparse : w.consumes (bs.take readBufferSize) with
      | error e => exact Or.inr ⟨e, bs, rfl, hbs, hparse, rfl⟩
      | ok r =>
        obtain ⟨ll, ⟨p, slot⟩, ec⟩ := r
        exact Or.inl (afterConsume_spec h hrecv hbs hcap hparse)
  | fail e =>
    left
    by_cases he : e = eagain
    · subst he
      refine ⟨_, ?_, _, ReadOutcome.again hrecv⟩
      exact readEagain_eq h.active h.input h.posted
    · refine ⟨_, ?_, _, ReadOutcome.broken hrecv he⟩
      simp only [he, if_false]
      exact readError_eq h.active h.input h.posted

/-! ### Writing -/

/-- How a call of `writer` ends, with `s` in the output buffer. -/
inductive WriteOutcome (w : World L) (io : Io) (s : List UInt8) : Stage → World L → Prop
  /-- The last bytes were accepted. -/
  | done {n} (hsend : io.send = .accepted n) (hs : s ≠ []) (hn : s.length ≤ n) :
      WriteOutcome w io s .written
        ({ w.noteAnswer (fun a => { a with accepted := a.accepted ++ s }) with
          cref.writeState := .idle
          cref.activeOutputBuffer := none }.post .postableWriteComplete)
  /-- Some bytes were accepted, but not all. -/
  | part {n iob} (hsend : io.send = .accepted n) (hpos : 0 < n) (hn : n < s.length)
      (hiob : IOBuffer.Holds iob (s.drop n)) :
      WriteOutcome w io s .writing
        ({ w.noteAnswer (fun a => { a with accepted := a.accepted ++ s.take n }) with
          cref.writeState := .active
          cref.activeOutputBuffer := some iob }.post .asyncPostableWriter)
  /-- The socket is full. -/
  | again (hsend : io.send = .fail eagain) :
      WriteOutcome w io s .blocked { w with cref.writeState := .eagained }
  /-- `send` took nothing, or failed. -/
  | broken (hsend : io.send = .accepted 0 ∨ ∃ e, e ≠ eagain ∧ io.send = .fail e) :
      WriteOutcome w io s .closing w.writeError

/-- **`writer`.** With bytes in the output buffer it ends in one of the outcomes. -/
theorem writer_spec {w : World L} {iob : IOBuffer} {s : List UInt8}
    (hout : w.cref.activeOutputBuffer = some iob) (hiob : iob.Holds s) (hs : s ≠ []) (io : Io) :
    ∃ w', w.writer io = .ok w' ∧ ∃ st, WriteOutcome w io s st w' := by
  unfold writer
  rw [hout]
  simp only [hiob.data_eq]
  cases hsend : io.send with
  | accepted n =>
    rcases Nat.eq_zero_or_pos n with rfl | hpos
    · exact ⟨w.writeError, rfl, _, .broken (Or.inl hsend)⟩
    · have hne : s.take n ≠ [] := by simp [hs, hpos.ne']
      simp only [hne, ne_eq, not_false_eq_true, if_true]
      have hle : (s.take n).length ≤ s.length := List.length_take_le' _ _
      obtain ⟨iob', hc, hh⟩ := IOBuffer.consume_spec hiob hle
      simp only [sentSome, hc, library_ok, Except.ok_bind, IOBuffer.dataLen, hh.remaining]
      -- `send` may be offered more than the buffer has, so `n` can exceed its length
      rcases Nat.lt_or_ge n s.length with hlt | hge
      · have hlen : (s.take n).length = n := by simp; omega
        have hrest : (s.drop (s.take n).length).length ≠ 0 := by
          rw [hlen, List.length_drop]
          omega
        rw [hlen] at hh
        exact ⟨_, by simp only [hrest, if_false]; rfl, _, .part hsend hpos hlt hh⟩
      · have htake : s.take n = s := List.take_of_length_le hge
        have hrest : (s.drop (s.take n).length).length = 0 := by
          rw [htake, List.length_drop, Nat.sub_self]
        refine ⟨_, ?_, _, .done hsend hs hge⟩
        rw [htake]
        simp only [htake] at hrest
        simp only [hrest, if_true]
        rfl
  | fail e =>
    by_cases he : e = eagain
    · subst he
      exact ⟨_, rfl, _, .again hsend⟩
    · exact ⟨w.writeError, by simp [he], _, .broken (Or.inr ⟨e, he, hsend⟩)⟩

end World

end CHttp
