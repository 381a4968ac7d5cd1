import CHttp.Demo.Session

/-!
# The read sequence of a demo connection

The source has a read sequence and a write sequence. `ReadSide` and `WriteSide` are what each of
them is about, with the number of its functions that are posted; a posted function of one sequence
leaves the other alone, except that a message read puts a reply on the list.

`ReadSide.Inv` says where the bytes received are: read by the parser, which has reported what the
scanner finds in them, or still in the input buffer.
-/

namespace CHttp

/-! ### One call of the parser -/

namespace DemoParser

/-- What a call of `DemoParser_consume` reports and returns, by the events `es` of the bytes it
consumed and the data `v` that it left. -/
inductive Returned (es : List DemoEvent) (v : List UInt8) : List DemoCall → ℤ → Prop
  | more (he : es = []) (hv : v = []) : Returned es v [] 0
  | message (m : DemoMessage) (hm : m.body.Valid)
      (he : es = [.message m.opcode m.body.data]) : Returned es v [⟨some m, 0⟩] 0
  | error (he : es = [.error]) (hv : v = []) :
      Returned es v [⟨none, errExpectedStx⟩] errExpectedStx

/-- What one character makes of the call: it goes on, or it ends with a message or an error. -/
inductive Ended (atEnd : Bool) : List DemoCall → Option ℤ → Prop
  | goesOn : Ended atEnd [] none
  | message (m : DemoMessage) (hm : m.body.Valid) : Ended atEnd [⟨some m, 0⟩] (some 0)
  | error (h : atEnd = true) : Ended atEnd [⟨none, errExpectedStx⟩] (some errExpectedStx)

variable {p p' : DemoParser} {s : DemoScanner} {atEnd : Bool} {ch : UInt8} {calls : List DemoCall}
  {rc : Option ℤ}

theorem Represents.ended (h : p.Represents s) (hstep : p.step [] atEnd ch = .ok (p', calls, rc)) :
    Ended atEnd calls rc := by
  obtain ⟨state, isRequest, body⟩ := s
  have hs : p.mState = state := h.state
  have hgoes : ∀ {q : DemoParser}, (Except.ok (q, [], none) : Except Abort _) =
      .ok (p', calls, rc) → Ended atEnd calls rc := by
    intro q heq
    cases heq
    exact .goesOn
  cases state with
  | idle =>
    simp only [step, hs] at hstep
    exact hgoes hstep
  | sohWait => exact absurd rfl h.reached.1
  | opcode =>
    obtain ⟨m, hm, -⟩ := h.exists_message (by decide)
    simp only [step, hs, current, hm, Except.ok_bind] at hstep
    split at hstep
    · exact hgoes hstep
    · exact hgoes hstep
  | stxWait =>
    simp only [step, hs] at hstep
    exact hgoes hstep
  | body =>
    obtain ⟨m, hm, hv, -⟩ := h.exists_message (by decide)
    obtain ⟨bc, hadd, -⟩ := addToBody_spec hm hv ch
    simp only [step, hs, hadd, Except.ok_bind] at hstep
    split at hstep
    · exact hgoes hstep
    · exact hgoes hstep
  | extWait => exact absurd rfl h.reached.2
  | lrc =>
    obtain ⟨m, hm, hv, -⟩ := h.exists_message (by decide)
    simp only [step, hs, current, hm, Except.ok_bind] at hstep
    cases hstep
    exact .message _ hv
  | eotWait =>
    simp only [step, hs] at hstep
    exact hgoes hstep
  | errorRecovery =>
    simp only [step, hs] at hstep
    split at hstep
    · exact hgoes hstep
    · split at hstep
      · next hend =>
        cases hstep
        exact .error hend
      · exact hgoes hstep

/-- The loop of `DemoParser_consume` from index `i` on: it follows the scanner up to where it
returns. -/
theorem Represents.loop (h : p.Represents s) {iob : IOBuffer} {t u : List UInt8} {i : ℕ}
    (hiob : iob.Holds t) (hi : t.drop i = u) (hlen : i ≤ t.length) :
    ∃ p' calls iob' rc x v, p.loop [] iob i u = .ok (p', calls, iob', rc) ∧
      marked u = x ++ marked v ∧ iob'.Holds v ∧ p'.Represents (s.scan x).1 ∧
      Returned (s.scan x).2.flatten v calls rc := by
  induction u generalizing p s i with
  | nil =>
    obtain ⟨iob', hconsume, hholds⟩ := IOBuffer.consume_spec hiob hlen
    refine ⟨p, [], iob', 0, [], [], ?_, rfl, hi ▸ hholds, h, .more rfl rfl⟩
    simp only [DemoParser.loop, hconsume, Except.ok_bind]
    rfl
  | cons ch u ih =>
    have hlt : i < t.length := by
      by_contra hge
      rw [List.drop_eq_nil_of_le (Nat.le_of_not_lt hge)] at hi
      cases hi
    have hnext : t.drop (i + 1) = u := by
      rw [← List.drop_drop, hi, List.drop_succ_cons, List.drop_zero]
    obtain ⟨p₁, calls, rc, hstep, hrep, hcalls⟩ := h.follows u.isEmpty ch
    obtain ⟨iob', hconsume, hholds⟩ := IOBuffer.consume_spec hiob (Nat.succ_le_of_lt hlt)
    rw [hnext] at hholds
    have hone : (s.scan [(ch, u.isEmpty)]).2.flatten = calls.map DemoCall.event := by
      simp only [DemoScanner.scan, List.flatten_cons, List.flatten_nil, List.append_nil, hcalls]
    cases h.ended hstep with
    | goesOn =>
      obtain ⟨p', calls', iob₁, rc', x, v, hloop, hmarked, hv, hrep', hret⟩ := ih hrep hnext hlt
      refine ⟨p', calls', iob₁, rc', (ch, u.isEmpty) :: x, v, ?_, ?_, hv, hrep', ?_⟩
      · simp only [DemoParser.loop, hstep, Except.ok_bind]
        exact hloop
      · rw [marked, hmarked, List.cons_append]
      · simp only [DemoScanner.scan, ← hcalls]
        exact hret
    | message m hm =>
      refine ⟨p₁, _, iob', 0, [(ch, u.isEmpty)], u, ?_, rfl, hholds, hrep, .message m hm hone⟩
      simp only [DemoParser.loop, hstep, Except.ok_bind, hconsume]
      rfl
    | error hend =>
      have hu : u = [] := List.isEmpty_iff.mp hend
      refine ⟨p₁, _, iob', _, [(ch, u.isEmpty)], u, ?_, rfl, hholds, hrep, .error hone hu⟩
      simp only [DemoParser.loop, hstep, Except.ok_bind, hconsume]
      rfl

end DemoParser

/-- `process_request` of a message with a valid body. -/
theorem processRequest_spec (heap : DemoHeap) {m : DemoMessage} (h : m.body.Valid) :
    (processRequest heap m).body.Valid ∧ (processRequest heap m).opcode = false ∧
      (processRequest heap m).body.data = m.body.data := by
  obtain ⟨hv, hd⟩ := BufferChain.new_valid.appendLoop h.buffers fun _ => heap.body
  exact ⟨hv, rfl, hd⟩

namespace DemoSession

open DemoConnection (errIoError)
open DemoParser (marked errExpectedStx)

/-! ### The two sequences -/

/-- What the read sequence is about, with the bodies of the replies, and how often its functions are
posted. -/
structure ReadSide where
  readState : DemoReadState
  onReadCb : Bool
  activeInputBuffer : Option IOBuffer
  parser : DemoParser
  received : List (UInt8 × Bool)
  replies : List (List UInt8)
  codes : List ℤ
  readers : ℕ
  readStarts : ℕ

/-- What the write sequence is about, and how often its functions are posted. -/
structure WriteSide where
  writeState : DemoWriteState
  onWriteCb : Bool
  activeOutputBuffer : Option IOBuffer
  outputList : List DemoMessage
  activeResponse : Option DemoMessage
  replies : List DemoMessage
  sent : List UInt8
  writers : ℕ
  callCbs : ℕ

/-- The read sequence of a connection. -/
def readSide (this : DemoSession) : ReadSide where
  readState := this.readState
  onReadCb := this.onReadCb
  activeInputBuffer := this.activeInputBuffer
  parser := this.parser
  received := this.received
  replies := this.replies.map fun m => m.body.data
  codes := this.codes
  readers := this.readyList.count .postableReader
  readStarts := this.readyList.count .postableReadStart

/-- The write sequence of a connection. -/
def writeSide (this : DemoSession) : WriteSide where
  writeState := this.writeState
  onWriteCb := this.onWriteCb
  activeOutputBuffer := this.activeOutputBuffer
  outputList := this.outputList
  activeResponse := this.activeResponse
  replies := this.replies
  sent := this.sent
  writers := this.readyList.count .postableWriter
  callCbs := this.readyList.count .postableWriteCallCb

/-- The connection was freed, or is about to be. -/
def Closing (this : DemoSession) : Prop :=
  this.freed = true ∨ .postableCleanup ∈ this.readyList

/-- A function is posted. -/
def ReadSide.post (r : ReadSide) : DemoTask → ReadSide
  | .postableReader => { r with readers := r.readers + 1 }
  | .postableReadStart => { r with readStarts := r.readStarts + 1 }
  | _ => r

/-- A function is posted. -/
def WriteSide.post (w : WriteSide) : DemoTask → WriteSide
  | .postableWriter => { w with writers := w.writers + 1 }
  | .postableWriteCallCb => { w with callCbs := w.callCbs + 1 }
  | _ => w

/-- A reply is put on the list. -/
def WriteSide.reply (w : WriteSide) (m : DemoMessage) : WriteSide :=
  { w with outputList := w.outputList ++ [m], replies := w.replies ++ [m] }

variable (s : DemoSession) (f : DemoTask)

@[simp]
theorem readSide_post : (s.post f).readSide = s.readSide.post f := by
  cases f <;> simp [readSide, post, ReadSide.post]

@[simp]
theorem writeSide_post : (s.post f).writeSide = s.writeSide.post f := by
  cases f <;> simp [writeSide, post, WriteSide.post]

@[simp]
theorem closing_post : (s.post f).Closing ↔ s.Closing ∨ f = .postableCleanup := by
  simp only [Closing, post, List.mem_append, List.mem_singleton, or_assoc, eq_comm]

variable {s f}

/-- The oldest posted function is taken off the list. -/
theorem readSide_of_cons {rest : List DemoTask} (h : s.readyList = f :: rest) :
    s.readSide = ({ s with readyList := rest } : DemoSession).readSide.post f := by
  cases f <;> simp [readSide, h, ReadSide.post]

theorem writeSide_of_cons {rest : List DemoTask} (h : s.readyList = f :: rest) :
    s.writeSide = ({ s with readyList := rest } : DemoSession).writeSide.post f := by
  cases f <;> simp [writeSide, h, WriteSide.post]

theorem closing_of_cons {rest : List DemoTask} (h : s.readyList = f :: rest)
    (hf : f ≠ .postableCleanup) :
    ({ s with readyList := rest } : DemoSession).Closing ↔ s.Closing := by
  simp [Closing, h, hf.symm]

/-! ### The read sequence -/

/-- The input buffer, with the data `v`. An empty one has all its space. -/
def InputHolds (v : List UInt8) : Option IOBuffer → Prop
  | none => v = []
  | some iob => iob.Holds v ∧ iob.bufferCapacity = 1000 ∧ (v = [] → iob.bufferPtr = 0)

/-- The parser has read `u`, and `v` is still in the buffer. -/
structure ReadSide.Parsed (r : ReadSide) (u : List (UInt8 × Bool)) (v : List UInt8) : Prop where
  received : r.received = u ++ marked v
  input : InputHolds v r.activeInputBuffer
  parser : r.parser.Represents (DemoScanner.init.scan u).1
  replies : r.replies =
    (DemoEvent.messages (DemoScanner.init.scan u).2.flatten).map Prod.snd

/-- Where the read sequence is: a read is posted; or it waits for `EPOLLIN`, with its buffer empty;
or a message was handed over and the next read is about to be started; or the parser has reported an
error; or `recv` has. -/
inductive ReadSide.Phase (r : ReadSide) (v : List UInt8) : Prop
  | reading (hs : r.readState = .active) (hcb : r.onReadCb = true) (hr : r.readers = 1)
      (hn : r.readStarts = 0) (hc : r.codes = [])
  | waiting (hs : r.readState = .eagained) (hcb : r.onReadCb = true) (hr : r.readers = 0)
      (hn : r.readStarts = 0) (hc : r.codes = []) (hv : v = [])
  | between (hs : r.readState = .idle) (hr : r.readers = 0) (hn : r.readStarts = 1)
      (hc : r.codes = [])
  | deaf (hs : r.readState = .idle) (hr : r.readers = 0) (hn : r.readStarts = 0)
      (hc : r.codes = [errExpectedStx])
  | stopped (hs : r.readState = .stop) (hr : r.readers = 0) (hn : r.readStarts = 0)
      (hc : r.codes = [errIoError])

/-- The invariant of the read sequence. -/
def ReadSide.Inv (r : ReadSide) : Prop := ∃ u v, r.Parsed u v ∧ r.Phase v

/-- A function of the read sequence has run: the write sequence has got at most a reply, and the
connection is closed if the reading has stopped. -/
structure Reads (s s' : DemoSession) : Prop where
  inv : s'.readSide.Inv
  writeSide : s'.writeSide = s.writeSide ∨
    ∃ m, m.body.Valid ∧ m.opcode = false ∧ s'.writeSide = s.writeSide.reply m
  closing : s'.Closing ↔ s.Closing ∨ s'.readState = .stop

/-- It does not matter what the read sequence was before. -/
theorem Reads.of_eq {s s₁ s' : DemoSession} (h : Reads s₁ s') (hw : s₁.writeSide = s.writeSide)
    (hc : s₁.Closing ↔ s.Closing) : Reads s s' :=
  ⟨h.inv, hw ▸ h.writeSide, h.closing.trans (or_congr_left hc)⟩

/-- The reader runs: it is not posted any more, and nothing of its sequence is. -/
structure Running (s : DemoSession) : Prop where
  state : s.readState = .active
  callback : s.onReadCb = true
  readers : s.readSide.readers = 0
  readStarts : s.readSide.readStarts = 0
  codes : s.codes = []

/-- The parser leaves the buffer as it should be. -/
theorem InputHolds.consume {p p' : DemoParser} {calls calls' : List DemoCall} {iob iob' : IOBuffer}
    {t v : List UInt8} {code : ℤ} (h : InputHolds t (some iob))
    (hc : p.consume calls iob = .ok (p', calls', iob', code)) (hv : iob'.Holds v) :
    InputHolds v (some iob') := by
  obtain ⟨k, hk, -⟩ := DemoParser.exists_consume_of_loop hc
  obtain ⟨hptr, hrem, -, hcap⟩ := IOBuffer.fields_of_consume hk
  refine ⟨hv, hcap.trans h.2.1, ?_⟩
  rintro rfl
  have hzero : iob.bufferRemaining - k = 0 := hrem.symm.trans hv.remaining
  rw [hptr, if_pos hzero]

/-- `on_read_complete` with a message. -/
theorem onReadComplete_message (heap : DemoHeap) (m : DemoMessage) (hcb : s.onReadCb = true) :
    ∃ s', onReadComplete heap s ⟨some m, 0⟩ = .ok s' ∧
      s'.readSide = { s.readSide with
        readState := .idle
        onReadCb := false
        replies := s.readSide.replies ++ [(processRequest heap m).body.data]
        readStarts := s.readSide.readStarts + 1 } ∧
      s'.writeSide = s.writeSide.reply (processRequest heap m) ∧ (s'.Closing ↔ s.Closing) := by
  have hcall : onReadComplete heap s ⟨some m, 0⟩ =
      ({ s with readState := .idle, onReadCb := false } : DemoSession).handleRequest heap
        (some m) 0 := by
    simp [onReadComplete, callReadCb, hcb]
  rw [hcall]
  let listed : DemoSession := { s with
    readState := .idle
    onReadCb := false
    outputList := s.outputList ++ [processRequest heap m]
    replies := s.replies ++ [processRequest heap m] }
  refine ⟨(if listed.outputList.length = 1 then listed.post .postableWriteStart else listed).post
    .postableReadStart, by simp [handleRequest, listed], ?_⟩
  -- whether a write is started is nothing to the two sequences
  have hr : listed.readSide = { s.readSide with
      readState := .idle
      onReadCb := false
      replies := s.readSide.replies ++ [(processRequest heap m).body.data] } := by
    simp [readSide, listed]
  have hw : listed.writeSide = s.writeSide.reply (processRequest heap m) := rfl
  have hc : listed.Closing ↔ s.Closing := Iff.rfl
  split
  · simp [hr, hw, hc, ReadSide.post, WriteSide.post]
  · simp [hr, hw, hc, ReadSide.post, WriteSide.post]

/-- `on_read_complete` with an error. -/
theorem onReadComplete_error (heap : DemoHeap) (hcb : s.onReadCb = true) :
    onReadComplete heap s ⟨none, errExpectedStx⟩ =
      .ok { s with
        readState := .idle, onReadCb := false, codes := s.codes ++ [errExpectedStx] } := by
  simp [onReadComplete, callReadCb, hcb, handleRequest, errExpectedStx]

/-- `reader`, with the data `t` in its buffer. -/
theorem consumeInput_spec (heap : DemoHeap) {iob : IOBuffer} {u : List (UInt8 × Bool)}
    {t : List UInt8} (hrun : s.Running) (hiob : InputHolds t (some iob))
    (hrec : s.received = u ++ marked t)
    (hparser : s.parser.Represents (DemoScanner.init.scan u).1)
    (hreplies : s.readSide.replies =
      (DemoEvent.messages (DemoScanner.init.scan u).2.flatten).map Prod.snd) :
    ∃ s', s.consumeInput heap iob = .ok s' ∧ Reads s s' := by
  obtain ⟨p', calls, iob', rc, x, v, hloop, hmarked, hholds, hrep, hret⟩ :=
    hparser.loop hiob.1 (List.drop_zero (l := t)) (Nat.zero_le _)
  have hconsume : s.parser.consume [] iob = .ok (p', calls, iob', rc) := by
    rw [DemoParser.consume, hiob.1.data_eq]
    exact hloop
  have hin := hiob.consume hconsume hholds
  -- the parser has read `x` more
  have hparsed : ∀ r : ReadSide, r.received = s.received → r.activeInputBuffer = some iob' →
      r.parser = p' → r.replies = s.readSide.replies ++
        (DemoEvent.messages ((DemoScanner.init.scan u).1.scan x).2.flatten).map Prod.snd →
      r.Parsed (u ++ x) v := by
    intro r hr hb hp ha
    refine ⟨?_, hb ▸ hin, ?_, ?_⟩
    · rw [hr, hrec, hmarked, List.append_assoc]
    · rw [hp, DemoScanner.scan_append]
      exact hrep
    · rw [ha, hreplies, DemoScanner.scan_append, List.flatten_append, DemoEvent.messages_append,
        List.map_append]
  let parsed : DemoSession := { s with parser := p', activeInputBuffer := some iob' }
  cases hret with
  | more he hv =>
    refine ⟨parsed.post .postableReader, ?_, ⟨u ++ x, v, ?_, ?_⟩, .inl ?_, ?_⟩
    · simp [consumeInput, hconsume, hrun.state, parsed]
    · rw [readSide_post]
      refine hparsed _ rfl rfl rfl ?_
      rw [he]
      exact (List.append_nil _).symm
    · rw [readSide_post]
      exact .reading hrun.state hrun.callback (congrArg (· + 1) hrun.readers) hrun.readStarts
        hrun.codes
    · rw [writeSide_post]
      rfl
    · simp [post, parsed, hrun.state, Closing]
  | message m hm he =>
    obtain ⟨hvalid, hop, hdata⟩ := processRequest_spec heap hm
    obtain ⟨s', hcall, hr, hw, hc⟩ := onReadComplete_message (s := parsed) heap m hrun.callback
    have hstate : s'.readState = .idle := congrArg ReadSide.readState hr
    refine ⟨s', ?_, ⟨u ++ x, v, ?_, ?_⟩, .inr ⟨_, hvalid, hop, hw⟩, ?_⟩
    · simp only [parsed] at hcall
      simp [consumeInput, hconsume, hcall, hstate]
    · rw [hr]
      refine hparsed _ rfl rfl rfl ?_
      rw [he, hdata]
      rfl
    · rw [hr]
      exact .between rfl hrun.readers (congrArg (· + 1) hrun.readStarts) hrun.codes
    · rw [hc, hstate]
      simp [parsed, Closing]
  | error he hv =>
    let deaf : DemoSession := { parsed with
      readState := .idle, onReadCb := false, codes := s.codes ++ [errExpectedStx] }
    have hcall : onReadComplete heap parsed ⟨none, errExpectedStx⟩ = .ok deaf :=
      onReadComplete_error heap hrun.callback
    refine ⟨deaf, ?_, ⟨u ++ x, v, ?_, ?_⟩, .inl rfl, ?_⟩
    · have hne : errExpectedStx ≠ 0 := by decide
      simp only [parsed] at hcall
      simp [consumeInput, hconsume, hcall, hne]
    · refine hparsed _ rfl rfl rfl ?_
      rw [he]
      exact (List.append_nil _).symm
    · refine .deaf rfl hrun.readers hrun.readStarts ?_
      change s.codes ++ [errExpectedStx] = _
      rw [hrun.codes]
      rfl
    · simp [deaf, parsed, Closing]

/-- `read_error`. -/
theorem readError_spec (heap : DemoHeap) {u : List (UInt8 × Bool)} {v : List UInt8}
    (hrun : s.Running) (hp : s.readSide.Parsed u v) :
    ∃ s', s.readError heap = .ok s' ∧ Reads s s' := by
  let stopped : DemoSession := { s with
    readState := .stop, onReadCb := false, codes := s.codes ++ [errIoError] }
  refine ⟨stopped.post .postableCleanup, ?_, ⟨u, v, ?_, ?_⟩, .inl ?_, ?_⟩
  · simp [readError, callReadCb, hrun.callback, handleRequest, errIoError, stopped]
  · rw [readSide_post]
    exact ⟨hp.received, hp.input, hp.parser, hp.replies⟩
  · rw [readSide_post]
    refine .stopped rfl hrun.readers hrun.readStarts ?_
    change s.codes ++ [errIoError] = _
    rw [hrun.codes]
    rfl
  · rw [writeSide_post]
    rfl
  · simp [stopped, post, Closing]

/-- `reader`. -/
theorem reader_spec (io : DemoIo) {u : List (UInt8 × Bool)} {v : List UInt8} (hrun : s.Running)
    (hp : s.readSide.Parsed u v) : ∃ s', s.postableReader io = .ok s' ∧ Reads s s' := by
  have hstart : s.postableReader io =
      if (s.inputBuffer io.heap).dataLen = 0 then s.receive io (s.inputBuffer io.heap)
      else s.consumeInput io.heap (s.inputBuffer io.heap) := by
    simp [postableReader, reader, hrun.state]
  have hin : InputHolds v (some (s.inputBuffer io.heap)) := by
    have hinput := hp.input
    simp only [readSide] at hinput
    cases hbuf : s.activeInputBuffer with
    | none =>
      rw [hbuf] at hinput
      obtain rfl : v = [] := hinput
      simp only [inputBuffer, hbuf, Option.getD_none]
      exact ⟨IOBuffer.newWithCapacity_holds _ _, rfl, fun _ => rfl⟩
    | some iob =>
      rw [hbuf] at hinput
      simpa only [inputBuffer, hbuf, Option.getD_some] using hinput
  generalize s.inputBuffer io.heap = iob at hstart hin
  rw [hstart]
  by_cases hzero : iob.dataLen = 0
  · -- the buffer is empty, and all of it is space
    obtain rfl : v = [] := List.length_eq_zero_iff.mp (hin.1.remaining.symm.trans hzero)
    have hptr : iob.bufferPtr = 0 := hin.2.2 rfl
    have hbuffered :
        ({ s with activeInputBuffer := some iob } : DemoSession).readSide.Parsed u [] :=
      ⟨hp.received, hin, hp.parser, hp.replies⟩
    have hrun' : ({ s with activeInputBuffer := some iob } : DemoSession).Running :=
      ⟨hrun.state, hrun.callback, hrun.readers, hrun.readStarts, hrun.codes⟩
    rw [if_pos hzero, receive]
    obtain ⟨stopped, herror, hstopped⟩ := readError_spec io.heap hrun' hbuffered
    have herror' := And.intro herror (hstopped.of_eq (s := s) rfl Iff.rfl)
    cases io.recv with
    | got bs =>
      by_cases hnil : bs.take iob.spaceLen.toNat = []
      · simp only [if_pos hnil]
        exact ⟨stopped, herror'⟩
      · have hfit : ([] : List UInt8).length + (bs.take iob.spaceLen.toNat).length ≤
            iob.bufferCapacity := by
          have hrem : iob.bufferRemaining = 0 := hzero
          simp only [List.length_nil, List.length_take, IOBuffer.spaceLen]
          omega
        obtain ⟨iob', hcommit, hholds, hptr', hcap⟩ :=
          IOBuffer.fill_commit_spec hin.1 hptr hnil hfit
        simp only [if_neg hnil, hcommit, Except.ok_bind]
        let filled : DemoSession :=
          { s with received := s.received ++ marked (bs.take iob.spaceLen.toNat) }
        have hrec : s.received = u := hp.received.trans (List.append_nil u)
        obtain ⟨s', hs', hreads⟩ := consumeInput_spec (s := filled) io.heap
          ⟨hrun.state, hrun.callback, hrun.readers, hrun.readStarts, hrun.codes⟩
          ⟨hholds, hcap.trans hin.2.1, fun _ => hptr'⟩ (hrec ▸ rfl) hp.parser hp.replies
        exact ⟨s', hs', hreads.of_eq rfl Iff.rfl⟩
    | eagain =>
      refine ⟨_, rfl, ⟨u, [], ⟨hp.received, hin, hp.parser, hp.replies⟩, ?_⟩, .inl rfl, ?_⟩
      · exact .waiting rfl hrun.callback hrun.readers hrun.readStarts hrun.codes rfl
      · simp [Closing]
    | error => exact ⟨stopped, herror'⟩
  · rw [if_neg hzero]
    exact consumeInput_spec io.heap hrun hin hp.received hp.parser hp.replies

/-- `handler_postable_read_start`. -/
theorem readStart_spec (heap : DemoHeap) {u : List (UInt8 × Bool)} {v : List UInt8}
    (hs : s.readState = .idle) (hr : s.readSide.readers = 0) (hn : s.readSide.readStarts = 0)
    (hc : s.codes = []) (hp : s.readSide.Parsed u v) :
    ∃ s', s.democonnectionRead heap = .ok s' ∧ Reads s s' := by
  let started : DemoSession := { s with readState := .active, onReadCb := true }
  refine ⟨started.post .postableReader, ?_, ⟨u, v, ?_, ?_⟩, .inl ?_, ?_⟩
  · simp [democonnectionRead, hs, started]
  · rw [readSide_post]
    exact ⟨hp.received, hp.input, hp.parser, hp.replies⟩
  · rw [readSide_post]
    exact .reading rfl rfl (congrArg (· + 1) hr) hn hc
  · rw [writeSide_post]
    rfl
  · simp [started, post, Closing]

/-- `read_epollin`. -/
theorem readEpollin_spec (h : s.readSide.Inv) :
    s.readEpollin.readSide.Inv ∧ s.readEpollin.writeSide = s.writeSide ∧
      (s.readEpollin.Closing ↔ s.Closing) ∧
      (s.readEpollin.readState = .stop ↔ s.readState = .stop) := by
  by_cases hs : s.readState = .eagained
  · obtain ⟨u, v, hp, hphase⟩ := h
    let woken : DemoSession := { s with readState := .active }
    have heq : s.readEpollin = woken.post .postableReader := by
      rw [readEpollin, if_pos hs]
    rw [heq, readSide_post, writeSide_post, closing_post]
    refine ⟨⟨u, v, ⟨hp.received, hp.input, hp.parser, hp.replies⟩, ?_⟩, rfl, ?_, ?_⟩
    · cases hphase with
      | waiting _ hcb hr hn hc hv => exact .reading rfl hcb (congrArg (· + 1) hr) hn hc
      | reading hs' => cases hs.symm.trans hs'
      | between hs' => cases hs.symm.trans hs'
      | deaf hs' => cases hs.symm.trans hs'
      | stopped hs' => cases hs.symm.trans hs'
    · simp [woken, Closing]
    · simp [woken, post, hs]
  · rw [readEpollin, if_neg hs]
    exact ⟨h, rfl, Iff.rfl, Iff.rfl⟩

end DemoSession

end CHttp
