import CHttp.Async.Outcomes
import CHttp.ForMathlib.Machine
import CHttp.Runloop.FunctorList
import Mathlib.Algebra.Order.BigOperators.Group.List
import Mathlib.Algebra.Order.Ring.Nat

/-!
# The state of a connection between two steps

Between two steps a connection stands in one of eleven stages, and the stage determines
`read_state`, `write_state`, `readside_posted` and the one functor that is queued, if any:
`Coherent`. `Move` lists, stage by stage, everything a step can do; `step_spec` says that every step
from a coherent state is such a move, or stops at an assertion of a library function, and
`Move.coherent` that a move leads to a coherent state again.

That gives the joint invariant of the ten functions of the connection, and with it that none of
their assertions on the state can fail.
-/

namespace CHttp

namespace Stage

def life : Stage → Life
  | embryo => .embryo
  | freed => .freed
  | _ => .open

def readState : Stage → ReadState
  | reading => .active
  | waiting => .eagained
  | closing | freed => .stop
  | _ => .idle

def writeState : Stage → WriteState
  | writing => .active
  | blocked => .eagained
  | closing | freed => .stop
  | _ => .idle

def readyList : Stage → List Postable
  | reading => [.postableReader]
  | handing => [.postableHandleRequest]
  | posted => [.appFunctor]
  | writing => [.asyncPostableWriter]
  | written => [.postableWriteComplete]
  | closing => [.postableCloseConnection]
  | _ => []

/-- `readside_posted`. -/
def readsidePosted : Stage → Bool
  | reading => true
  | _ => false

/-- A request is in `scratch_request`. -/
def hands : Stage → Bool
  | handing => true
  | _ => false

/-- The application has a request to answer. -/
def keeps : Stage → Bool
  | answering | posted => true
  | _ => false

/-- The output buffer holds bytes to send. -/
def writes : Stage → Bool
  | writing | blocked => true
  | _ => false

/-- How often a close was posted. -/
def closes : Stage → ℕ
  | closing | freed => 1
  | _ => 0

/-- The actions that change nothing. -/
def Ignores : Stage → World.Act → Prop
  | embryo, .accept _ => False
  | waiting, .event mask => mask &&& epollin = 0
  | blocked, .event mask => mask &&& epollout = 0
  | answering, .appPost => False
  | st, .run _ => st.readyList = []
  | _, _ => True

end Stage

namespace World

variable {L : Llhttp}

/-- The state agrees with the stage. -/
structure Coherent (st : Stage) (w : World L) : Prop where
  life : w.life = st.life
  readState : w.cref.readState = st.readState
  writeState : w.cref.writeState = st.writeState
  readyList : w.readyList = st.readyList
  readsidePosted : w.cref.readsidePosted = st.readsidePosted
  input : w.cref.inputMessage = none
  buffer : ∀ iob, w.cref.activeInputBuffer = some iob → iob.bufferCapacity = readBufferSize
  scratch : w.cref.scratchRequest.isSome = st.hands
  pending : w.pending.isSome = st.keeps
  output : st.writes = true →
    ∃ iob s, w.cref.activeOutputBuffer = some iob ∧ iob.Holds s ∧ s ≠ []
  closesPosted : w.closesPosted = st.closes

/-- The state in which a step calls `reader`: the caller's functor is off the ready list and
nothing else goes on. -/
structure Reading (w : World L) : Prop extends w.Reads where
  life : w.life = .open
  writeState : w.cref.writeState = .idle
  readyList : w.readyList = []
  scratch : w.cref.scratchRequest = none
  pending : w.pending = none
  closesPosted : w.closesPosted = 0

namespace Reading

variable {w : World L}

theorem withInputBuffer (h : w.Reading) : w.withInputBuffer.Reading where
  active := h.active
  input := h.input
  posted := h.posted
  buffer := by
    rintro _ ⟨⟩
    exact (inputBuffer_holds h.toReads).2.2
  life := h.life
  writeState := h.writeState
  readyList := h.readyList
  scratch := h.scratch
  pending := h.pending
  closesPosted := h.closesPosted

theorem parsed (h : w.Reading) {iob : IOBuffer} (hcap : iob.bufferCapacity = readBufferSize)
    (ll : L.State) (p : HttpParser) (nread : List UInt8) : (w.parsed iob ll p nread).Reading where
  active := h.active
  input := rfl
  posted := h.posted
  buffer := by
    rintro _ ⟨⟩
    exact hcap
  life := h.life
  writeState := h.writeState
  readyList := h.readyList
  scratch := h.scratch
  pending := h.pending
  closesPosted := h.closesPosted

/-- A read that ended with `EAGAIN`. -/
theorem waiting (h : w.Reading) : Coherent .waiting { w with cref.readState := .eagained } where
  life := h.life
  readState := rfl
  writeState := h.writeState
  readyList := h.readyList
  readsidePosted := h.posted
  input := h.input
  buffer := h.buffer
  scratch := by simp [h.scratch, Stage.hands]
  pending := by simp [h.pending, Stage.keeps]
  output := nofun
  closesPosted := h.closesPosted

/-- A read that goes on. -/
theorem reading (h : w.Reading) :
    Coherent .reading ({ w with cref.readsidePosted := true }.post .postableReader) where
  life := h.life
  readState := h.active
  writeState := h.writeState
  readyList := by simp [post, h.readyList, Stage.readyList]
  readsidePosted := rfl
  input := h.input
  buffer := h.buffer
  scratch := by simp [post, h.scratch, Stage.hands]
  pending := by simp [post, h.pending, Stage.keeps]
  output := nofun
  closesPosted := h.closesPosted

/-- A read that completed a message. -/
theorem handing (h : w.Reading) (m : Message) :
    Coherent .handing ({ w with cref.readState := .idle }.postDelegateHandleRequest m) where
  life := h.life
  readState := rfl
  writeState := h.writeState
  readyList := by simp [postDelegateHandleRequest, post, h.readyList, Stage.readyList]
  readsidePosted := h.posted
  input := h.input
  buffer := h.buffer
  scratch := rfl
  pending := by simp [postDelegateHandleRequest, post, h.pending, Stage.keeps]
  output := nofun
  closesPosted := h.closesPosted

/-- A read that failed. -/
theorem closing (h : w.Reading) : Coherent .closing
    { w with cref.readState := .stop, cref.writeState := .stop }.postClose where
  life := h.life
  readState := rfl
  writeState := rfl
  readyList := by simp [postClose, post, h.readyList, Stage.readyList]
  readsidePosted := h.posted
  input := h.input
  buffer := h.buffer
  scratch := by simp [postClose, post, h.scratch, Stage.hands]
  pending := by simp [postClose, post, h.pending, Stage.keeps]
  output := nofun
  closesPosted := by simp [postClose, post, h.closesPosted, Stage.closes]

end Reading

/-- A `reader` that may be called leaves a coherent state. -/
theorem ReadOutcome.coherent {w w' : World L} {io : Io} {st : Stage} (h : w.Reading)
    (ho : ReadOutcome w io st w') : Coherent st w' := by
  cases ho with
  | message _ _ hcap _ => exact (h.parsed hcap _ _ _).handing _
  | stale _ _ hcap _ _ => exact (h.parsed hcap _ _ _).waiting
  | more _ _ hcap _ _ => exact (h.parsed hcap _ _ _).reading
  | rejected _ _ hcap _ _ => exact (h.parsed hcap _ _ _).closing
  | eof _ => exact h.withInputBuffer.closing
  | again _ => exact h.withInputBuffer.waiting
  | broken _ _ => exact h.withInputBuffer.closing

/-! ### The moves -/

/-- The connection is accepted. -/
def opened (w : World L) : World L := { w with life := .open, cref.readState := .active }

/-- The posted reader is taken off the ready list. -/
def resumed (w : World L) : World L := { w with readyList := [], cref.readsidePosted := false }

/-- The handler is told that a response was sent, and starts the next read. -/
def completed (w : World L) : World L :=
  { w.noteAnswer (fun a => { a with completions := a.completions + 1 }) with
    readyList := []
    cref.readState := .active }

/-- A request is handed over. -/
def taken (w : World L) (tmp : Message) : World L :=
  { w with readyList := [], cref.scratchRequest := none, handed := w.handed ++ [tmp] }

/-- A response is accepted for writing, `iob` being its bytes. -/
def answered (w : World L) (request response : Message) (iob : IOBuffer) : World L :=
  { w with
    cref.activeOutputBuffer := some iob
    cref.writeState := .active
    readyList := w.readyList ++ [.asyncPostableWriter]
    answers :=
      ⟨markConnection request response, !keepAlive request, [], 0, false, w.handed.length⟩ ::
        w.answers }

/-- Everything a step can do, by the stage in which it is taken, with the stage it leads to. -/
inductive Move (w : World L) : Stage → Act → Stage → World L → Prop
  | stay {st a} (h : st.Ignores a) : Move w st a st w
  | accept {io st' w'} (h : ReadOutcome w.opened io st' w') : Move w .embryo (.accept io) st' w'
  | epollin {mask} (h : mask &&& epollin ≠ 0) :
      Move w .waiting (.event mask) .reading
        ({ w with cref.readState := .active, cref.readsidePosted := true }.post .postableReader)
  | epollout {mask} (h : mask &&& epollout ≠ 0) :
      Move w .blocked (.event mask) .writing
        ({ w with cref.writeState := .active }.post .asyncPostableWriter)
  | read {io st' w'} (h : ReadOutcome w.resumed io st' w') : Move w .reading (.run io) st' w'
  | keep {io tmp} (hscratch : w.cref.scratchRequest = some tmp) (h : io.atOnce = false) :
      Move w .handing (.run io) .answering { w.taken tmp with pending := some tmp }
  | reply {io tmp iob} (hscratch : w.cref.scratchRequest = some tmp) (h : io.atOnce = true)
      (hser : (markConnection tmp io.reply).serialize w.memory = .ok iob) :
      Move w .handing (.run io) .writing ((w.taken tmp).answered tmp io.reply iob)
  | appPost : Move w .answering .appPost .posted (w.post .appFunctor)
  | lateReply {io request iob} (hpending : w.pending = some request)
      (hser : (markConnection request io.reply).serialize w.memory = .ok iob) :
      Move w .posted (.run io) .writing
        ({ w with readyList := [], pending := none }.answered request io.reply iob)
  | write {io iob s st' w'} (hout : w.cref.activeOutputBuffer = some iob) (hiob : iob.Holds s)
      (hs : s ≠ []) (h : WriteOutcome { w with readyList := [] } io s st' w') :
      Move w .writing (.run io) st' w'
  | complete {io st' w'} (h : ReadOutcome w.completed io st' w') : Move w .written (.run io) st' w'
  | close {io} : Move w .closing (.run io) .freed { w with readyList := [], life := .freed }

namespace Coherent

variable {st : Stage} {w w' : World L}

private theorem scratch_none (h : Coherent st w) (hst : st.hands = false) :
    w.cref.scratchRequest = none := by
  simpa [hst] using h.scratch

theorem pending_none (h : Coherent st w) (hst : st.keeps = false) : w.pending = none := by
  simpa [hst] using h.pending

theorem opened (h : Coherent .embryo w) : w.opened.Reading where
  active := rfl
  input := h.input
  posted := h.readsidePosted
  buffer := h.buffer
  life := rfl
  writeState := h.writeState
  readyList := h.readyList
  scratch := h.scratch_none rfl
  pending := h.pending_none rfl
  closesPosted := h.closesPosted

theorem resumed (h : Coherent .reading w) : w.resumed.Reading where
  active := h.readState
  input := h.input
  posted := rfl
  buffer := h.buffer
  life := h.life
  writeState := h.writeState
  readyList := rfl
  scratch := h.scratch_none rfl
  pending := h.pending_none rfl
  closesPosted := h.closesPosted

theorem completed (h : Coherent .written w) : w.completed.Reading where
  active := rfl
  input := h.input
  posted := h.readsidePosted
  buffer := h.buffer
  life := h.life
  writeState := h.writeState
  readyList := rfl
  scratch := h.scratch_none rfl
  pending := h.pending_none rfl
  closesPosted := h.closesPosted

/-- A request kept by the application. -/
theorem taken (h : Coherent .handing w) (tmp : Message) :
    Coherent .answering { w.taken tmp with pending := some tmp } where
  life := h.life
  readState := h.readState
  writeState := h.writeState
  readyList := rfl
  readsidePosted := h.readsidePosted
  input := h.input
  buffer := h.buffer
  scratch := rfl
  pending := rfl
  output := nofun
  closesPosted := h.closesPosted

/-- The application's functor is taken off the ready list. -/
theorem unposted (h : Coherent .posted w) : Coherent .answering { w with readyList := [] } where
  life := h.life
  readState := h.readState
  writeState := h.writeState
  readyList := rfl
  readsidePosted := h.readsidePosted
  input := h.input
  buffer := h.buffer
  scratch := h.scratch
  pending := h.pending
  output := nofun
  closesPosted := h.closesPosted

/-- A kept request answered. -/
theorem answered (h : Coherent .answering w) {request response : Message} {iob : IOBuffer}
    (hser : (markConnection request response).serialize w.memory = .ok iob) :
    Coherent .writing ({ w with pending := none }.answered request response iob) where
  life := h.life
  readState := h.readState
  writeState := rfl
  readyList := by simp [World.answered, h.readyList, Stage.readyList]
  readsidePosted := h.readsidePosted
  input := h.input
  buffer := h.buffer
  scratch := h.scratch
  pending := rfl
  output _ := ⟨iob, iob.data, rfl, Message.serialize_holds hser⟩
  closesPosted := h.closesPosted

end Coherent

/-- A `writer` that may be called leaves a coherent state. -/
theorem WriteOutcome.coherent {w w' : World L} {io : Io} {s : List UInt8} {st : Stage}
    (h : Coherent .writing w) (ho : WriteOutcome { w with readyList := [] } io s st w') :
    Coherent st w' := by
  cases ho with
  | done hsend hs hn =>
    exact ⟨h.life, h.readState, rfl, rfl, h.readsidePosted, h.input, h.buffer, h.scratch,
      h.pending, nofun, h.closesPosted⟩
  | @part n iob hsend hpos hn hiob =>
    have hne : s.drop n ≠ [] := by
      rw [ne_eq, List.drop_eq_nil_iff]
      exact Nat.not_le.mpr hn
    exact ⟨h.life, h.readState, rfl, rfl, h.readsidePosted, h.input, h.buffer, h.scratch,
      h.pending, fun _ => ⟨_, _, rfl, hiob, hne⟩, h.closesPosted⟩
  | again hsend =>
    exact ⟨h.life, h.readState, rfl, rfl, h.readsidePosted, h.input, h.buffer, h.scratch,
      h.pending, fun _ => h.output rfl, h.closesPosted⟩
  | broken hsend =>
    refine ⟨h.life, rfl, rfl, rfl, h.readsidePosted, h.input, h.buffer, h.scratch, h.pending,
      nofun, ?_⟩
    simp [writeError, noteAnswer, postClose, post, h.closesPosted, Stage.closes]

/-- **Moves keep the state coherent.** -/
theorem Move.coherent {st st' : Stage} {w w' : World L} {a : Act} (h : Coherent st w)
    (hm : Move w st a st' w') : Coherent st' w' := by
  cases hm with
  | stay _ => exact h
  | accept ho => exact ho.coherent h.opened
  | epollin hmask =>
    exact ⟨h.life, rfl, h.writeState, by simp [post, h.readyList, Stage.readyList], rfl, h.input,
      h.buffer, h.scratch, h.pending, nofun, h.closesPosted⟩
  | epollout hmask =>
    exact ⟨h.life, h.readState, rfl, by simp [post, h.readyList, Stage.readyList],
      h.readsidePosted, h.input, h.buffer, h.scratch, h.pending, fun _ => h.output rfl,
      h.closesPosted⟩
  | read ho => exact ho.coherent h.resumed
  | keep hscratch hlater => exact h.taken _
  | @reply io tmp iob hscratch honce hser =>
    -- answering at once is keeping the request and answering it in the same step
    have hpe : w.pending = none := h.pending_none rfl
    have heq : w.taken tmp = { w.taken tmp with pending := none } := by simp only [taken, hpe]
    rw [heq]
    exact (h.taken tmp).answered hser
  | appPost =>
    exact ⟨h.life, h.readState, h.writeState, by simp [post, h.readyList, Stage.readyList],
      h.readsidePosted, h.input, h.buffer, h.scratch, h.pending, nofun, h.closesPosted⟩
  | lateReply hpending hser => exact h.unposted.answered hser
  | write hout hiob hs ho => exact ho.coherent h
  | complete ho => exact ho.coherent h.completed
  | close =>
    exact ⟨rfl, h.readState, h.writeState, rfl, h.readsidePosted, h.input, h.buffer, h.scratch,
      h.pending, nofun, h.closesPosted⟩

/-! ### Every step is a move -/

/-- A step either is a move or stops at an assertion of a library function. -/
def Steps (st : Stage) (w : World L) (a : Act) : Prop :=
  (∃ w', w.step a = .ok w' ∧ ∃ st', Move w st a st' w') ∨ ∃ e, w.step a = .error (.library e)

/-- A step that comes down to a call of `reader`. -/
theorem steps_reader {st : Stage} {w v : World L} {a : Act} {io : Io} (hv : v.Reading)
    (hs : w.step a = v.reader io)
    (hm : ∀ {st' w'}, ReadOutcome v io st' w' → Move w st a st' w') :
    Steps st w a := by
  unfold Steps
  rw [hs]
  obtain ⟨w', hw', st', ho⟩ | ⟨e, -, -, -, -, he⟩ := reader_spec hv.toReads io
  · exact Or.inl ⟨w', hw', st', hm ho⟩
  · exact Or.inr ⟨e, he⟩

/-- `async_connection_read` with no reader posted calls `reader`. -/
theorem asyncConnectionRead_eq {w : World L} (hs : w.cref.readState = .idle)
    (hi : w.cref.inputMessage = none) (hp : w.cref.readsidePosted = false) (io : Io) :
    w.asyncConnectionRead io = reader { w with cref.readState := .active } io := by
  simp only [asyncConnectionRead, hs, hi, hp]
  rfl

/-- `postable_reader` as it is posted calls `reader`. -/
theorem postableReader_eq {w : World L} (hs : w.cref.readState = .active)
    (hp : w.cref.readsidePosted = true) (io : Io) :
    w.postableReader io = reader { w with cref.readsidePosted := false } io := by
  simp only [postableReader, hs, hp]
  rfl

/-- `async_postable_writer` as it is posted calls `writer`. -/
theorem asyncPostableWriter_eq {w : World L} (hs : w.cref.writeState = .active)
    (ho : w.cref.activeOutputBuffer.isSome) (io : Io) : w.asyncPostableWriter io = w.writer io := by
  simp only [asyncPostableWriter, hs, ho]
  rfl

/-- `async_handler_handle_response` while no write is active. -/
theorem handleResponse_eq {w : World L} (hw : w.cref.writeState = .idle)
    (request response : Message) :
    w.handleResponse request response =
      (library ((markConnection request response).serialize w.memory) >>= fun iob =>
        .ok (w.answered request response iob)) := by
  simp only [handleResponse, asyncConnectionWrite, hw]
  cases (markConnection request response).serialize w.memory with
  | ok iob => rfl
  | error e => rfl

/-- The reactor calls the oldest functor. -/
theorem step_run {w : World L} {f : Postable} {rest : List Postable} (hq : w.readyList = f :: rest)
    (hlife : w.life = .open) (io : Io) :
    w.step (.run io) = call { w with readyList := rest } io f := by
  simp only [step, hq]
  exact if_pos hlife

/-- Accepting the connection calls `reader`. -/
theorem step_opened {w : World L} (h : Coherent .embryo w) (io : Io) :
    w.step (.accept io) = w.opened.reader io := by
  have hread : w.step (.accept io) = asyncConnectionRead { w with life := .open } io :=
    if_pos h.life
  rw [hread]
  exact asyncConnectionRead_eq (w := { w with life := .open }) h.readState h.input
    h.readsidePosted io

/-- The posted reader calls `reader`. -/
theorem step_resumed {w : World L} (h : Coherent .reading w) (io : Io) :
    w.step (.run io) = w.resumed.reader io := by
  rw [step_run h.readyList h.life]
  exact postableReader_eq (w := { w with readyList := [] }) h.readState h.readsidePosted io

/-- The end of a write calls `reader`. -/
theorem step_completed {w : World L} (h : Coherent .written w) (io : Io) :
    w.step (.run io) = w.completed.reader io := by
  rw [step_run h.readyList h.life]
  exact asyncConnectionRead_eq
    (w := noteAnswer { w with readyList := [] }
      fun a => { a with completions := a.completions + 1 })
    h.readState h.input h.readsidePosted io

/-- A step that answers a request. -/
theorem steps_answered {st : Stage} {w v : World L} {a : Act} {request response : Message}
    (hv : v.cref.writeState = .idle) (hmem : v.memory = w.memory)
    (hs : w.step a = v.handleResponse request response)
    (hm : ∀ iob, (markConnection request response).serialize w.memory = .ok iob →
      Move w st a .writing (v.answered request response iob)) : Steps st w a := by
  unfold Steps
  rw [hs, handleResponse_eq hv, hmem]
  cases hser : (markConnection request response).serialize w.memory with
  | ok iob => exact Or.inl ⟨_, rfl, _, hm iob hser⟩
  | error e => exact Or.inr ⟨e, rfl⟩

private theorem steps_run {st : Stage} {w : World L} (h : Coherent st w) (hq : st.readyList ≠ [])
    (io : Io) : Steps st w (.run io) := by
  cases st with
  | embryo | waiting | answering | blocked | freed => exact absurd rfl hq
  | reading => exact steps_reader h.resumed (step_resumed h io) Move.read
  | handing =>
    obtain ⟨tmp, htmp⟩ := Option.isSome_iff_exists.mp h.scratch
    have hs := step_run h.readyList h.life io
    simp only [call, postableHandleRequest, htmp] at hs
    cases honce : io.atOnce with
    | true =>
      refine steps_answered (v := w.taken tmp) h.writeState rfl ?_ fun iob => .reply htmp honce
      rw [hs, if_pos honce]
      rfl
    | false =>
      refine Or.inl ⟨_, ?_, _, .keep htmp honce⟩
      rw [hs, honce]
      rfl
  | posted =>
    obtain ⟨request, hreq⟩ := Option.isSome_iff_exists.mp h.pending
    refine steps_answered (v := { w with readyList := [], pending := none }) h.writeState rfl ?_
      fun iob => .lateReply hreq
    rw [step_run h.readyList h.life]
    simp only [call, appFunctor, hreq]
  | writing =>
    obtain ⟨iob, s, hout, hiob, hs⟩ := h.output rfl
    obtain ⟨w', hw', st', ho⟩ := writer_spec (w := { w with readyList := [] }) hout hiob hs io
    refine Or.inl ⟨w', ?_, st', .write hout hiob hs ho⟩
    rw [step_run h.readyList h.life, ← hw']
    exact asyncPostableWriter_eq (w := { w with readyList := [] }) h.writeState
      (Option.isSome_iff_exists.mpr ⟨iob, hout⟩) io
  | written => exact steps_reader h.completed (step_completed h io) Move.complete
  | closing =>
    refine Or.inl ⟨_, ?_, _, .close⟩
    rw [step_run h.readyList h.life]
    rfl

/-- `read_epollin` while a read waits posts a reader. -/
theorem steps_epollin {w : World L} (h : Coherent .waiting w) {mask : UInt64}
    (hmask : mask &&& epollin ≠ 0) : Steps .waiting w (.event mask) := by
  refine Or.inl ⟨_, ?_, _, .epollin hmask⟩
  have hs : w.step (.event mask) = w.asyncEventHandler mask := if_pos h.life
  have hout : w.writeEpollout = w := if_neg (by simp [h.writeState, Stage.writeState])
  have hin : w.readEpollin = asyncReadStart { w with cref.readState := .active } :=
    if_pos h.readState
  simp only [hs, asyncEventHandler, hout, ite_self, if_pos hmask, hin, asyncReadStart,
    h.readsidePosted]
  rfl

/-- `write_epollout` while a write waits posts a writer. -/
theorem steps_epollout {w : World L} (h : Coherent .blocked w) {mask : UInt64}
    (hmask : mask &&& epollout ≠ 0) : Steps .blocked w (.event mask) := by
  refine Or.inl ⟨_, ?_, _, .epollout hmask⟩
  have hs : w.step (.event mask) = w.asyncEventHandler mask := if_pos h.life
  have hout : w.writeEpollout = { w with cref.writeState := .active }.post .asyncPostableWriter :=
    if_pos h.writeState
  have hin : ({ w with cref.writeState := .active }.post .asyncPostableWriter).readEpollin =
      .ok ({ w with cref.writeState := .active }.post .asyncPostableWriter) :=
    if_neg (by simp [post, h.readState, Stage.readState])
  simp only [hs, asyncEventHandler, if_pos hmask, hout, hin, ite_self]

private theorem steps_appPost {w : World L} (h : Coherent .answering w) :
    Steps .answering w .appPost := by
  refine Or.inl ⟨_, if_pos ⟨h.pending, ?_⟩, _, .appPost⟩
  simp [h.readyList, Stage.readyList]

/-- The events that find neither side waiting for them change nothing. -/
theorem asyncEventHandler_eq {w : World L} {mask : UInt64}
    (hr : w.cref.readState = .eagained → mask &&& epollin = 0)
    (hw : w.cref.writeState = .eagained → mask &&& epollout = 0) :
    w.asyncEventHandler mask = .ok w := by
  have hout : (if mask &&& epollout ≠ 0 then w.writeEpollout else w) = w := by
    by_cases hmask : mask &&& epollout = 0
    · simp [hmask]
    · simp [writeEpollout, mt hw hmask]
  simp only [asyncEventHandler, hout]
  by_cases hmask : mask &&& epollin = 0
  · simp [hmask]
  · simp [readEpollin, mt hr hmask]

/-- What a stage ignores changes nothing. -/
theorem step_of_ignores {st : Stage} {w : World L} {a : Act} (h : Coherent st w)
    (ha : st.Ignores a) : w.step a = .ok w := by
  cases a with
  | accept io =>
    refine if_neg ?_
    rw [h.life]
    cases st <;> simp_all [Stage.life, Stage.Ignores]
  | event mask =>
    have heq : w.asyncEventHandler mask = .ok w := by
      refine asyncEventHandler_eq (fun hr => ?_) fun hw => ?_
      · rw [h.readState] at hr
        cases st <;> simp_all [Stage.readState, Stage.Ignores]
      · rw [h.writeState] at hw
        cases st <;> simp_all [Stage.writeState, Stage.Ignores]
    simp [step, heq]
  | run io =>
    have hq : st.readyList = [] := by cases st <;> simp_all [Stage.Ignores]
    simp only [step, h.readyList, hq]
  | appPost =>
    refine if_neg ?_
    rw [h.pending, h.readyList]
    cases st <;> simp_all [Stage.keeps, Stage.readyList, Stage.Ignores]

/-- **Every step from a coherent state is a move**, or stops at an assertion of a library
function. -/
theorem step_spec {st : Stage} {w : World L} (h : Coherent st w) (a : Act) : Steps st w a := by
  -- What is not ignored is one of the transitions of its stage.
  by_cases ha : st.Ignores a
  · exact Or.inl ⟨w, step_of_ignores h ha, st, .stay ha⟩
  cases a with
  | accept io =>
    have hst : st = .embryo := by cases st <;> simp_all [Stage.Ignores]
    subst hst
    exact steps_reader h.opened (step_opened h io) Move.accept
  | event mask =>
    have hst : st = .waiting ∨ st = .blocked := by cases st <;> simp_all [Stage.Ignores]
    rcases hst with rfl | rfl
    · exact steps_epollin h ha
    · exact steps_epollout h ha
  | run io =>
    refine steps_run h ?_ io
    cases st <;> simp_all [Stage.Ignores, Stage.readyList]
  | appPost =>
    have hst : st = .answering := by cases st <;> simp_all [Stage.Ignores]
    subst hst
    exact steps_appPost h

/-! ### The invariant of every run -/

/-- The connection before it is accepted. -/
theorem init_coherent (L : Llhttp) (heap : Heap) (memory : ByteMemory) :
    Coherent .embryo (init L heap memory) :=
  ⟨rfl, rfl, rfl, rfl, rfl, rfl, nofun, rfl, rfl, nofun, rfl⟩

/-- The state agrees with some stage. -/
def Sound (w : World L) : Prop := ∃ st, Coherent st w

theorem sound_init (L : Llhttp) (heap : Heap) (memory : ByteMemory) : (init L heap memory).Sound :=
  ⟨.embryo, init_coherent L heap memory⟩

/-- The step that was taken, as a move. -/
theorem move_of_step {st : Stage} {w w' : World L} {a : Act} (h : Coherent st w)
    (hs : w.step a = .ok w') : ∃ st', Move w st a st' w' := by
  obtain ⟨w'', hw, hm⟩ | ⟨e, he⟩ := step_spec h a
  · rw [hw] at hs
    cases hs
    exact hm
  · rw [he] at hs
    cases hs

theorem sound_step (w : World L) (a : Act) (w' : World L) (h : w.Sound) (hs : w.step a = .ok w') :
    w'.Sound := by
  obtain ⟨st, hst⟩ := h
  obtain ⟨st', hm⟩ := move_of_step hst hs
  exact ⟨st', hm.coherent hst⟩

/-- A sound state aborts only inside a library function. -/
theorem library_of_step_error {w : World L} {a : Act} {e : Fault} (h : w.Sound)
    (hs : w.step a = .error e) : ∃ abort, e = .library abort := by
  obtain ⟨st, hst⟩ := h
  obtain ⟨w', hw, -⟩ | ⟨abort, ha⟩ := step_spec hst a
  · rw [hw] at hs
    cases hs
  · rw [ha] at hs
    cases hs
    exact ⟨abort, rfl⟩

/-- The joint invariant of `read_state`, `write_state`, `readside_posted`, the output buffer and the
ready list. Once a close is posted nothing but it can happen, and after it nothing at all. -/
structure StateInvariant (w : World L) : Prop where
  oneFunctor : w.readyList.length ≤ 1
  readsidePosted : w.cref.readsidePosted = true ↔ w.readyList = [.postableReader]
  output : w.cref.writeState = .active ∨ w.cref.writeState = .eagained →
    w.cref.activeOutputBuffer.isSome
  closesPosted : w.closesPosted ≤ 1
  closePosted : .postableCloseConnection ∈ w.readyList → w.closesPosted = 1 ∧ ∀ a,
    w.step a = .ok w ∨ w.step a = .ok { w with readyList := [], life := .freed }
  closed : w.life = .freed → w.readyList = [] ∧ ∀ a, w.step a = .ok w

/-- While a close is posted only it can run. -/
theorem step_closing {w : World L} (h : Coherent .closing w) (a : Act) :
    w.step a = .ok w ∨ w.step a = .ok { w with readyList := [], life := .freed } := by
  cases a with
  | accept _ | event _ | appPost => exact Or.inl (step_of_ignores h trivial)
  | run io => exact Or.inr (step_run h.readyList h.life io)

theorem Sound.stateInvariant {w : World L} (h : w.Sound) : w.StateInvariant := by
  obtain ⟨st, h⟩ := h
  refine ⟨?_, ?_, fun hw => ?_, ?_, fun hc => ?_, fun hf => ?_⟩
  · rw [h.readyList]
    cases st <;> simp [Stage.readyList]
  · rw [h.readsidePosted, h.readyList]
    cases st <;> simp [Stage.readsidePosted, Stage.readyList]
  · have hst : st.writes = true := by
      rw [h.writeState] at hw
      cases st <;> simp_all [Stage.writeState, Stage.writes]
    obtain ⟨iob, s, hout, -⟩ := h.output hst
    exact Option.isSome_iff_exists.mpr ⟨iob, hout⟩
  · rw [h.closesPosted]
    cases st <;> simp [Stage.closes]
  · have hst : st = .closing := by
      rw [h.readyList] at hc
      cases st <;> simp_all [Stage.readyList]
    subst hst
    exact ⟨h.closesPosted, step_closing h⟩
  · have hst : st = .freed := by
      rw [h.life] at hf
      cases st <;> simp_all [Stage.life]
    subst hst
    refine ⟨h.readyList, fun a => step_of_ignores h ?_⟩
    cases a <;> trivial

/-- A state some run of a connection reaches. -/
def Reachable (w : World L) : Prop :=
  ∃ heap memory as, Machine.run step (init L heap memory) as = .ok w

theorem Reachable.sound {w : World L} (h : w.Reachable) : w.Sound := by
  obtain ⟨heap, memory, as, hr⟩ := h
  exact Machine.run_invariant sound_step (sound_init L heap memory) hr

/-- The ready list never reports full: with at most one functor for each of at most
`RTOR_FDTABLE_MAX` registered descriptors, connections and others, it takes another one. -/
theorem readyList_never_full {conns : List (World L)} (hconns : ∀ w ∈ conns, w.Reachable)
    {others : ℕ} (hfds : conns.length + others ≤ rtorFdtableMax) {Functor : Type}
    {lst : FunctorList Functor} (hv : lst.Valid) (hcap : lst.capacity = rtorReadyListMax)
    (hsize : lst.size ≤ (conns.map fun w => w.readyList.length).sum + others)
    (func : Functor) : ∃ lst', lst.add func = .ok lst' := by
  -- one functor a connection, and the ring is twice as large as the table
  have hsum : (conns.map fun w => w.readyList.length).sum ≤ conns.length := by
    have hone : ∀ n ∈ conns.map fun w => w.readyList.length, n ≤ 1 := by
      intro n hn
      obtain ⟨w, hw, rfl⟩ := List.mem_map.mp hn
      exact (hconns w hw).sound.stateInvariant.oneFunctor
    simpa using List.sum_le_card_nsmul _ 1 hone
  have hroom : lst.size + 1 < lst.capacity := by
    rw [hcap]
    have hdouble : rtorFdtableMax + 1 < rtorReadyListMax := by decide
    omega
  obtain ⟨lst', hadd, -⟩ := FunctorList.add_spec hv func hroom
  exact ⟨lst', hadd⟩

/-- A run stops early only in a library function. -/
theorem library_of_run_error {heap : Heap} {memory : ByteMemory} {as : List Act} {e : Fault}
    (he : Machine.run step (init L heap memory) as = .error e) : ∃ abort, e = .library abort := by
  by_contra hne
  exact Machine.run_error (E := fun e => ¬ ∃ abort, e = .library abort) sound_step
    (fun w a e' hw he' hE => hE (library_of_step_error hw he')) (sound_init L heap memory) he hne

/-- **The connection's invariant.** Whatever the interleaving of events, system call results,
functors and answers, every state reached has the joint invariant, and the run stops early only at
an assertion of a library function: no assertion on the connection's state fails and nothing runs
after the connection was freed. And while every connection of a reactor is in such a state, the
ready list does not report full. -/
theorem connection_invariant (L : Llhttp) :
    (∀ heap memory as, Machine.Always step StateInvariant (init L heap memory) as) ∧
      (∀ heap memory as e, Machine.run step (init L heap memory) as = .error e →
        ∃ abort, e = .library abort) ∧
      ∀ (conns : List (World L)) (others : ℕ), (∀ w ∈ conns, w.Reachable) →
        conns.length + others ≤ rtorFdtableMax → ∀ (lst : FunctorList Postable), lst.Valid →
        lst.capacity = rtorReadyListMax →
        lst.size ≤ (conns.map fun w => w.readyList.length).sum + others →
        ∀ func, ∃ lst', lst.add func = .ok lst' := by
  refine ⟨fun heap memory as => ?_, fun heap memory as e he => ?_, ?_⟩
  · have hsound : Machine.Always step Sound (init L heap memory) as :=
      Machine.always_invariant sound_step (sound_init L heap memory)
    exact hsound.mono fun w hw => hw.stateInvariant
  · exact library_of_run_error he
  · intro conns others hconns hfds lst hv hcap hsize func
    exact readyList_never_full hconns hfds hv hcap hsize func

end World

end CHttp
