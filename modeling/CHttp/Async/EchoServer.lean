import CHttp.Async.ProcessRequest
import CHttp.Async.Wire

/-!
# The asynchronous server with its example application

The connection of `World` when the application is `process_request` of `async_process_request.c`,
which answers every request at once. Then the conversation is determined by the requests: for each
of them, in order, the socket is sent the one response that belongs to it, byte by byte
(`wire_echoes`).
-/

namespace CHttp

namespace World

variable {L : Llhttp} {heap : Heap} {memory : ByteMemory}

/-- What can happen next; `process_request` makes its response from the memory that `Message_new`
gets and what it is told for the page. -/
inductive ServerAct
  | accept (io : Io)
  | event (mask : UInt64)
  | run (io : Io) (junk : Message.Junk) (info : Message.PageInfo)

/-- The request that the reactor's oldest functor will give to `process_request`. -/
def handsOver (w : World L) : Option Message :=
  match w.life, w.readyList with
  | .open, .postableHandleRequest :: _ => w.cref.scratchRequest
  | _, _ => none

/-- One step with `process_request` as the application. -/
def serverStep (w : World L) : ServerAct → Except Fault (World L)
  | .accept io => w.step (.accept io)
  | .event mask => w.step (.event mask)
  | .run io junk info =>
    match w.handsOver with
    | none => w.step (.run io)
    | some request => do
      let reply ← library (Message.processRequest junk w.memory info request)
      w.step (.run { io with reply, atOnce := true })

/-- A response to a request is one that `process_request` makes for it. -/
def Processed (request response : Message) : Prop :=
  ∃ junk memory info reply, Message.processRequest junk memory info request = .ok reply ∧
    response = markConnection request reply

/-- No request is kept for later: each one that was handed over has its response. -/
structure Processes (w : World L) : Prop where
  pending : w.pending = none
  responses : List.Forall₂ Processed w.handed (w.answers.reverse.map Answer.response)

theorem Processes.of_eq {w w' : World L} (h : w.Processes) (hp : w'.pending = w.pending)
    (hh : w'.handed = w.handed)
    (hr : w'.answers.map Answer.response = w.answers.map Answer.response) : w'.Processes := by
  refine ⟨hp.trans h.pending, ?_⟩
  rw [hh, List.map_reverse, hr, ← List.map_reverse]
  exact h.responses

private theorem ReadOutcome.processes {w w' : World L} {io : Io} {st : Stage} (h : w.Processes)
    (ho : ReadOutcome w io st w') : w'.Processes := by
  cases ho <;> exact h.of_eq rfl rfl rfl

private theorem WriteOutcome.processes {w w' : World L} {io : Io} {s : List UInt8} {st : Stage}
    (h : w.Processes) (ho : WriteOutcome { w with readyList := [] } io s st w') :
    w'.Processes := by
  have hnote : ∀ f : Answer → Answer, (∀ a, (f a).response = a.response) → ∀ u : World L,
      u.pending = w.pending → u.handed = w.handed → u.answers = (w.noteAnswer f).answers →
      u.Processes := by
    intro f hresp u hp hh hu
    exact h.of_eq hp hh (hu ▸ w.map_answers_noteAnswer hresp)
  cases ho with
  | done hsend hs hn =>
    exact hnote (fun a => { a with accepted := a.accepted ++ s }) (fun _ => rfl) _ rfl rfl rfl
  | @part n iob hsend hpos hn hiob =>
    exact hnote (fun a => { a with accepted := a.accepted ++ s.take n }) (fun _ => rfl) _ rfl rfl
      rfl
  | again hsend => exact h.of_eq rfl rfl rfl
  | broken hsend => exact hnote (fun a => { a with failed := true }) (fun _ => rfl) _ rfl rfl rfl

/-- In the stage in which a request is handed over, it is the one in the slot. -/
theorem Coherent.handsOver {w : World L} (h : Coherent .handing w) :
    w.handsOver = w.cref.scratchRequest := by
  have hlife : w.life = .open := h.life
  have hready : w.readyList = [.postableHandleRequest] := h.readyList
  simp only [World.handsOver, hlife, hready]

/-- **Moves keep requests and responses together**, when the application is `process_request`. -/
theorem Move.processes {w w' : World L} {st st' : Stage} {act : Act} (hst : Coherent st w)
    (h : w.Processes) (hm : Move w st act st' w')
    (happ : ∀ io request, act = .run io → w.handsOver = some request → io.atOnce = true ∧
      ∃ junk memory info, Message.processRequest junk memory info request = .ok io.reply) :
    w'.Processes := by
  cases hm with
  | stay _ => exact h
  | accept ho => exact ho.processes (w := w.opened) (h.of_eq rfl rfl rfl)
  | epollin _ => exact h.of_eq rfl rfl rfl
  | epollout _ => exact h.of_eq rfl rfl rfl
  | read ho => exact ho.processes (w := w.resumed) (h.of_eq rfl rfl rfl)
  | @keep io tmp hscratch hlater =>
    obtain ⟨honce, -⟩ := happ io tmp rfl (hst.handsOver.trans hscratch)
    cases honce.symm.trans hlater
  | @reply io tmp iob hscratch _ hser =>
    obtain ⟨-, junk, memory, info, hproc⟩ := happ io tmp rfl (hst.handsOver.trans hscratch)
    refine ⟨h.pending, ?_⟩
    have hnew : Processed tmp (markConnection tmp io.reply) := ⟨junk, memory, info, _, hproc, rfl⟩
    have happend := List.rel_append h.responses (.cons hnew .nil)
    simpa [World.answered, taken] using happend
  | appPost => exact h.of_eq rfl rfl rfl
  | lateReply hpending hser => cases h.pending.symm.trans hpending
  | write hout hiob hs ho => exact ho.processes h
  | complete ho =>
    have hcompleted : w.completed.Processes :=
      h.of_eq rfl rfl (w.map_answers_noteAnswer fun _ => rfl)
    exact ho.processes hcompleted
  | close => exact h.of_eq rfl rfl rfl

/-- A step of the server is a step of the connection with an application that does what
`process_request` does. -/
theorem step_of_serverStep {w w' : World L} {a : ServerAct} (hs : w.serverStep a = .ok w') :
    ∃ act, w.step act = .ok w' ∧
      ∀ io request, act = .run io → w.handsOver = some request → io.atOnce = true ∧
        ∃ junk memory info, Message.processRequest junk memory info request = .ok io.reply := by
  cases a with
  | accept io => exact ⟨.accept io, hs, fun _ _ h => by cases h⟩
  | event mask => exact ⟨.event mask, hs, fun _ _ h => by cases h⟩
  | run io junk info =>
    simp only [serverStep] at hs
    cases hhands : w.handsOver with
    | none =>
      rw [hhands] at hs
      exact ⟨.run io, hs, fun _ _ _ h => by cases h⟩
    | some request =>
      rw [hhands] at hs
      simp only [Except.bind_eq_ok, library_eq_ok] at hs
      obtain ⟨reply, hproc, hstep⟩ := hs
      refine ⟨_, hstep, fun io' request' hio hrequest => ?_⟩
      cases hio
      cases hrequest
      exact ⟨rfl, junk, w.memory, info, hproc⟩

/-- A step aborts in a library function only, be it called by the connection or the application. -/
theorem library_of_serverStep_error {w : World L} {a : ServerAct} {e : Fault} (h : w.Sound)
    (hs : w.serverStep a = .error e) : ∃ abort, e = .library abort := by
  cases a with
  | accept io => exact library_of_step_error (a := .accept io) h hs
  | event mask => exact library_of_step_error (a := .event mask) h hs
  | run io junk info =>
    simp only [serverStep] at hs
    cases hhands : w.handsOver with
    | none =>
      rw [hhands] at hs
      exact library_of_step_error h hs
    | some request =>
      rw [hhands] at hs
      simp only at hs
      cases hproc : Message.processRequest junk w.memory info request with
      | error abort =>
        rw [hproc] at hs
        cases hs
        exact ⟨abort, rfl⟩
      | ok reply =>
        rw [hproc, library_ok, Except.ok_bind] at hs
        exact library_of_step_error h hs

/-! ### The bytes -/

/-- The bytes of the responses, from their bodies. -/
theorem exists_bodies {requests : List Message} {as : List Answer} {bufs : List IOBuffer}
    (hp : List.Forall₂ Processed requests (as.map Answer.response))
    (hs : Serialised memory as bufs) :
    ∃ bodies, List.Forall₂ Message.AnswerBody requests bodies ∧
      bufs.flatMap IOBuffer.data = (List.zipWith Message.answerBytes requests bodies).flatten := by
  induction hs generalizing requests with
  | nil =>
    cases hp
    exact ⟨[], .nil, rfl⟩
  | @cons a iob as bufs hser _ ih =>
    cases hp with
    | @cons request _ requests _ hproc hrest =>
      obtain ⟨bodies, hbodies, heq⟩ := ih hrest
      obtain ⟨junk, memory', info, reply, hreply, hresp⟩ := hproc
      simp only [Message.processRequest, Except.bind_eq_ok] at hreply
      obtain ⟨_, _, reply', happ, _, _, _, _, _, _, heq'⟩ := hreply
      cases heq'
      obtain ⟨body, hbody, hbytes⟩ := Message.bytes_of_appHandlerExample happ
      obtain ⟨iob', hser', hdata⟩ := hbytes memory
      rw [hresp] at hser
      cases hser.symm.trans hser'
      exact ⟨body :: bodies, .cons hbody hbodies, by simp [heq, hdata]⟩

/-- The requests handed over are some of those completed, in order, and the socket has accepted the
responses that belong to them, the last perhaps in part; all of them when the connection waits for
input. -/
structure Echoes (heap : Heap) (memory : ByteMemory) (w : World L) : Prop where
  requests : ∃ ds, HttpParser.delivered heap memory (L.reports L.init w.received).2 = .ok ds ∧
    w.handed.Sublist ds
  bytes : ∃ bodies, List.Forall₂ Message.AnswerBody w.handed bodies ∧
    w.wire <+: (List.zipWith Message.answerBytes w.handed bodies).flatten ∧
    (w.cref.readState = .eagained →
      w.wire = (List.zipWith Message.answerBytes w.handed bodies).flatten)

/-- What is kept along a run. -/
def KeptByServer (heap : Heap) (memory : ByteMemory) (w : World L) : Prop :=
  (∃ replies, Kept heap memory replies w) ∧ w.Processes

theorem KeptByServer.echoes {w : World L} (h : w.KeptByServer heap memory) :
    w.Echoes heap memory := by
  obtain ⟨⟨replies, hkept⟩, hproc⟩ := h
  refine ⟨hkept.conversation.requests, ?_⟩
  obtain ⟨st, hst, hl, -⟩ := hkept
  obtain ⟨bufs, hser, hpre, hall⟩ := hl.on_wire
  obtain ⟨bodies, hbodies, heq⟩ := exists_bodies hproc.responses hser
  refine ⟨bodies, hbodies, heq ▸ hpre, fun hwaits => ?_⟩
  rw [hst.readState] at hwaits
  rw [← heq]
  refine hall ?_ ?_
  · cases st <;> first | rfl | cases hwaits
  · cases st <;> first | rfl | cases hwaits

theorem keptByServer_step (w : World L) (a : ServerAct) (w' : World L)
    (h : w.KeptByServer heap memory) (hs : w.serverStep a = .ok w') :
    w'.KeptByServer heap memory := by
  obtain ⟨act, hstep, happ⟩ := step_of_serverStep hs
  obtain ⟨⟨replies, hkept⟩, hproc⟩ := h
  have hkept' := kept_step replies w act w' hkept hstep
  obtain ⟨st, hst, -⟩ := hkept
  obtain ⟨st', hm⟩ := move_of_step hst hstep
  exact ⟨⟨_, hkept'⟩, hm.processes hst hproc happ⟩

/-- **The echo server.** In every state of every run of a connection whose application is
`process_request`, the socket has accepted what belongs to the requests handed over, and nothing
else; and a run ends early only at an assertion of a library function. -/
theorem wire_echoes (L : Llhttp) (heap : Heap) (memory : ByteMemory) (as : List ServerAct) :
    Machine.Always serverStep (Echoes heap memory) (init L heap memory) as ∧
      ∀ e, Machine.run serverStep (init L heap memory) as = .error e →
        ∃ abort, e = .library abort := by
  have hinit : (init L heap memory).KeptByServer heap memory :=
    ⟨⟨[], kept_init L heap memory⟩, rfl, .nil⟩
  refine ⟨(Machine.always_invariant keptByServer_step hinit).mono fun _ h => h.echoes, ?_⟩
  intro e he
  by_contra hne
  refine Machine.run_error (E := fun e => ¬ ∃ abort, e = Fault.library abort) keptByServer_step
    (fun w a e' h he' hE => hE ?_) hinit he hne
  obtain ⟨⟨_, st, hst, -⟩, -⟩ := h
  exact library_of_serverStep_error ⟨st, hst⟩ he'

end World

end CHttp
