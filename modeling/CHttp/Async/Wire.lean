import CHttp.Async.Pipelining
import CHttp.Async.Write
import Mathlib.Data.List.Forall2

/-!
# The conversation on a connection

The whole of a connection's traffic at once. The requests handed to the application are some of
those that the parser completes, in order and each at most once; the responses answer them one by
one, in the order in which they were handed over; and the bytes that the socket has accepted are the
serialised responses one after another, of which only the newest can be incomplete. The next request
is handed over only when all of them were accepted.
-/

namespace CHttp

namespace World

variable {L : Llhttp} {heap : Heap} {memory : ByteMemory}

/-- The bytes that the socket has accepted, in order. -/
def wire (w : World L) : List UInt8 := w.answers.reverse.flatMap Answer.accepted

/-! ### Requests and their responses -/

/-- The reply that the application gives in an action: at once, when a request is handed to it, or
in its own functor. -/
def replyGiven (w : World L) : Act → Option Message
  | .run io =>
    match w.readyList with
    | .postableHandleRequest :: _ => if io.atOnce then some io.reply else none
    | .appFunctor :: _ => w.pending.map fun _ => io.reply
    | _ => none
  | _ => none

/-- The replies that the application gives in a run, in order. -/
def repliesGiven : World L → List Act → List Message :=
  Machine.outputs step fun w a => (w.replyGiven a).toList

/-- The replies answer the requests handed over one by one; the application may still work on the
last of these. The responses, oldest first, are the replies, each marked as its request asks. -/
def Paired (replies : List Message) (w : World L) : Prop :=
  ∃ answered, w.handed = answered ++ w.pending.toList ∧ replies.length = answered.length ∧
    w.answers.reverse.map Answer.response = List.zipWith markConnection answered replies ∧
    w.answers.reverse.map Answer.closes = answered.map fun request => !keepAlive request

/-- What a change of the newest response leaves alone. -/
theorem map_answers_noteAnswer {β : Type} (w : World L) {f : Answer → Answer} {g : Answer → β}
    (h : ∀ a, g (f a) = g a) : (w.noteAnswer f).answers.map g = w.answers.map g := by
  cases ha : w.answers with
  | nil => simp [noteAnswer, ha]
  | cons a as => simp [noteAnswer, ha, h]

variable {replies : List Message}

/-- The parts of a state that pairing is about. -/
theorem Paired.of_eq {w w' : World L} (h : w.Paired replies) (hh : w'.handed = w.handed)
    (hp : w'.pending = w.pending)
    (hr : w'.answers.map Answer.response = w.answers.map Answer.response)
    (hc : w'.answers.map Answer.closes = w.answers.map Answer.closes) : w'.Paired replies := by
  obtain ⟨answered, hhanded, hlen, hresp, hcl⟩ := h
  refine ⟨answered, by rw [hh, hp, hhanded], hlen, ?_, ?_⟩
  · rw [List.map_reverse, hr, ← List.map_reverse, hresp]
  · rw [List.map_reverse, hc, ← List.map_reverse, hcl]

private theorem ReadOutcome.paired {w w' : World L} {io : Io} {st : Stage} (h : w.Paired replies)
    (ho : ReadOutcome w io st w') : w'.Paired replies := by
  cases ho <;> exact h.of_eq rfl rfl rfl rfl

private theorem WriteOutcome.paired {w w' : World L} {io : Io} {s : List UInt8} {st : Stage}
    (h : w.Paired replies) (ho : WriteOutcome { w with readyList := [] } io s st w') :
    w'.Paired replies := by
  have hnote : ∀ f : Answer → Answer, (∀ a, (f a).response = a.response) →
      (∀ a, (f a).closes = a.closes) → ∀ u : World L, u.answers = (w.noteAnswer f).answers →
      u.handed = w.handed → u.pending = w.pending → u.Paired replies := by
    intro f hresp hcl u hu hh hp
    exact h.of_eq hh hp (hu ▸ w.map_answers_noteAnswer hresp) (hu ▸ w.map_answers_noteAnswer hcl)
  cases ho with
  | done hsend hs hn =>
    exact hnote (fun a => { a with accepted := a.accepted ++ s }) (fun _ => rfl) (fun _ => rfl) _
      rfl rfl rfl
  | @part n iob hsend hpos hn hiob =>
    exact hnote (fun a => { a with accepted := a.accepted ++ s.take n }) (fun _ => rfl)
      (fun _ => rfl) _ rfl rfl rfl
  | again hsend => exact h.of_eq rfl rfl rfl rfl
  | broken hsend =>
    exact hnote (fun a => { a with failed := true }) (fun _ => rfl) (fun _ => rfl) _ rfl rfl rfl

/-- A response to the request that the application worked on. -/
theorem paired_answered {w : World L} {answered : List Message} {request reply : Message}
    {iob : IOBuffer} (hh : w.handed = answered ++ [request]) (hp : w.pending = none)
    (hlen : replies.length = answered.length)
    (hresp : w.answers.reverse.map Answer.response = List.zipWith markConnection answered replies)
    (hcl : w.answers.reverse.map Answer.closes = answered.map fun request => !keepAlive request) :
    (w.answered request reply iob).Paired (replies ++ [reply]) := by
  refine ⟨answered ++ [request], ?_, ?_, ?_, ?_⟩
  · simp [World.answered, hh, hp]
  · simp [hlen]
  · simp only [World.answered, List.reverse_cons, List.map_append, hresp]
    rw [List.zipWith_append hlen.symm]
    rfl
  · simp only [World.answered, List.reverse_cons, List.map_append, hcl]
    rfl

/-- The stages in which the application is not called. -/
theorem Coherent.replyGiven_run {w : World L} {st : Stage} (h : Coherent st w) (io : Io)
    (hhands : st.hands = false) (hkeeps : st.keeps = false) : w.replyGiven (.run io) = none := by
  simp only [replyGiven, h.readyList]
  cases st with
  | handing => cases hhands
  | answering | posted => cases hkeeps
  | _ => rfl

/-- What a stage ignores makes no reply. -/
theorem Coherent.replyGiven_of_ignores {w : World L} {st : Stage} {a : Act} (h : Coherent st w)
    (ha : st.Ignores a) : w.replyGiven a = none := by
  cases a with
  | run io =>
    have hempty : st.readyList = [] := by cases st <;> exact ha
    simp only [replyGiven, h.readyList, hempty]
  | _ => rfl

/-- **Moves keep requests and responses paired.** -/
theorem Move.paired {w w' : World L} {st st' : Stage} {act : Act} (hst : Coherent st w)
    (h : w.Paired replies) (hm : Move w st act st' w') :
    w'.Paired (replies ++ (w.replyGiven act).toList) := by
  have hnone : w.replyGiven act = none → w'.Paired replies →
      w'.Paired (replies ++ (w.replyGiven act).toList) := by
    intro hreply hp
    rwa [hreply, Option.toList_none, List.append_nil]
  cases hm with
  | stay hi => exact hnone (hst.replyGiven_of_ignores hi) h
  | accept ho => exact hnone rfl (ho.paired (w := w.opened) (h.of_eq rfl rfl rfl rfl))
  | epollin _ => exact hnone rfl (h.of_eq rfl rfl rfl rfl)
  | epollout _ => exact hnone rfl (h.of_eq rfl rfl rfl rfl)
  | read ho =>
    exact hnone (hst.replyGiven_run _ rfl rfl)
      (ho.paired (w := w.resumed) (h.of_eq rfl rfl rfl rfl))
  | @keep io tmp hscratch hlater =>
    obtain ⟨answered, hh, hlen, hresp, hcl⟩ := h
    rw [hst.pending_none rfl, Option.toList_none, List.append_nil] at hh
    have hreply : w.replyGiven (.run io) = none := by
      simp [replyGiven, hst.readyList, Stage.readyList, hlater]
    exact hnone hreply ⟨answered, by simp [taken, hh], hlen, hresp, hcl⟩
  | @reply io tmp iob hscratch honce hser =>
    obtain ⟨answered, hh, hlen, hresp, hcl⟩ := h
    rw [hst.pending_none rfl, Option.toList_none, List.append_nil] at hh
    have hreply : w.replyGiven (.run io) = some io.reply := by
      simp [replyGiven, hst.readyList, Stage.readyList, honce]
    rw [hreply]
    exact paired_answered (by simp [taken, hh]) (hst.pending_none rfl) hlen hresp hcl
  | appPost => exact hnone rfl (h.of_eq rfl rfl rfl rfl)
  | @lateReply io request iob hpending hser =>
    obtain ⟨answered, hh, hlen, hresp, hcl⟩ := h
    rw [hpending] at hh
    have hreply : w.replyGiven (.run io) = some io.reply := by
      simp [replyGiven, hst.readyList, Stage.readyList, hpending]
    rw [hreply]
    exact paired_answered hh rfl hlen hresp hcl
  | write hout hiob hs ho => exact hnone (hst.replyGiven_run _ rfl rfl) (ho.paired h)
  | complete ho =>
    refine hnone (hst.replyGiven_run _ rfl rfl) (ho.paired ?_)
    exact h.of_eq rfl rfl (w.map_answers_noteAnswer fun _ => rfl)
      (w.map_answers_noteAnswer fun _ => rfl)
  | close => exact hnone (hst.replyGiven_run _ rfl rfl) (h.of_eq rfl rfl rfl rfl)

/-! ### Requests and the stream -/

/-- The requests handed over are some of those completed, in order. -/
def Selected (heap : Heap) (memory : ByteMemory) (w : World L) : Prop :=
  ∃ ds, Follows heap memory ds w ∧ (w.handed ++ w.cref.scratchRequest.toList).Sublist ds

private theorem Move.selected {w w' : World L} {st st' : Stage} {a : Act} (hst : Coherent st w)
    (h : Selected heap memory w) (hm : Move w st a st' w') : Selected heap memory w' := by
  obtain ⟨ds, hf, hsub⟩ := h
  obtain ⟨v, io, -, hv, hu, ho⟩ | ⟨-, hu⟩ := hm.read_cases hst
  · -- a read completes some messages and keeps the last of them
    obtain ⟨ms, hf', hhanded, hscratch, -⟩ := ho.follows (hu.follows hf) hv.scratch
    have hv' : v.handed = w.handed ++ w.cref.scratchRequest.toList := by
      simpa [hv.scratch] using hu.handed
    refine ⟨ds ++ ms, hf', ?_⟩
    rw [hhanded, hscratch, hv']
    exact hsub.append ms.toList_getLast?_sublist
  · exact ⟨ds, hu.follows hf, by rw [hu.handed]; exact hsub⟩

/-! ### Responses and the wire -/

/-- The buffers that the responses are serialised to. -/
def Serialised (memory : ByteMemory) (as : List Answer) (bufs : List IOBuffer) : Prop :=
  List.Forall₂ (fun a iob => a.response.serialize memory = .ok iob) as bufs

private theorem exists_serialised {as : List Answer} (h : ∀ a ∈ as, a.Stands memory [] 1 false) :
    ∃ bufs, Serialised memory as bufs ∧
      as.flatMap Answer.accepted = bufs.flatMap IOBuffer.data := by
  induction as with
  | nil => exact ⟨[], .nil, rfl⟩
  | cons a as ih =>
    obtain ⟨ha, has⟩ := List.forall_mem_cons.mp h
    obtain ⟨bufs, hser, heq⟩ := ih has
    obtain ⟨iob, hiob, hdata⟩ := ha.bytes
    refine ⟨iob :: bufs, .cons hiob hser, ?_⟩
    rw [List.flatMap_cons, List.flatMap_cons, heq, hdata, List.append_nil]

/-- The older responses were accepted whole, and the newest up to `rest`. -/
theorem exists_serialised_cons {w : World L} {a : Answer} {older : List Answer} {rest : List UInt8}
    {n : ℕ} {failed : Bool} (ha : w.answers = a :: older) (h : a.Stands w.memory rest n failed)
    (hold : w.Settled older) :
    ∃ bufs, Serialised w.memory w.answers.reverse bufs ∧
      w.wire ++ rest = bufs.flatMap IOBuffer.data := by
  have hall : ∀ b ∈ older.reverse, b.Stands w.memory [] 1 false := fun b hb =>
    hold b (List.mem_reverse.mp hb)
  obtain ⟨bufs, hser, heq⟩ := exists_serialised hall
  obtain ⟨iob, hiob, hdata⟩ := h.bytes
  refine ⟨bufs ++ [iob], ?_, ?_⟩
  · rw [ha, List.reverse_cons]
    exact List.rel_append hser (.cons hiob .nil)
  · simp only [wire, ha, List.reverse_cons, List.flatMap_append, heq, List.flatMap_cons,
      List.flatMap_nil, List.append_nil, hdata, List.append_assoc]

/-- What is on the wire, from the ledger. -/
theorem Ledger.on_wire {w : World L} {st : Stage} (h : Ledger w st) :
    ∃ bufs, Serialised w.memory w.answers.reverse bufs ∧
      w.wire <+: bufs.flatMap IOBuffer.data ∧
      (st.responds = false → st.closes = 0 → w.wire = bufs.flatMap IOBuffer.data) := by
  cases h with
  | settled _ hold =>
    have hall : ∀ b ∈ w.answers.reverse, b.Stands w.memory [] 1 false := fun b hb =>
      hold b (List.mem_reverse.mp hb)
    obtain ⟨bufs, hser, heq⟩ := exists_serialised hall
    exact ⟨bufs, hser, heq ▸ List.prefix_rfl, fun _ _ => heq⟩
  | @sending _ a older iob hw hout ha hstands hold =>
    obtain ⟨bufs, hser, heq⟩ := exists_serialised_cons ha hstands hold
    refine ⟨bufs, hser, ⟨_, heq⟩, fun hresp => ?_⟩
    cases st <;> simp_all [Stage.responds, Stage.writes]
  | sent ha hstands hold =>
    obtain ⟨bufs, hser, heq⟩ := exists_serialised_cons ha hstands hold
    exact ⟨bufs, hser, ⟨_, heq⟩, fun hresp => by cases hresp⟩
  | failed hend ha _ hstands hold =>
    obtain ⟨bufs, hser, heq⟩ := exists_serialised_cons ha hstands hold
    refine ⟨bufs, hser, ⟨_, heq⟩, fun _ hcl => ?_⟩
    rcases hend with rfl | rfl <;> cases hcl

private theorem wire_of_eq {w w' : World L}
    (h : w'.answers.map Answer.accepted = w.answers.map Answer.accepted) : w'.wire = w.wire := by
  simp only [wire, List.flatMap_def, List.map_reverse, h]

/-- The newest response got `sent` more of its bytes to the socket. -/
theorem wire_noteAnswer {w w' : World L} {a : Answer} {older : List Answer}
    (ha : w.answers = a :: older) (sent : List UInt8)
    (h : w'.answers = { a with accepted := a.accepted ++ sent } :: older) :
    w'.wire = w.wire ++ sent := by
  simp only [wire, ha, h, List.reverse_cons, List.flatMap_append, List.flatMap_cons,
    List.flatMap_nil, List.append_nil, List.append_assoc]

/-- **The wire grows at its end only**, by what a `send` took. -/
theorem Move.wire_prefix {w w' : World L} {st st' : Stage} {act : Act} (hl : Ledger w st)
    (hm : Move w st act st' w') : w.wire <+: w'.wire := by
  have hsame : ∀ {u : World L}, u.answers.map Answer.accepted = w.answers.map Answer.accepted →
      w.wire <+: u.wire := fun h => wire_of_eq h ▸ List.prefix_rfl
  have hnew : ∀ {u : World L} {a : Answer}, a.accepted = [] → u.answers = a :: w.answers →
      w.wire <+: u.wire := by
    intro u a ha hu
    simp only [wire, hu, List.reverse_cons, List.flatMap_append]
    exact List.prefix_append _ _
  cases hm with
  | stay _ => exact List.prefix_rfl
  | accept ho => exact hsame (congrArg _ ho.answers_eq)
  | epollin _ => exact List.prefix_rfl
  | epollout _ => exact List.prefix_rfl
  | read ho => exact hsame (congrArg _ ho.answers_eq)
  | keep _ _ => exact List.prefix_rfl
  | reply _ _ _ => exact hnew rfl rfl
  | appPost => exact List.prefix_rfl
  | lateReply _ _ => exact hnew rfl rfl
  | complete ho =>
    refine hsame ?_
    rw [ho.answers_eq]
    exact w.map_answers_noteAnswer fun _ => rfl
  | close => exact List.prefix_rfl
  | @write io iob s _ _ hout hiob hs ho =>
    cases hl with
    | settled hst _ => cases hst
    | failed hst _ _ _ _ => simp at hst
    | @sending _ a older iob' _ _ ha _ _ =>
      cases ho with
      | done hsend hs hn =>
        refine ⟨s, (wire_noteAnswer ha s ?_).symm⟩
        simp only [post, noteAnswer, ha]
      | @part n _ hsend hpos hn hiob' =>
        refine ⟨s.take n, (wire_noteAnswer ha (s.take n) ?_).symm⟩
        simp only [post, noteAnswer, ha]
      | again hsend => exact List.prefix_rfl
      | broken hsend => exact hsame (w.map_answers_noteAnswer fun _ => rfl)

/-! ### The conversation -/

/-- The traffic of a connection, from its parser, its memory and the replies of the application. -/
structure Conversation (heap : Heap) (memory : ByteMemory) (replies : List Message)
    (w : World L) : Prop where
  requests : ∃ ds, HttpParser.delivered heap memory (L.reports L.init w.received).2 = .ok ds ∧
    w.handed.Sublist ds
  responses : w.Paired replies
  bytes : ∃ bufs, Serialised w.memory w.answers.reverse bufs ∧
    w.wire <+: bufs.flatMap IOBuffer.data ∧
    (w.pending.isSome = true → w.wire = bufs.flatMap IOBuffer.data)

/-- What is kept along a run, with the replies given so far. -/
def Kept (heap : Heap) (memory : ByteMemory) (replies : List Message) (w : World L) : Prop :=
  ∃ st, Coherent st w ∧ Ledger w st ∧ w.Paired replies ∧ Selected heap memory w

theorem Kept.conversation {w : World L} (h : w.Kept heap memory replies) :
    w.Conversation heap memory replies := by
  obtain ⟨st, hst, hl, hp, ds, hf, hsub⟩ := h
  obtain ⟨bufs, hser, hpre, hall⟩ := hl.on_wire
  refine ⟨⟨ds, ?_, ?_⟩, hp, bufs, hser, hpre, fun hpending => ?_⟩
  · rw [HttpParser.delivered, hf.parser]
    rfl
  · exact (List.sublist_append_left _ _).trans hsub
  · rw [hst.pending] at hpending
    refine hall ?_ ?_
    · cases st <;> simp_all [Stage.keeps, Stage.responds]
    · cases st <;> simp_all [Stage.keeps, Stage.closes]

theorem kept_init (L : Llhttp) (heap : Heap) (memory : ByteMemory) :
    (init L heap memory).Kept heap memory [] :=
  ⟨.embryo, init_coherent L heap memory, .settled rfl (List.forall_mem_nil _),
    ⟨[], rfl, rfl, rfl, rfl⟩, [], follows_init L heap memory, List.Sublist.slnil⟩

theorem kept_step (replies : List Message) (w : World L) (a : Act) (w' : World L)
    (h : w.Kept heap memory replies) (hs : w.step a = .ok w') :
    w'.Kept heap memory (replies ++ (w.replyGiven a).toList) := by
  obtain ⟨st, hst, hl, hp, hsel⟩ := h
  obtain ⟨st', hm⟩ := move_of_step hst hs
  exact ⟨st', hm.coherent hst, hm.ledger hl, hm.paired hst hp, hm.selected hst hsel⟩

private theorem kept_run {L : Llhttp} {as : List Act} {w : World L}
    (hr : Machine.run step (init L heap memory) as = .ok w) :
    w.Kept heap memory (repliesGiven (init L heap memory) as) :=
  Machine.run_outputs kept_step (kept_init L heap memory) hr

/-- **The conversation.** In every state of every run: the requests handed over are some of those
that the parser completes, in order; the replies that the application gave answer them one by one,
in order, and the responses are these replies, marked; and the bytes accepted by the socket are the
serialised responses one after another, complete whenever a request is being worked on. A step adds
to these bytes only at their end. -/
theorem conversation_in_order (L : Llhttp) (heap : Heap) (memory : ByteMemory) (as : List Act)
    (w : World L) (hr : Machine.run step (init L heap memory) as = .ok w) :
    w.Conversation heap memory (repliesGiven (init L heap memory) as) ∧
      ∀ a w', w.step a = .ok w' → w.wire <+: w'.wire := by
  have hkept := kept_run hr
  refine ⟨hkept.conversation, fun a w' hs => ?_⟩
  obtain ⟨st, hst, hl, -⟩ := hkept
  obtain ⟨st', hm⟩ := move_of_step hst hs
  exact hm.wire_prefix hl

/-- Two requests: the application answers the first in its own functor, and the second at once. -/
def lateThenAtOnce : List Act :=
  let io (recv : RecvResult) (statusCode : ℕ) (atOnce : Bool) : Io :=
    ⟨0, recv, .accepted 1000, { Message.new .zeros with statusCode }, atOnce⟩
  [.accept (io (.got getRequest) 0 false), .run (io (.fail eagain) 0 false), .appPost,
    .run (io (.fail eagain) 200 false), .run (io (.fail eagain) 0 false),
    .run (io (.got getRequest) 0 false), .run (io (.fail eagain) 404 true),
    .run (io (.fail eagain) 0 false), .run (io (.fail eagain) 0 false)]

theorem conversation_in_order_two :
    let start := init (getRequests 2) (.const .zeros) fun _ => 0
    (repliesGiven start lateThenAtOnce).map Message.statusCode = [200, 404] ∧
      ∃ w, Machine.run step start lateThenAtOnce = .ok w ∧ w.handed.length = 2 ∧
        w.answers.length = 2 ∧
        w.Conversation (.const .zeros) (fun _ => 0) (repliesGiven start lateThenAtOnce) := by
  intro start
  refine ⟨by decide +kernel, ?_⟩
  have hlens : (Machine.run step start lateThenAtOnce).map
      (fun w => (w.handed.length, w.answers.length)) = .ok (2, 2) := by
    decide +kernel
  obtain ⟨w, hrun, hw⟩ := Except.map_eq_ok.mp hlens
  obtain ⟨hhanded, hanswers⟩ := Prod.mk.inj hw
  exact ⟨w, hrun, hhanded, hanswers, (conversation_in_order _ _ _ _ w hrun).1⟩

end World

end CHttp
