import CHttp.Async.Read
import CHttp.ForMathlib.List
import CHttp.Http.Fragmentation
import CHttp.Http.Stream

/-!
# Pipelined requests

A client may send requests one after another without waiting for the responses, and the stream may
be cut into `recv` results anywhere. The parser completes every message it finds in a buffer and
calls `async_on_read_message_complete` for each, but the connection has one slot for them:
`input_message_ptr`. When a buffer ends two requests, the first of them is overwritten and never
handed over.

What should be handed over is what the same parser gives to a handler that keeps every message,
`HttpParser.delivered`. `pipelined_handed` compares the two along a run.
-/

namespace CHttp

/-! ### What a handler is given -/

namespace HttpParser

variable {κ : Type} {f : κ → Message → κ} {k : κ} {ds : List Message}

/-- Two handlers of one parser: `s` has what `f` makes of the messages that `t` has after `ds`. -/
def Kept (f : κ → Message → κ) (k : κ) (ds : List Message) (s : HttpParser × κ)
    (t : HttpParser × List Message) : Prop :=
  s.1 = t.1 ∧ ∃ ms, t.2 = ds ++ ms ∧ s.2 = ms.foldl f k

/-- A callback that does not reach the handler. -/
theorem kept_bind {k' : κ} {ds' : List Message} (x : Except Abort HttpParser)
    (h : ∃ ms, ds' = ds ++ ms ∧ k' = ms.foldl f k) :
    Except.Rel (Kept f k ds) (do return (← x, k')) (do return (← x, ds')) := by
  cases x with
  | ok p => exact .ok ⟨rfl, h⟩
  | error e => exact .error e

private theorem callback_kept {s : HttpParser × κ} {t : HttpParser × List Message}
    (h : Kept f k ds s t) (ev : LlEvent) :
    Except.Rel (Kept f k ds) (callback f s ev) (callback collect t ev) := by
  obtain ⟨p, k'⟩ := s
  obtain ⟨p', ds'⟩ := t
  obtain ⟨rfl, hms⟩ := h
  cases ev with
  | messageBegin => exact .ok ⟨rfl, hms⟩
  | url data => exact kept_bind _ hms
  | status code data => exact kept_bind _ hms
  | headerField data => exact kept_bind _ hms
  | headerValue data => exact kept_bind _ hms
  | headersComplete major minor method => exact kept_bind _ hms
  | body data => exact kept_bind _ hms
  | messageComplete =>
    obtain ⟨ms, rfl, rfl⟩ := hms
    simp only [callback, messageCompleteCb]
    cases p.current "message_complete_cb" with
    | ok m => exact .ok ⟨rfl, ms ++ [m], by simp [collect], by simp⟩
    | error e => exact .error e

/-- Over every sequence of events, any handler makes its value of the messages completed. -/
theorem callbacks_kept {s : HttpParser × κ} {t : HttpParser × List Message}
    (h : Kept f k ds s t) (evs : List LlEvent) :
    Except.Rel (Kept f k ds) (callbacks f s evs) (callbacks collect t evs) := by
  induction evs generalizing s t with
  | nil => exact .ok h
  | cons ev evs ih =>
    simp only [callbacks, List.foldlM_cons]
    exact (callback_kept h ev).bind fun _ _ h' => ih h'

/-- Each `on_message_complete` delivers one message. -/
theorem length_of_callback {s s' : HttpParser × List Message} {ev : LlEvent}
    (h : callback collect s ev = .ok s') :
    s'.2.length = s.2.length + [ev].count .messageComplete := by
  cases ev with
  | messageBegin => cases h; rfl
  | messageComplete =>
    simp only [callback, messageCompleteCb, Except.bind_eq_ok] at h
    obtain ⟨m, -, ⟨⟩⟩ := h
    simp [collect]
  | _ =>
    simp only [callback, Except.bind_eq_ok] at h
    obtain ⟨p, -, ⟨⟩⟩ := h
    rfl

theorem length_of_callbacks {s s' : HttpParser × List Message} {evs : List LlEvent}
    (h : callbacks collect s evs = .ok s') :
    s'.2.length = s.2.length + evs.count .messageComplete := by
  induction evs generalizing s with
  | nil => cases h; rfl
  | cons ev evs ih =>
    simp only [callbacks, List.foldlM_cons, Except.bind_eq_ok] at h
    obtain ⟨t, ht, hs'⟩ := h
    have hcount : (ev :: evs).count .messageComplete =
        [ev].count .messageComplete + evs.count .messageComplete := by
      rw [← List.count_append, List.singleton_append]
    rw [ih hs', length_of_callback ht, hcount, Nat.add_assoc]

theorem length_of_delivered {heap : Heap} {memory : ByteMemory} {evs : List LlEvent}
    {ds : List Message} (h : delivered heap memory evs = .ok ds) :
    ds.length = evs.count .messageComplete := by
  simp only [delivered, Except.bind_eq_ok] at h
  obtain ⟨s, hs, heq⟩ := h
  cases heq
  simpa using length_of_callbacks hs

end HttpParser

/-! ### The connection -/

/-- The bytes that `recv` found. -/
def RecvResult.bytes : RecvResult → List UInt8
  | .got bs => bs
  | .fail _ => []

namespace World

variable {L : Llhttp}

/-- The bytes that stand at the socket when a step calls `recv`. -/
def arriving (w : World L) (a : Act) : List UInt8 :=
  match w.readerCall a with
  | some (_, io) => io.recv.bytes
  | none => []

/-- What arrives goes on with the stream of the requests. -/
def InStream (reqs : List (List UInt8)) (w : World L) (a : Act) : Prop :=
  w.received.flatten ++ w.arriving a <+: reqs.flatten

/-- The bytes that this `recv` returns end at most one request. -/
def EndsOne (reqs : List (List UInt8)) (w : World L) (a : Act) : Prop :=
  requestsWithin reqs (w.received.flatten ++ (w.arriving a).take readBufferSize).length ≤
    requestsWithin reqs w.received.flatten.length + 1

instance (reqs : List (List UInt8)) (w : World L) (a : Act) : Decidable (w.InStream reqs a) :=
  inferInstanceAs (Decidable (_ <+: _))

instance (reqs : List (List UInt8)) (w : World L) (a : Act) : Decidable (w.EndsOne reqs a) :=
  inferInstanceAs (Decidable (_ ≤ _))

/-- Every request whose last byte was received is handed over, once and in order: the messages
handed over, with the one whose hand-over is queued, are those which the parser completes for the
bytes received, and these are as many as the requests that ended. -/
structure AllHanded (heap : Heap) (memory : ByteMemory) (reqs : List (List UInt8)) (w : World L) :
    Prop where
  handed : ∃ ds, HttpParser.delivered heap memory (L.reports L.init w.received).2 = .ok ds ∧
    ds.length = requestsWithin reqs w.received.flatten.length ∧
    w.handed ++ w.cref.scratchRequest.toList = ds
  queued : w.cref.scratchRequest.isSome → w.readyList = [.postableHandleRequest]

/-- The parser of the connection stands where the chunks received lead it, and a handler that keeps
every message would have `ds`. -/
structure Follows (heap : Heap) (memory : ByteMemory) (ds : List Message) (w : World L) : Prop where
  chunks : ∀ c ∈ w.received, c ≠ []
  llhttp : (L.reports L.init w.received).1 = w.cref.llhttp
  parser : HttpParser.callbacks HttpParser.collect (HttpParser.new heap memory, [])
    (L.reports L.init w.received).2 = .ok (w.cref.parser, ds)

variable {heap : Heap} {memory : ByteMemory} {ds : List Message}

/-- The slot of the connection has the last message of a buffer. -/
theorem foldl_asyncOnReadMessageComplete (ms : List Message) :
    ms.foldl asyncOnReadMessageComplete none = ms.getLast? := by
  rcases ms.eq_nil_or_concat with rfl | ⟨ms', m, rfl⟩
  · rfl
  · simp [asyncOnReadMessageComplete]

/-- The parser runs over a buffer: it completes some messages, and the last one is in the slot. -/
theorem Follows.parsed {v : World L} (h : Follows heap memory ds v) {nread : List UInt8}
    (hne : nread ≠ []) {ll : L.State} {p : HttpParser} {slot : Option Message} {ec : LlhttpErrno}
    (hparse : v.consumes nread = .ok (ll, (p, slot), ec)) :
    ∃ ms, slot = ms.getLast? ∧ ∀ u : World L, u.received = v.received ++ [nread] →
      u.cref.llhttp = ll → u.cref.parser = p → Follows heap memory (ds ++ ms) u := by
  have hlen : nread.length ≠ 0 := by simpa using hne
  simp only [consumes, HttpParser.consume, hlen, if_false, Except.bind_eq_ok] at hparse
  obtain ⟨s, hs, heq⟩ := hparse
  cases heq
  -- the same events through the connection's handler and through one that keeps every message
  have hkept : HttpParser.Kept asyncOnReadMessageComplete none ds (v.cref.parser, none)
      (v.cref.parser, ds) := ⟨rfl, [], by simp, rfl⟩
  obtain ⟨⟨p', ds'⟩, hds, rfl, ms, rfl, hslot⟩ :=
    (HttpParser.callbacks_kept hkept _).exists_ok_right hs
  refine ⟨ms, hslot.trans (foldl_asyncOnReadMessageComplete ms), fun u hr hll hp => ⟨?_, ?_, ?_⟩⟩
  · rw [hr]
    simp only [List.mem_append, List.mem_singleton]
    rintro c (hc | rfl)
    · exact h.chunks c hc
    · exact hne
  · rw [hr, Llhttp.reports_concat, h.llhttp, hll]
  · have hprev := h.parser
    rw [HttpParser.callbacks] at hprev hds
    rw [hr, hp, Llhttp.reports_concat, h.llhttp, HttpParser.callbacks, List.foldlM_append, hprev,
      Except.ok_bind, hds]

/-- What a call of `reader` does to the parser, and to the message that waits for its hand-over. -/
theorem ReadOutcome.follows {v w' : World L} {io : Io} {st : Stage} (h : Follows heap memory ds v)
    (hv : v.cref.scratchRequest = none) (ho : ReadOutcome v io st w') :
    ∃ ms, Follows heap memory (ds ++ ms) w' ∧ w'.handed = v.handed ∧
      w'.cref.scratchRequest = ms.getLast? ∧
      w'.received.flatten = v.received.flatten ++ io.recv.bytes.take readBufferSize := by
  have hsame : ∀ {u : World L}, u.received = v.received → u.cref.llhttp = v.cref.llhttp →
      u.cref.parser = v.cref.parser → Follows heap memory (ds ++ []) u := by
    intro u hr hll hp
    rw [List.append_nil]
    exact ⟨hr ▸ h.chunks, by rw [hr, hll, h.llhttp], by rw [hr, hp, h.parser]⟩
  have htake : ∀ {bs : List UInt8}, bs ≠ [] → bs.take readBufferSize ≠ [] := by
    intro bs hbs
    simp [readBufferSize, hbs]
  have hreceived : ∀ {bs : List UInt8}, io.recv = .got bs →
      (v.received ++ [bs.take readBufferSize]).flatten =
        v.received.flatten ++ io.recv.bytes.take readBufferSize := by
    intro bs hbs
    simp [hbs, RecvResult.bytes]
  cases ho with
  | message hrecv hne _ hparse =>
    obtain ⟨ms, hslot, hms⟩ := h.parsed (htake hne) hparse
    exact ⟨ms, hms _ rfl rfl rfl, rfl, hslot, hreceived hrecv⟩
  | stale hrecv hne _ hparse _ =>
    obtain ⟨ms, hslot, hms⟩ := h.parsed (htake hne) hparse
    exact ⟨ms, hms _ rfl rfl rfl, rfl, hv.trans hslot, hreceived hrecv⟩
  | more hrecv hne _ hparse _ =>
    obtain ⟨ms, hslot, hms⟩ := h.parsed (htake hne) hparse
    exact ⟨ms, hms _ rfl rfl rfl, rfl, hv.trans hslot, hreceived hrecv⟩
  | rejected hrecv hne _ hparse _ =>
    obtain ⟨ms, hslot, hms⟩ := h.parsed (htake hne) hparse
    exact ⟨ms, hms _ rfl rfl rfl, rfl, hv.trans hslot, hreceived hrecv⟩
  | eof hrecv =>
    refine ⟨[], hsame rfl rfl rfl, rfl, hv, ?_⟩
    simp [postClose, post, withInputBuffer, hrecv, RecvResult.bytes]
  | again hrecv =>
    refine ⟨[], hsame rfl rfl rfl, rfl, hv, ?_⟩
    simp [withInputBuffer, hrecv, RecvResult.bytes]
  | broken hrecv _ =>
    refine ⟨[], hsame rfl rfl rfl, rfl, hv, ?_⟩
    simp [postClose, post, withInputBuffer, hrecv, RecvResult.bytes]

/-- Nothing was read between the two states. -/
structure Unread (w w' : World L) : Prop where
  received : w'.received = w.received
  llhttp : w'.cref.llhttp = w.cref.llhttp
  parser : w'.cref.parser = w.cref.parser
  handed : w'.handed ++ w'.cref.scratchRequest.toList =
    w.handed ++ w.cref.scratchRequest.toList

theorem Unread.follows {w w' : World L} (hu : Unread w w') (h : Follows heap memory ds w) :
    Follows heap memory ds w' :=
  ⟨hu.received ▸ h.chunks, by rw [hu.received, hu.llhttp, h.llhttp],
    by rw [hu.received, hu.parser, h.parser]⟩

/-- `writer` reads nothing. -/
theorem WriteOutcome.unread {w w' : World L} {io : Io} {s : List UInt8} {st : Stage}
    (ho : WriteOutcome { w with readyList := [] } io s st w') : Unread w w' := by
  cases ho <;> exact ⟨rfl, rfl, rfl, rfl⟩

/-- What a stage ignores calls no `reader`. -/
theorem readerCall_of_ignores {w : World L} {st : Stage} {a : Act} (h : Coherent st w)
    (ha : st.Ignores a) : w.readerCall a = none := by
  cases a with
  | accept io =>
    have hlife : w.life ≠ .embryo := by
      rw [h.life]
      cases st <;> simp_all [Stage.life, Stage.Ignores]
    simp [readerCall, hlife]
  | event mask => rfl
  | run io =>
    have hq : w.readyList = [] := by
      rw [h.readyList]
      cases st <;> simp_all [Stage.Ignores]
    simp [readerCall, hq]
  | appPost => rfl

/-- A step calls `reader` and does nothing else, or reads nothing. -/
theorem Move.read_cases {w w' : World L} {st st' : Stage} {a : Act} (h : Coherent st w)
    (hm : Move w st a st' w') :
    (∃ v io, w.readerCall a = some (v, io) ∧ v.Reading ∧ Unread w v ∧ ReadOutcome v io st' w') ∨
      w.readerCall a = none ∧ Unread w w' := by
  cases hm with
  | stay hi => exact Or.inr ⟨readerCall_of_ignores h hi, rfl, rfl, rfl, rfl⟩
  | @accept io _ _ ho =>
    refine Or.inl ⟨w.opened, io, ?_, h.opened, ⟨rfl, rfl, rfl, rfl⟩, ho⟩
    simp [readerCall, h.life, Stage.life]
  | @read io _ _ ho =>
    refine Or.inl ⟨w.resumed, io, ?_, h.resumed, ⟨rfl, rfl, rfl, rfl⟩, ho⟩
    simp [readerCall, h.readyList, Stage.readyList]
  | @complete io _ _ ho =>
    refine Or.inl ⟨w.completed, io, ?_, h.completed, ⟨rfl, rfl, rfl, rfl⟩, ho⟩
    simp [readerCall, h.readyList, Stage.readyList]
  | epollin _ => exact Or.inr ⟨rfl, rfl, rfl, rfl, rfl⟩
  | epollout _ => exact Or.inr ⟨rfl, rfl, rfl, rfl, rfl⟩
  | appPost => exact Or.inr ⟨rfl, rfl, rfl, rfl, rfl⟩
  | keep hscratch _ =>
    refine Or.inr ⟨?_, rfl, rfl, rfl, ?_⟩
    · simp [readerCall, h.readyList, Stage.readyList]
    · simp [taken, hscratch]
  | reply hscratch _ _ =>
    refine Or.inr ⟨?_, rfl, rfl, rfl, ?_⟩
    · simp [readerCall, h.readyList, Stage.readyList]
    · simp [taken, answered, hscratch]
  | lateReply _ _ =>
    refine Or.inr ⟨?_, rfl, rfl, rfl, rfl⟩
    simp [readerCall, h.readyList, Stage.readyList]
  | write _ _ _ ho =>
    refine Or.inr ⟨?_, ho.unread⟩
    simp [readerCall, h.readyList, Stage.readyList]
  | close =>
    refine Or.inr ⟨?_, rfl, rfl, rfl, rfl⟩
    simp [readerCall, h.readyList, Stage.readyList]

/-! ### Along a run -/

variable {reqs : List (List UInt8)}

/-- The parser completes as many messages as requests have ended. -/
theorem Follows.length_eq {w : World L} (h : Follows heap memory ds w)
    (hL : L.CompletesEach reqs) (hin : w.received.flatten <+: reqs.flatten) :
    ds.length = requestsWithin reqs w.received.flatten.length := by
  rw [← hL w.received h.chunks hin]
  simpa using HttpParser.length_of_callbacks h.parser

/-- Requests are handed over as they should be exactly when the messages handed over, with the one
that is queued, are those completed. -/
theorem allHanded_iff {w : World L} {st : Stage} (hst : Coherent st w)
    (h : Follows heap memory ds w) (hL : L.CompletesEach reqs)
    (hin : w.received.flatten <+: reqs.flatten) :
    AllHanded heap memory reqs w ↔ w.handed ++ w.cref.scratchRequest.toList = ds := by
  have hdel : HttpParser.delivered heap memory (L.reports L.init w.received).2 = .ok ds := by
    rw [HttpParser.delivered, h.parser]
    rfl
  constructor
  · rintro ⟨⟨ds', hds', -, heq⟩, -⟩
    cases hdel.symm.trans hds'
    exact heq
  · intro heq
    refine ⟨⟨ds, hdel, h.length_eq hL hin, heq⟩, fun hsome => ?_⟩
    rw [hst.scratch] at hsome
    rw [hst.readyList]
    cases st <;> simp_all [Stage.hands, Stage.readyList]

/-- The stage of a state, where its parser stands, and that it has received part of the stream. -/
def Tracked (heap : Heap) (memory : ByteMemory) (reqs : List (List UInt8)) (w : World L) : Prop :=
  ∃ st ds, Coherent st w ∧ Follows heap memory ds w ∧ w.received.flatten <+: reqs.flatten

/-- **One step.** It keeps the state tracked, and the requests handed over exactly when at most one
of them ends in what it receives. -/
theorem tracked_step (hL : L.CompletesEach reqs) {w w' : World L} {a : Act}
    (h : Tracked heap memory reqs w) (hin : w.InStream reqs a) (hs : w.step a = .ok w') :
    Tracked heap memory reqs w' ∧ (AllHanded heap memory reqs w →
      (AllHanded heap memory reqs w' ↔ w.EndsOne reqs a)) := by
  obtain ⟨st, ds, hst, hf, hpre⟩ := h
  obtain ⟨st', hm⟩ := move_of_step hst hs
  have hst' := hm.coherent hst
  obtain ⟨v, io, hcall, hv, hu, ho⟩ | ⟨hcall, hu⟩ := hm.read_cases hst
  · have harr : w.arriving a = io.recv.bytes := by simp only [arriving, hcall]
    obtain ⟨ms, hf', hhanded, hscratch, hrec⟩ := ho.follows (hu.follows hf) hv.scratch
    rw [hu.received, ← harr] at hrec
    have hpre' : w'.received.flatten <+: reqs.flatten := by
      rw [hrec]
      exact ((List.prefix_append_right_inj _).mpr (List.take_prefix _ _)).trans hin
    refine ⟨⟨st', _, hst', hf', hpre'⟩, fun hq => ?_⟩
    have hv' : v.handed = ds := by
      have := hu.handed.trans ((allHanded_iff hst hf hL hpre).mp hq)
      simpa [hv.scratch] using this
    -- What is handed over grows by the last message of the buffer, what is completed by all of
    -- them, and these are as many as the requests that end in it.
    rw [allHanded_iff hst' hf' hL hpre', hhanded, hscratch, hv', List.append_right_inj,
      List.toList_getLast?_eq_iff, EndsOne, ← hrec, ← hf'.length_eq hL hpre',
      ← hf.length_eq hL hpre, List.length_append, Nat.add_le_add_iff_left]
  · have harr : w.arriving a = [] := by simp only [arriving, hcall]
    have hf' := hu.follows hf
    have hpre' : w'.received.flatten <+: reqs.flatten := by rwa [hu.received]
    refine ⟨⟨st', ds, hst', hf', hpre'⟩, fun hq => ?_⟩
    refine iff_of_true ?_ ?_
    · rw [allHanded_iff hst' hf' hL hpre', hu.handed]
      exact (allHanded_iff hst hf hL hpre).mp hq
    · simp [EndsOne, harr]

theorem follows_init (L : Llhttp) (heap : Heap) (memory : ByteMemory) :
    Follows heap memory [] (init L heap memory) :=
  ⟨nofun, rfl, rfl⟩

private theorem tracked_init (L : Llhttp) (heap : Heap) (memory : ByteMemory)
    (reqs : List (List UInt8)) :
    Tracked heap memory reqs (init L heap memory) :=
  ⟨.embryo, [], init_coherent L heap memory, follows_init L heap memory, List.nil_prefix⟩

/-- The request whose hand-over is queued is handed over when the reactor runs. -/
theorem Move.hands_over {w w' : World L} {st st' : Stage} {io : Io} {m : Message}
    (h : Coherent st w) (hm : Move w st (.run io) st' w')
    (hscratch : w.cref.scratchRequest = some m) : w'.handed = w.handed ++ [m] := by
  have hhands : st.hands = true := by rw [← h.scratch, hscratch, Option.isSome_some]
  cases hm with
  | stay hi => cases st <;> simp_all [Stage.hands, Stage.Ignores, Stage.readyList]
  | keep hscratch' _ =>
    cases hscratch.symm.trans hscratch'
    rfl
  | reply hscratch' _ _ =>
    cases hscratch.symm.trans hscratch'
    rfl
  | _ => cases hhands

/-- **Pipelined requests.** On a stream of requests that `llhttp` completes one by one, in a run in
which every `recv` ends at most one request, every request whose last byte was received is handed
over once and in order, in every state reached. And that condition is needed: a run that goes
through and has this in every state meets it. A hand-over that is queued is what the reactor does
next, and a run ends early only in a library function. -/
theorem pipelined_handed (hL : L.CompletesEach reqs) (heap : Heap) (memory : ByteMemory)
    {as : List Act} (hin : Machine.Along step (InStream reqs) (init L heap memory) as) :
    (Machine.Along step (EndsOne reqs) (init L heap memory) as →
        Machine.Always step (AllHanded heap memory reqs) (init L heap memory) as) ∧
      (∀ t, Machine.run step (init L heap memory) as = .ok t →
        Machine.Always step (AllHanded heap memory reqs) (init L heap memory) as →
        Machine.Along step (EndsOne reqs) (init L heap memory) as) ∧
      Machine.Always step (fun w => ∀ m, w.cref.scratchRequest = some m →
        ∀ io w', w.step (.run io) = .ok w' → w'.handed = w.handed ++ [m]) (init L heap memory) as ∧
      ∀ e, Machine.run step (init L heap memory) as = .error e → ∃ abort, e = .library abort := by
  have hinit := tracked_init L heap memory reqs
  have hhanded : AllHanded heap memory reqs (init L heap memory) :=
    (allHanded_iff (init_coherent L heap memory) (follows_init L heap memory) hL
      List.nil_prefix).mpr rfl
  refine ⟨fun hone => ?_, fun t hr hall => ?_, ?_, fun e he => library_of_run_error he⟩
  · have hall : Machine.Always step
        (fun w => Tracked heap memory reqs w ∧ AllHanded heap memory reqs w)
        (init L heap memory) as := by
      refine Machine.always_of_along (fun w a w' hw hp hs => ?_) ⟨hinit, hhanded⟩ (hin.and hone)
      obtain ⟨ht, hiff⟩ := tracked_step hL hw.1 hp.1 hs
      exact ⟨ht, (hiff hw.2).mpr hp.2⟩
    exact hall.mono fun w hw => hw.2
  · refine Machine.along_of_always (fun w a w' hw hf hs => (tracked_step hL hw hf hs).1)
      (fun w a w' hw hf hq hs hq' => ?_) hinit hin hr hall
    exact ((tracked_step hL hw hf hs).2 hq).mp hq'
  · refine (Machine.always_invariant sound_step (sound_init L heap memory)).mono ?_
    rintro w ⟨st, hst⟩ m hm io w' hs
    obtain ⟨st', hmove⟩ := move_of_step hst hs
    exact hmove.hands_over hst hm

/-! ### Two requests -/

/-- A keep-alive request. -/
def getRequest : List UInt8 := ascii "GET / HTTP/1.1\r\nConnection: keep-alive\r\n\r\n"

/-- Its lines. -/
def getScript : Script :=
  [.line (ascii "GET / HTTP/1.1") [.messageBegin, .url (ascii "/")],
    .header (ascii "Connection") (ascii "keep-alive"),
    .line [] [.headersComplete 1 1 1, .messageComplete]]

/-- A parser for a stream of `n` such requests. -/
def getRequests (n : ℕ) : Llhttp := .script (List.replicate n getScript).flatten

theorem takes_getRequests (n : ℕ) : (getRequests n).Takes (List.replicate n getRequest) := by
  have hmessage : ∀ s ∈ List.replicate n getScript, s.IsMessage := by
    intro s hs
    rw [List.eq_of_mem_replicate hs]
    exact ⟨by decide, by decide⟩
  have hbytes : getScript.bytes = getRequest := by decide
  have htakes := Llhttp.takes_script hmessage
  rwa [List.map_replicate, hbytes] at htakes

/-- A run in which `recv` returns the chunks one after another, each time the connection reads, and
every request is answered at once and sent in one piece. -/
def served (first : List UInt8) (rest : List (List UInt8)) : List Act :=
  let io (bs : List UInt8) : Io :=
    ⟨0, .got bs, .accepted 1000, { Message.new .zeros with statusCode := 200 }, true⟩
  .accept (io first) :: rest.flatMap fun bs => [.run (io bs), .run (io bs), .run (io bs)]

/-- Two requests in two `recv`s are both handed over. -/
theorem pipelined_handed_two :
    Machine.Always step (AllHanded (.const .zeros) (fun _ => 0) [getRequest, getRequest])
      (init (getRequests 2) (.const .zeros) fun _ => 0) (served getRequest [getRequest]) := by
  have hin : Machine.Along step (InStream [getRequest, getRequest])
      (init (getRequests 2) (.const .zeros) fun _ => 0) (served getRequest [getRequest]) := by
    decide
  refine (pipelined_handed (takes_getRequests 2).completes (.const .zeros) (fun _ => 0) hin).1 ?_
  decide

/-- Two requests in one `recv`: the first is lost. -/
theorem second_request_overwrites_first :
    (getRequests 2).CompletesEach [getRequest, getRequest] ∧
      Machine.Along step (InStream [getRequest, getRequest])
        (init (getRequests 2) (.const .zeros) fun _ => 0) (served (getRequest ++ getRequest) []) ∧
      ¬ Machine.Always step (AllHanded (.const .zeros) (fun _ => 0) [getRequest, getRequest])
        (init (getRequests 2) (.const .zeros) fun _ => 0)
        (served (getRequest ++ getRequest) []) := by
  refine ⟨(takes_getRequests 2).completes, by decide, ?_⟩
  rintro ⟨-, h⟩
  obtain ⟨ds, -, hlen, rfl⟩ := h.handed
  exact absurd hlen (by decide)

end World

end CHttp
