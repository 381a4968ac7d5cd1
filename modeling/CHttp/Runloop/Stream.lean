import CHttp.ForMathlib.Machine
import CHttp.Runloop.Registration

/-!
# The stream watcher

`w_stream.c`. A stream watcher has one mask, `event_mask`, that the arm and disarm functions change
and hand to the reactor as its interest, and a handler for each direction. When `epoll` reports an
event, the dispatcher calls the handlers of the directions that are armed: it looks at the mask and
not at the event, so with both armed either event calls both handlers.
-/

namespace CHttp

/-- The handlers of a stream watcher. -/
inductive StreamSlot
  | both
  | read
  | write
  deriving DecidableEq, Repr

/-- History of a call of a handler: the event, and whether the direction was armed. -/
structure StreamCall where
  slot : StreamSlot
  event : UInt64
  armed : Bool
  deriving DecidableEq, Repr

/-- Where the dispatcher stands: it is not running, or it has called `both_handler` or
`read_evhandler` for an event and the handler has not returned. Nothing is looked at after
`write_evhandler`. -/
inductive StreamControl
  | idle
  | inBoth (event : UInt64)
  | inRead (event : UInt64)
  deriving DecidableEq, Repr

/-- `RtorStream`, with what the reactor has for its descriptor. The arguments of the handlers are
left out. The history: which directions were armed and not disarmed since, and the calls of
handlers, oldest first. -/
structure RtorStream (H : Type) where
  eventMask : UInt64
  bothHandler : Option H
  readEvhandler : Option H
  writeEvhandler : Option H
  registration : Registration
  control : StreamControl
  readArmed : Bool
  writeArmed : Bool
  calls : List StreamCall

namespace RtorStream

variable {H : Type} {s s' : RtorStream H}

/-- `rtor_stream_new`. `both_handler` is not initialised: it is what `malloc` left there. -/
def new (junk : Option H) : RtorStream H :=
  ⟨0, junk, none, none, none, .idle, false, false, []⟩

/-- `EPOLLIN | EPOLLERR | EPOLLHUP | EPOLLRDHUP`. -/
def readInterest : UInt64 :=
  (Epoll.epollin ||| Epoll.epollerr ||| Epoll.epollhup ||| Epoll.epollrdhup).toUInt64

/-- `EPOLLOUT | EPOLLERR | EPOLLHUP | EPOLLRDHUP`. -/
def writeInterest : UInt64 :=
  (Epoll.epollout ||| Epoll.epollerr ||| Epoll.epollhup ||| Epoll.epollrdhup).toUInt64

/-- `EPOLLET | EPOLLOUT | EPOLLIN | EPOLLERR | EPOLLHUP | EPOLLRDHUP`. -/
def bothInterest : UInt64 :=
  (Epoll.epollet ||| Epoll.epollout ||| Epoll.epollin ||| Epoll.epollerr ||| Epoll.epollhup |||
    Epoll.epollrdhup).toUInt64

/-- `rtor_stream_register`. The interest is 0. -/
def register (s : RtorStream H) : Except Abort (RtorStream H) := do
  return { s with registration := ← s.registration.register 0 }

/-- The end of the arm and disarm functions: the mask is handed to the reactor, which takes 32 bits
of it. -/
def rewatch (s : RtorStream H) (eventMask : UInt64) : Except Abort (RtorStream H) := do
  return { s with eventMask, registration := ← s.registration.reregister eventMask.toUInt32 }

/-- `rtor_stream_arm_both`. A handler that is `NULL` leaves the one there is. -/
def armBoth (s : RtorStream H) (eventHandler : Option H) : Except Abort (RtorStream H) :=
  { s with
    bothHandler := eventHandler.or s.bothHandler
    readArmed := true
    writeArmed := true }.rewatch (bothInterest ||| s.eventMask)

/-- `rtor_stream_arm_read`. -/
def armRead (s : RtorStream H) (eventHandler : Option H) : Except Abort (RtorStream H) :=
  { s with readEvhandler := eventHandler.or s.readEvhandler, readArmed := true }.rewatch
    (readInterest ||| s.eventMask)

/-- `rtor_stream_arm_write`. -/
def armWrite (s : RtorStream H) (eventHandler : Option H) : Except Abort (RtorStream H) :=
  { s with writeEvhandler := eventHandler.or s.writeEvhandler, writeArmed := true }.rewatch
    (writeInterest ||| s.eventMask)

/-- `rtor_stream_disarm_read`. -/
def disarmRead (s : RtorStream H) : Except Abort (RtorStream H) :=
  { s with readEvhandler := none, readArmed := false }.rewatch
    (s.eventMask &&& ~~~Epoll.epollin.toUInt64)

/-- `rtor_stream_disarm_write`. Unlike the other, it leaves the handler. -/
def disarmWrite (s : RtorStream H) : Except Abort (RtorStream H) :=
  { s with writeArmed := false }.rewatch (~~~Epoll.epollout.toUInt64 &&& s.eventMask)

/-! ### The dispatcher -/

/-- The test before `read_evhandler` is called. -/
def wantsRead (s : RtorStream H) : Bool :=
  s.eventMask &&& Epoll.epollin.toUInt64 ≠ 0 && s.readEvhandler.isSome

/-- The test before `write_evhandler` is called. -/
def wantsWrite (s : RtorStream H) : Bool :=
  s.eventMask &&& Epoll.epollout.toUInt64 ≠ 0 && s.writeEvhandler.isSome

/-- The end of `handler`. -/
def callWrite (s : RtorStream H) (event : UInt64) : RtorStream H :=
  if s.wantsWrite then
    { s with control := .idle, calls := s.calls ++ [⟨.write, event, s.writeArmed⟩] }
  else { s with control := .idle }

/-- `handler`, after `both_handler`. -/
def callRead (s : RtorStream H) (event : UInt64) : RtorStream H :=
  if s.wantsRead then
    { s with control := .inRead event, calls := s.calls ++ [⟨.read, event, s.readArmed⟩] }
  else s.callWrite event

/-- The watcher is looked up, and its `handler` called. -/
def handler (s : RtorStream H) (event : UInt64) : Except Abort (RtorStream H) := do
  assertThat s.registration.isSome "FdTable_lookup" "this->entries[fd] != NULL"
  return if s.bothHandler.isSome then
    { s with
      control := .inBoth event
      calls := s.calls ++ [⟨.both, event, s.readArmed && s.writeArmed⟩] }
  else s.callRead event

/-- What happens next: a function is called, by the handler that is running or outside the
dispatcher; an event is dispatched; the handler that is running returns. -/
inductive Act (H : Type)
  | register
  | armBoth (eventHandler : Option H)
  | armRead (eventHandler : Option H)
  | armWrite (eventHandler : Option H)
  | disarmRead
  | disarmWrite
  | event (event : UInt64)
  | returns

/-- One action. An event is dispatched only when the dispatcher is not running. -/
def step (s : RtorStream H) : Act H → Except Abort (RtorStream H)
  | .register => s.register
  | .armBoth eventHandler => s.armBoth eventHandler
  | .armRead eventHandler => s.armRead eventHandler
  | .armWrite eventHandler => s.armWrite eventHandler
  | .disarmRead => s.disarmRead
  | .disarmWrite => s.disarmWrite
  | .event event =>
    match s.control with
    | .idle => s.handler event
    | _ => .ok s
  | .returns =>
    match s.control with
    | .idle => .ok s
    | .inBoth event => .ok (s.callRead event)
    | .inRead event => .ok (s.callWrite event)

/-! ### What the dispatcher is for -/

/-- A direction's handler is called while it is armed, for an event that is its own or tells of an
error or a hang-up. -/
def Due (c : StreamCall) : Prop :=
  match c.slot with
  | .both => True
  | .read => c.armed = true ∧ c.event &&& readInterest ≠ 0
  | .write => c.armed = true ∧ c.event &&& writeInterest ≠ 0

/-- What `epoll` watches of some bits, if the stream is registered. -/
def watches (s : RtorStream H) (bits : UInt32) : Option UInt32 := s.registration.map (· &&& bits)

/-- The interest is the mask, every call was due, and disarming a direction leaves the other
alone. -/
structure Dispatches (s : RtorStream H) : Prop where
  interest : ∀ interest, s.registration = some interest → interest.toUInt64 = s.eventMask
  calls : ∀ c ∈ s.calls, Due c
  disarmRead : ∀ s', s.step .disarmRead = .ok s' →
    s'.writeEvhandler = s.writeEvhandler ∧ s'.writeArmed = s.writeArmed ∧
      s'.watches Epoll.epollout = s.watches Epoll.epollout
  disarmWrite : ∀ s', s.step .disarmWrite = .ok s' →
    s'.readEvhandler = s.readEvhandler ∧ s'.readArmed = s.readArmed ∧
      s'.watches Epoll.epollin = s.watches Epoll.epollin

/-- If `write_evhandler` is to be called for an event, it is one for it. -/
def WriteFits (s : RtorStream H) (event : UInt64) : Prop :=
  s.wantsWrite = true → event &&& writeInterest ≠ 0

/-- The next handler to be called for an event is one for it. -/
def ReadFits (s : RtorStream H) (event : UInt64) : Prop :=
  if s.wantsRead then event &&& readInterest ≠ 0 else s.WriteFits event

/-- When the dispatcher gets to a direction that is armed and has a handler, the event is one for
that direction. -/
def EventFits (s : RtorStream H) : Act H → Prop
  | .event event =>
    match s.control with
    | .idle => s.bothHandler.isSome ∨ s.ReadFits event
    | _ => True
  | .returns =>
    match s.control with
    | .idle => True
    | .inBoth event => s.ReadFits event
    | .inRead event => s.WriteFits event
  | _ => True

/-! ### Masks -/

private theorem or_and_ne_zero (c m b : UInt64) :
    (c ||| m) &&& b ≠ 0 ↔ c &&& b ≠ 0 ∨ m &&& b ≠ 0 := by
  have hdistrib : (c ||| m) &&& b = (c &&& b) ||| (m &&& b) := by
    rw [← UInt64.toBitVec_inj]
    exact BitVec.and_or_distrib_right
  rw [hdistrib, ne_eq, UInt64.or_eq_zero_iff, not_and_or]

/-- A bit that is put in is there. -/
theorem or_and_ne_zero_of_left {c b : UInt64} (h : c &&& b ≠ 0) (m : UInt64) :
    (c ||| m) &&& b ≠ 0 := (or_and_ne_zero c m b).mpr (Or.inl h)

/-- Another bit is there if it was. -/
theorem or_and_ne_zero_iff_right {c b : UInt64} (h : ¬ c &&& b ≠ 0) (m : UInt64) :
    m &&& b ≠ 0 ↔ (c ||| m) &&& b ≠ 0 :=
  (or_iff_right h).symm.trans (or_and_ne_zero c m b).symm

/-- The mask fits the 32 bits that the reactor takes of it. -/
def Narrow (m : UInt64) : Prop := m.toNat < 2 ^ 32

instance (m : UInt64) : Decidable (Narrow m) := inferInstanceAs (Decidable (m.toNat < 2 ^ 32))

private theorem Narrow.toUInt64_toUInt32 {m : UInt64} (h : Narrow m) : m.toUInt32.toUInt64 = m := by
  rw [← UInt64.toNat_inj, UInt32.toNat_toUInt64, UInt64.toNat_toUInt32]
  exact Nat.mod_eq_of_lt h

private theorem narrow_toUInt64 (i : UInt32) : Narrow i.toUInt64 := by
  rw [Narrow, UInt32.toNat_toUInt64]
  exact i.toNat_lt

private theorem Narrow.or {c m : UInt64} (hc : Narrow c) (hm : Narrow m) : Narrow (c ||| m) := by
  rw [Narrow, UInt64.toNat_or]
  exact Nat.or_lt_two_pow hc hm

theorem Narrow.and {m : UInt64} (hm : Narrow m) (c : UInt64) : Narrow (m &&& c) := by
  rw [Narrow, UInt64.toNat_and]
  exact Nat.lt_of_le_of_lt Nat.and_le_left hm

/-- What is left of a mask without some bits is the same for all others. -/
theorem and_and_of_eq {m c b : UInt64} (h : c &&& b = b) : (m &&& c) &&& b = m &&& b := by
  rw [UInt64.and_assoc, h]

/-! ### Steps -/

/-- What holds between two steps: the interest is the mask, and the mask has the bits of the
directions that are armed. -/
structure Coherent (s : RtorStream H) : Prop where
  interest : ∀ interest, s.registration = some interest → interest.toUInt64 = s.eventMask
  unregistered : s.registration = none → s.eventMask = 0
  read : s.readArmed = true ↔ s.eventMask &&& Epoll.epollin.toUInt64 ≠ 0
  write : s.writeArmed = true ↔ s.eventMask &&& Epoll.epollout.toUInt64 ≠ 0

private theorem new_coherent (junk : Option H) : Coherent (new junk) :=
  ⟨nofun, fun _ => rfl, by simp [new], by simp [new]⟩

private theorem Coherent.narrow (h : s.Coherent) : Narrow s.eventMask := by
  cases hr : s.registration with
  | none =>
    rw [h.unregistered hr]
    decide
  | some i =>
    rw [← h.interest i hr]
    exact narrow_toUInt64 i

private theorem rewatch_eq_ok {eventMask : UInt64} :
    s.rewatch eventMask = .ok s' ↔ s.registration.isSome = true ∧
      s' = { s with eventMask, registration := some eventMask.toUInt32 } := by
  unfold rewatch Registration.reregister
  cases s.registration with
  | none => simp
  | some i => simp [eq_comm]

/-- The mask was changed, and the directions armed with it. -/
theorem coherent_of_rewatch {t : RtorStream H} {eventMask : UInt64}
    (hs : t.rewatch eventMask = .ok s') (hcalls : t.calls = s.calls) (hnarrow : Narrow eventMask)
    (hread : t.readArmed = true ↔ eventMask &&& Epoll.epollin.toUInt64 ≠ 0)
    (hwrite : t.writeArmed = true ↔ eventMask &&& Epoll.epollout.toUInt64 ≠ 0) :
    Coherent s' ∧ s'.calls = s.calls := by
  obtain ⟨-, rfl⟩ := rewatch_eq_ok.mp hs
  refine ⟨⟨?_, nofun, hread, hwrite⟩, hcalls⟩
  rintro _ ⟨⟩
  exact hnarrow.toUInt64_toUInt32

/-- The functions that are no part of the dispatcher. -/
theorem coherent_of_operation {a : Act H} (h : s.Coherent) (hs : s.step a = .ok s')
    (hevent : ∀ event, a ≠ .event event) (hreturns : a ≠ .returns) :
    Coherent s' ∧ s'.calls = s.calls := by
  have hnarrow := h.narrow
  cases a with
  | register =>
    simp only [step, register, Registration.register, Except.bind_eq_ok] at hs
    obtain ⟨reg, ⟨⟨⟩, hnone, hreg⟩, hs⟩ := hs
    cases hreg
    cases hs
    have hmask : s.eventMask = 0 := h.unregistered (by
      cases hr : s.registration with
      | none => rfl
      | some i => simp [hr] at hnone)
    exact ⟨⟨fun _ hi => by cases hi; exact hmask.symm, nofun, h.read, h.write⟩, rfl⟩
  | armBoth eventHandler =>
    rw [step, armBoth] at hs
    refine coherent_of_rewatch hs rfl (Narrow.or (by decide) hnarrow) ?_ ?_
    · exact iff_of_true rfl (or_and_ne_zero_of_left (by decide) _)
    · exact iff_of_true rfl (or_and_ne_zero_of_left (by decide) _)
  | armRead eventHandler =>
    rw [step, armRead] at hs
    refine coherent_of_rewatch hs rfl (Narrow.or (by decide) hnarrow) ?_ ?_
    · exact iff_of_true rfl (or_and_ne_zero_of_left (by decide) _)
    · exact h.write.trans (or_and_ne_zero_iff_right (by decide) _)
  | armWrite eventHandler =>
    rw [step, armWrite] at hs
    refine coherent_of_rewatch hs rfl (Narrow.or (by decide) hnarrow) ?_ ?_
    · exact h.read.trans (or_and_ne_zero_iff_right (by decide) _)
    · exact iff_of_true rfl (or_and_ne_zero_of_left (by decide) _)
  | disarmRead =>
    rw [step, disarmRead] at hs
    refine coherent_of_rewatch hs rfl (hnarrow.and _) ?_ ?_
    · rw [UInt64.and_assoc]
      exact iff_of_false (by simp) (by simp)
    · rw [and_and_of_eq (by decide)]
      exact h.write
  | disarmWrite =>
    have hcomm : ~~~Epoll.epollout.toUInt64 &&& s.eventMask =
        s.eventMask &&& ~~~Epoll.epollout.toUInt64 := UInt64.and_comm _ _
    rw [step, disarmWrite, hcomm] at hs
    refine coherent_of_rewatch hs rfl (hnarrow.and _) ?_ ?_
    · rw [and_and_of_eq (by decide)]
      exact h.read
    · rw [UInt64.and_assoc]
      exact iff_of_false (by simp) (by simp)
  | event event => exact absurd rfl (hevent event)
  | returns => exact absurd rfl hreturns

/-- The end of the dispatcher: the call of `write_evhandler` is due exactly if the event fits. -/
theorem Coherent.callWrite (h : s.Coherent) (hq : ∀ c ∈ s.calls, Due c) (event : UInt64) :
    Coherent (s.callWrite event) ∧
      ((∀ c ∈ (s.callWrite event).calls, Due c) ↔ s.WriteFits event) := by
  unfold RtorStream.callWrite
  by_cases hw : s.wantsWrite = true
  · have harmed : s.writeArmed = true := by
      rw [wantsWrite, Bool.and_eq_true, decide_eq_true_iff] at hw
      exact h.write.mpr hw.1
    rw [if_pos hw]
    refine ⟨⟨h.interest, h.unregistered, h.read, h.write⟩, ?_⟩
    rw [List.forall_mem_append, List.forall_mem_singleton, and_iff_right hq]
    exact ⟨fun hdue _ => hdue.2, fun hfits => ⟨harmed, hfits hw⟩⟩
  · rw [if_neg hw]
    exact ⟨⟨h.interest, h.unregistered, h.read, h.write⟩,
      iff_of_true hq fun hw' => absurd hw' hw⟩

/-- The dispatcher from the call of `read_evhandler` on. -/
theorem Coherent.callRead (h : s.Coherent) (hq : ∀ c ∈ s.calls, Due c) (event : UInt64) :
    Coherent (s.callRead event) ∧
      ((∀ c ∈ (s.callRead event).calls, Due c) ↔ s.ReadFits event) := by
  unfold RtorStream.callRead ReadFits
  by_cases hr : s.wantsRead = true
  · have harmed : s.readArmed = true := by
      rw [wantsRead, Bool.and_eq_true, decide_eq_true_iff] at hr
      exact h.read.mpr hr.1
    rw [if_pos hr, if_pos hr]
    refine ⟨⟨h.interest, h.unregistered, h.read, h.write⟩, ?_⟩
    rw [List.forall_mem_append, List.forall_mem_singleton, and_iff_right hq]
    exact ⟨fun hdue => hdue.2, fun hfits => ⟨harmed, hfits⟩⟩
  · rw [if_neg hr, if_neg hr]
    exact h.callWrite hq event

/-- The whole dispatcher, up to the first handler called. -/
theorem Coherent.handler (h : s.Coherent) (hq : ∀ c ∈ s.calls, Due c) {event : UInt64}
    (hs : s.handler event = .ok s') :
    Coherent s' ∧ ((∀ c ∈ s'.calls, Due c) ↔ s.bothHandler.isSome ∨ s.ReadFits event) := by
  rw [RtorStream.handler, Except.bind_eq_ok] at hs
  obtain ⟨⟨⟩, -, hs⟩ := hs
  cases hs
  by_cases hboth : s.bothHandler.isSome = true
  · rw [if_pos hboth]
    refine ⟨⟨h.interest, h.unregistered, h.read, h.write⟩, ?_⟩
    rw [List.forall_mem_append, List.forall_mem_singleton, and_iff_right hq]
    exact iff_of_true trivial (.inl hboth)
  · rw [if_neg hboth, or_iff_right hboth]
    exact h.callRead hq event

/-- **One step.** Calls that were due stay so exactly if the event fits. -/
theorem due_step {a : Act H} (h : s.Coherent) (hq : ∀ c ∈ s.calls, Due c)
    (hs : s.step a = .ok s') : Coherent s' ∧ ((∀ c ∈ s'.calls, Due c) ↔ s.EventFits a) := by
  have hoperation : (∀ event, a ≠ .event event) → a ≠ .returns → s.EventFits a →
      Coherent s' ∧ ((∀ c ∈ s'.calls, Due c) ↔ s.EventFits a) := by
    intro hevent hreturns hfits
    obtain ⟨hcoh, hcalls⟩ := coherent_of_operation h hs hevent hreturns
    rw [hcalls]
    exact ⟨hcoh, iff_of_true hq hfits⟩
  cases a with
  | event event =>
    cases hc : s.control with
    | idle =>
      simp only [step, hc] at hs
      simp only [EventFits, hc]
      exact h.handler hq hs
    | _ =>
      simp only [step, hc] at hs
      simp only [EventFits, hc]
      cases hs
      exact ⟨h, iff_of_true hq trivial⟩
  | returns =>
    simp only [step] at hs
    simp only [EventFits]
    cases hc : s.control with
    | idle =>
      rw [hc] at hs
      cases hs
      exact ⟨h, iff_of_true hq trivial⟩
    | inBoth event =>
      rw [hc] at hs
      cases hs
      exact h.callRead hq event
    | inRead event =>
      rw [hc] at hs
      cases hs
      exact h.callWrite hq event
  | _ => exact hoperation (by simp) (by simp) trivial

/-- A stream that is not registered has no direction armed. -/
theorem eventFits_of_error {a : Act H} {e : Abort} (h : s.Coherent) (hs : s.step a = .error e) :
    s.EventFits a := by
  cases a with
  | event event =>
    simp only [EventFits]
    cases hc : s.control with
    | idle =>
      simp only [step, hc, handler] at hs
      cases hr : s.registration with
      | some i => simp [hr] at hs
      | none => exact .inr (by simp [ReadFits, WriteFits, wantsRead, wantsWrite, h.unregistered hr])
    | _ => trivial
  | returns =>
    simp only [step] at hs
    cases hc : s.control with
    | _ =>
      rw [hc] at hs
      cases hs
  | _ => trivial

/-! ### Runs -/

private theorem watches_rewatch {i : UInt32} {eventMask : UInt64} (hi : i.toUInt64 = eventMask)
    {cleared bits : UInt32} (hbits : ~~~cleared &&& bits = bits) :
    (eventMask &&& ~~~cleared.toUInt64).toUInt32 &&& bits = i &&& bits := by
  subst hi
  rw [UInt64.toUInt32_and, UInt64.toUInt32_not, UInt32.toUInt32_toUInt64, UInt32.toUInt32_toUInt64,
    UInt32.and_assoc, hbits]

/-- Only the calls can go wrong. -/
theorem Coherent.dispatches_iff (h : s.Coherent) : Dispatches s ↔ ∀ c ∈ s.calls, Due c := by
  refine ⟨fun hd => hd.calls, fun hcalls => ⟨h.interest, hcalls, ?_, ?_⟩⟩
  · intro s' hs
    rw [step, RtorStream.disarmRead] at hs
    obtain ⟨hreg, rfl⟩ := rewatch_eq_ok.mp hs
    obtain ⟨i, hi⟩ := Option.isSome_iff_exists.mp hreg
    have hbits : ~~~Epoll.epollin &&& Epoll.epollout = Epoll.epollout := by decide
    refine ⟨rfl, rfl, ?_⟩
    rw [watches, watches, hi]
    exact congrArg some (watches_rewatch (h.interest i hi) hbits)
  · intro s' hs
    rw [step, RtorStream.disarmWrite, UInt64.and_comm] at hs
    obtain ⟨hreg, rfl⟩ := rewatch_eq_ok.mp hs
    obtain ⟨i, hi⟩ := Option.isSome_iff_exists.mp hreg
    have hbits : ~~~Epoll.epollout &&& Epoll.epollin = Epoll.epollin := by decide
    refine ⟨rfl, rfl, ?_⟩
    rw [watches, watches, hi]
    exact congrArg some (watches_rewatch (h.interest i hi) hbits)

/-- **The stream watcher.** In every state the interest is the mask, the handlers were called while
their direction was armed and for events of theirs, and disarming one direction leaves the other
alone, exactly if, whenever the dispatcher gets to a direction that is armed and has a handler, the
event is one for that direction. -/
theorem dispatches_iff_eventFits (junk : Option H) (as : List (Act H)) :
    Machine.Always step Dispatches (new junk) as ↔ Machine.Along step EventFits (new junk) as := by
  have htrue : Machine.Along step (fun (_ : RtorStream H) (_ : Act H) => True) (new junk) as :=
    Machine.along_of_forall fun _ _ _ => trivial
  refine Machine.always_iff_along_within
    (fun s a s' h _ hq hs _ => (due_step h hq.calls hs).1) (fun s a s' h _ hq hs => ?_)
    (fun s a e h _ _ hs => eventFits_of_error h hs) (new_coherent junk)
    ((new_coherent junk).dispatches_iff.mpr nofun) htrue
  obtain ⟨hcoh, hiff⟩ := due_step h hq.calls hs
  exact hcoh.dispatches_iff.trans hiff

/-- Both directions are armed, and the socket becomes writable. -/
def writable : List (Act Unit) :=
  [.register, .armRead (some ()), .armWrite (some ()), .event Epoll.epollout.toUInt64]

/-- `read_evhandler` is called for an event that is `EPOLLOUT` alone. -/
theorem not_dispatches_writable :
    (Machine.run step (new none) writable).map calls =
        .ok [⟨.read, Epoll.epollout.toUInt64, true⟩] ∧
      ¬ Machine.Always step Dispatches (new none) writable := by
  have hrun : (Machine.run step (new none) writable).map calls =
      .ok [⟨.read, Epoll.epollout.toUInt64, true⟩] := by decide +kernel
  refine ⟨hrun, fun hall => ?_⟩
  obtain ⟨s, hs, hcalls⟩ := Except.map_eq_ok.mp hrun
  have hdue := (hall.last hs).calls ⟨.read, Epoll.epollout.toUInt64, true⟩
    (by rw [hcalls]; exact List.mem_singleton_self _)
  exact absurd (by decide) hdue.2

end RtorStream

end CHttp
