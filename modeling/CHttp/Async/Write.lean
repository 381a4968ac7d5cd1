import CHttp.Async.Invariant

/-!
# Responses on the wire

What the socket accepted for a response, followed by what is still in the output buffer, is at every
moment `Message_serialize` of the response. The `Ledger` says so stage by stage for the newest
response, and that the older ones were sent in full and reported once; each move keeps it. From it
follows what is promised for every response of every run.
-/

namespace CHttp

/-- How a response stands: `rest` of its bytes has not been accepted, `handle_write_complete` was
called `completions` times for it, and writing it has `failed` or not. -/
structure Answer.Stands (a : Answer) (memory : ByteMemory) (rest : List UInt8) (completions : ℕ)
    (failed : Bool) : Prop where
  bytes : ∃ iob, a.response.serialize memory = .ok iob ∧ iob.data = a.accepted ++ rest
  completions : a.completions = completions
  failed : a.failed = failed

/-- The newest response is on its way or about to be reported. -/
def Stage.responds : Stage → Bool
  | writing | blocked | written => true
  | _ => false

namespace World

variable {L : Llhttp}

/-- These responses were sent and reported. -/
def Settled (w : World L) (as : List Answer) : Prop := ∀ a ∈ as, a.Stands w.memory [] 1 false

/-- The responses of a connection in a stage. -/
inductive Ledger (w : World L) : Stage → Prop
  /-- No response is on its way. -/
  | settled {st} (hst : st.responds = false) (h : w.Settled w.answers) : Ledger w st
  /-- The newest one is being sent. -/
  | sending {st a older iob} (hst : st.writes = true)
      (hout : w.cref.activeOutputBuffer = some iob) (ha : w.answers = a :: older)
      (h : a.Stands w.memory iob.data 0 false) (hold : w.Settled older) : Ledger w st
  /-- The newest one was sent, which is to be reported. -/
  | sent {a older} (ha : w.answers = a :: older) (h : a.Stands w.memory [] 0 false)
      (hold : w.Settled older) : Ledger w .written
  /-- Sending the newest one failed. -/
  | failed {st a older rest} (hst : st = .closing ∨ st = .freed) (ha : w.answers = a :: older)
      (hrest : rest ≠ []) (h : a.Stands w.memory rest 0 true) (hold : w.Settled older) :
      Ledger w st

private theorem Ledger.settled_of {w : World L} {st : Stage} (h : Ledger w st)
    (hst : st.responds = false) (hcl : st.closes = 0) : w.Settled w.answers := by
  cases h with
  | settled _ h => exact h
  | sending hw _ _ _ _ => cases st <;> simp_all [Stage.responds, Stage.writes]
  | sent _ _ _ => cases hst
  | failed hend _ _ _ _ => rcases hend with rfl | rfl <;> cases hcl

/-- `reader` touches no response. -/
theorem ReadOutcome.ledger {w w' : World L} {io : Io} {st : Stage} (h : w.Settled w.answers)
    (ho : ReadOutcome w io st w') : Ledger w' st := by
  cases ho <;> exact .settled rfl h

/-- `writer` moves bytes from the output buffer to the socket. -/
theorem WriteOutcome.ledger {w w' : World L} {io : Io} {a : Answer} {older : List Answer}
    {iob : IOBuffer} {s : List UInt8} {st : Stage} (hout : w.cref.activeOutputBuffer = some iob)
    (hiob : iob.Holds s) (hs : s ≠ []) (ha : w.answers = a :: older)
    (h : a.Stands w.memory iob.data 0 false) (hold : w.Settled older)
    (ho : WriteOutcome { w with readyList := [] } io s st w') : Ledger w' st := by
  -- `hdata` is what is kept: accepted bytes followed by buffered ones are the whole response.
  obtain ⟨⟨buf, hbuf, hdata⟩, hcomp, hfail⟩ := h
  rw [hiob.data_eq] at hdata
  cases ho with
  | done hsend hs hn =>
    refine .sent (a := { a with accepted := a.accepted ++ s }) ?_
      ⟨⟨buf, hbuf, ?_⟩, hcomp, hfail⟩ hold
    · simp [post, noteAnswer, ha]
    · rw [hdata, List.append_nil]
  | @part n iob' hsend hpos hn hiob' =>
    refine .sending (a := { a with accepted := a.accepted ++ s.take n }) rfl rfl ?_
      ⟨⟨buf, hbuf, ?_⟩, hcomp, hfail⟩ hold
    · simp [post, noteAnswer, ha]
    · rw [hdata, hiob'.data_eq, List.append_assoc, List.take_append_drop]
  | again hsend =>
    exact .sending rfl hout ha ⟨⟨buf, hbuf, by rw [hdata, hiob.data_eq]⟩, hcomp, hfail⟩ hold
  | broken hsend =>
    refine .failed (a := { a with failed := true }) (Or.inl rfl) ?_ hs
      ⟨⟨buf, hbuf, hdata⟩, hcomp, rfl⟩ hold
    simp [writeError, postClose, post, noteAnswer, ha]

/-- A response starts with nothing accepted. -/
theorem ledger_answered {w : World L} {request response : Message} {iob : IOBuffer}
    (h : w.Settled w.answers)
    (hser : (markConnection request response).serialize w.memory = .ok iob) :
    Ledger (w.answered request response iob) .writing :=
  .sending rfl rfl rfl ⟨⟨iob, hser, rfl⟩, rfl, rfl⟩ h

/-- **Moves keep the ledger.** -/
theorem Move.ledger {w w' : World L} {st st' : Stage} {act : Act} (hl : Ledger w st)
    (hm : Move w st act st' w') : Ledger w' st' := by
  cases hm with
  | stay _ => exact hl
  | accept ho => exact ho.ledger (w := w.opened) (hl.settled_of rfl rfl)
  | epollin _ => exact .settled rfl (hl.settled_of rfl rfl)
  | epollout _ =>
    cases hl with
    | sending _ hout ha h hold => exact .sending rfl hout ha h hold
    | settled hst _ => cases hst
    | failed hst _ _ _ _ => simp at hst
  | read ho => exact ho.ledger (w := w.resumed) (hl.settled_of rfl rfl)
  | keep _ _ => exact .settled rfl (hl.settled_of rfl rfl)
  | reply _ _ hser => exact ledger_answered (hl.settled_of rfl rfl) hser
  | appPost => exact .settled rfl (hl.settled_of rfl rfl)
  | lateReply _ hser => exact ledger_answered (hl.settled_of rfl rfl) hser
  | write hout hiob hs ho =>
    cases hl with
    | sending _ hout' ha h hold =>
      cases hout.symm.trans hout'
      exact ho.ledger hout hiob hs ha h hold
    | settled hst _ => cases hst
    | failed hst _ _ _ _ => simp at hst
  | complete ho =>
    cases hl with
    | @sent a older ha h hold =>
      refine ho.ledger ?_
      -- the newest response joins the settled ones
      intro b hb
      have hb' : b = { a with completions := a.completions + 1 } ∨ b ∈ older := by
        simpa [completed, noteAnswer, ha] using hb
      rcases hb' with rfl | hb'
      · exact ⟨h.bytes, congrArg (· + 1) h.completions, h.failed⟩
      · exact hold b hb'
    | sending hst _ _ _ _ => cases hst
    | settled hst _ => cases hst
    | failed hst _ _ _ _ => simp at hst
  | close =>
    cases hl with
    | settled _ h => exact .settled rfl h
    | failed _ ha hrest h hold => exact .failed (Or.inr rfl) ha hrest h hold
    | sending hst _ _ _ _ => cases hst

/-- The state agrees with a stage, and so do the responses. -/
def Accounted (w : World L) : Prop := ∃ st, Coherent st w ∧ Ledger w st

private theorem accounted_init (L : Llhttp) (heap : Heap) (memory : ByteMemory) :
    (init L heap memory).Accounted :=
  ⟨.embryo, init_coherent L heap memory, .settled rfl nofun⟩

private theorem accounted_step (w : World L) (a : Act) (w' : World L) (h : w.Accounted)
    (hs : w.step a = .ok w') : w'.Accounted := by
  obtain ⟨st, hst, hl⟩ := h
  obtain ⟨st', hm⟩ := move_of_step hst hs
  exact ⟨st', hm.coherent hst, hm.ledger hl⟩

/-- The close is posted or done, and the responses are `as`. -/
def Ended (as : List Answer) (w : World L) : Prop :=
  (Coherent .closing w ∨ Coherent .freed w) ∧ w.answers = as

private theorem ended_step {as : List Answer} (w : World L) (a : Act) (w' : World L)
    (h : Ended as w)
    (hs : w.step a = .ok w') : Ended as w' := by
  obtain ⟨hc | hf, has⟩ := h
  · obtain ⟨st', hm⟩ := move_of_step hc hs
    have hc' := hm.coherent hc
    cases hm with
    | stay _ => exact ⟨Or.inl hc', has⟩
    | close => exact ⟨Or.inr hc', has⟩
  · obtain ⟨st', hm⟩ := move_of_step hf hs
    cases hm with
    | stay _ => exact ⟨Or.inr hf, has⟩

/-- Once a close is posted no response changes any more. -/
theorem answers_of_closing {w w' : World L} {as : List Act} {st : Stage} (h : Coherent st w)
    (hst : st = .closing ∨ st = .freed) (hr : Machine.run step w as = .ok w') :
    w'.answers = w.answers := by
  have hend : Ended w.answers w := by
    rcases hst with rfl | rfl
    · exact ⟨Or.inl h, rfl⟩
    · exact ⟨Or.inr h, rfl⟩
  exact (Machine.run_invariant ended_step hend hr).2

/-- The handler was told that the response is sent, or the functor that tells it is queued. -/
def Told (w : World L) (a : Answer) : Prop :=
  a.completions = 1 ∨
    a.completions = 0 ∧ w.answers.head? = some a ∧ w.readyList = [.postableWriteComplete]

/-- What is promised for a response: the socket has accepted a part of its bytes from the front;
`handle_write_complete` is called at most once, it is called or queued exactly when all bytes were
accepted, and a queued call is what the reactor runs next; after an error nothing more is accepted
and `handle_write_complete` is not called, now or later. -/
structure Delivered (w : World L) (a : Answer) : Prop where
  sent : ∃ iob, a.response.serialize w.memory = .ok iob ∧ a.accepted <+: iob.data ∧
    (w.Told a ↔ a.accepted = iob.data)
  once : a.completions ≤ 1
  next : w.answers.head? = some a → w.readyList = [.postableWriteComplete] →
    ∀ io w', w.step (.run io) = .ok w' → w'.answers.head? = some { a with completions := 1 }
  failed : a.failed = true → a.completions = 0 ∧
    ∀ as w', Machine.run step w as = .ok w' → w'.answers = w.answers

theorem ReadOutcome.answers_eq {w w' : World L} {io : Io} {st : Stage}
    (ho : ReadOutcome w io st w') : w'.answers = w.answers := by
  cases ho <;> rfl

/-- The queued report is the next call, and it is counted. -/
theorem Accounted.next {w w' : World L} (h : w.Accounted) {a : Answer} {io : Io}
    (ha : w.answers.head? = some a) (hq : w.readyList = [.postableWriteComplete])
    (hs : w.step (.run io) = .ok w') : w'.answers.head? = some { a with completions := 1 } := by
  obtain ⟨st, hst, hl⟩ := h
  have hwritten : st = .written := by
    rw [hst.readyList] at hq
    cases st <;> simp_all [Stage.readyList]
  subst hwritten
  obtain ⟨st', hm⟩ := move_of_step hst hs
  cases hl with
  | @sent b older hb h hold =>
    have hba : b = a := by simpa [hb] using ha
    subst hba
    cases hm with
    | complete ho => simp [ho.answers_eq, completed, noteAnswer, hb, h.completions]
    | stay hi => cases hi
  | settled hst _ => cases hst
  | sending hst _ _ _ _ => cases hst
  | failed hst _ _ _ _ => simp at hst

/-- From how a response stands to what is promised for it. -/
theorem Accounted.delivered_of_stands {w : World L} (h : w.Accounted) {a : Answer}
    {rest : List UInt8} {n : ℕ} {failed : Bool} (ha : a.Stands w.memory rest n failed) (hn : n ≤ 1)
    (htold : w.Told a ↔ rest = [])
    (hfail : failed = true → n = 0 ∧
      ∀ as w', Machine.run step w as = .ok w' → w'.answers = w.answers) : w.Delivered a where
  sent := by
    obtain ⟨iob, hser, hdata⟩ := ha.bytes
    refine ⟨iob, hser, ⟨rest, hdata.symm⟩, htold.trans ?_⟩
    rw [hdata, List.self_eq_append_right]
  once := ha.completions.trans_le hn
  next := fun hhead hq io w' hs => h.next hhead hq hs
  failed := by
    rw [ha.failed, ha.completions]
    exact hfail

theorem Accounted.delivered {w : World L} (h : w.Accounted) :
    ∀ a ∈ w.answers, w.Delivered a := by
  obtain ⟨st, hst, hl⟩ := id h
  have hsettled : ∀ {as}, w.Settled as → ∀ a ∈ as, w.Delivered a := fun has a ha =>
    h.delivered_of_stands (has a ha) le_rfl (iff_of_true (Or.inl (has a ha).completions) rfl) nofun
  -- A response that is neither reported nor about to be has bytes left.
  have hopen : ∀ {a : Answer}, a.completions = 0 → st ≠ .written → ¬ w.Told a := by
    rintro a ha hne (hone | ⟨-, -, hq⟩)
    · rw [ha] at hone
      cases hone
    · rw [hst.readyList] at hq
      cases st <;> simp_all [Stage.readyList]
  intro b hb
  cases hl with
  | settled _ hall => exact hsettled hall b hb
  | @sending _ a older iob hwrites hout ha hstands hold =>
    rw [ha, List.mem_cons] at hb
    rcases hb with rfl | hb
    · obtain ⟨iob', s, hout', hiob, hs⟩ := hst.output hwrites
      cases hout.symm.trans hout'
      have hne : st ≠ .written := by
        rintro rfl
        cases hwrites
      refine h.delivered_of_stands hstands zero_le_one
        (iff_of_false (hopen hstands.completions hne) ?_) nofun
      rwa [hiob.data_eq]
    · exact hsettled hold b hb
  | @sent a older ha hstands hold =>
    rw [ha, List.mem_cons] at hb
    rcases hb with rfl | hb
    · refine h.delivered_of_stands hstands zero_le_one (iff_of_true ?_ rfl) nofun
      exact Or.inr ⟨hstands.completions, by simp [ha], hst.readyList⟩
    · exact hsettled hold b hb
  | @failed _ a older rest hclosed ha hrest hstands hold =>
    rw [ha, List.mem_cons] at hb
    rcases hb with rfl | hb
    · have hne : st ≠ .written := by
        rintro rfl
        simp at hclosed
      exact h.delivered_of_stands hstands zero_le_one
        (iff_of_false (hopen hstands.completions hne) hrest)
        fun _ => ⟨rfl, fun as w' hr => answers_of_closing hst hclosed hr⟩
    · exact hsettled hold b hb

/-- **Delivery of responses.** In every state of every run, for every response. -/
theorem response_delivered (L : Llhttp) (heap : Heap) (memory : ByteMemory) (as : List Act) :
    Machine.Always step (fun w => ∀ a ∈ w.answers, w.Delivered a) (init L heap memory) as := by
  have hacc : Machine.Always step Accounted (init L heap memory) as :=
    Machine.always_invariant accounted_step (accounted_init L heap memory)
  exact hacc.mono fun w h => h.delivered

end World

end CHttp
