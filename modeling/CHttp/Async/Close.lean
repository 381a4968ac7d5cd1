import CHttp.Async.Write

/-!
# Responses marked `close`

`async_handler_handle_response` marks a response with `CONNECTION: close` unless the request asked
for keep-alive, and the server is said to respect the header. But what follows the end of a write is
decided by `handle_write_complete`, which does not know how the response was marked: it reads the
next request. So the connection ends after a response marked `close` only if that next read ends it.

`closeHonoured_iff` gives the exact condition along a run.
-/

namespace CHttp

namespace World

variable {L : Llhttp}

/-- All bytes of the response were accepted. -/
def FullySent (w : World L) (a : Answer) : Prop :=
  ∃ iob, a.response.serialize w.memory = .ok iob ∧ a.accepted = iob.data

/-- The mark is honoured: once a response marked `close` is fully sent no further request is handed
over, and as soon as the end of the write has been reported to the handler a close is posted. -/
def CloseHonoured (w : World L) : Prop :=
  ∀ a ∈ w.answers, a.closes = true → w.FullySent a →
    w.handed.length = a.handedBefore ∧
      (a.completions = 0 ∧ w.readyList = [.postableWriteComplete] ∨ w.closesPosted = 1)

/-- A call of `reader` that does not end the connection: there is nothing to read yet, or the parser
takes the bytes (it wants more of them, has a complete message, or reports an error that `reader`
does not look at because `errno` held `EAGAIN`). -/
def ReadsOn (v : World L) (io : Io) : Prop :=
  io.recv = .fail eagain ∨ ∃ bs ll p slot ec, io.recv = .got bs ∧ bs ≠ [] ∧
    v.consumes (v.recvBytes bs) = .ok (ll, (p, slot), ec) ∧
    (slot.isSome ∨ io.errno = eagain ∨ ec = .ok)

/-- When the handler is told that a response marked `close` was sent, the read that follows ends the
connection. -/
def EndsAfterClose (w : World L) (act : Act) : Prop :=
  ∀ io a, act = .run io → w.readyList = [.postableWriteComplete] → w.answers.head? = some a →
    a.closes = true → ¬ w.completed.ReadsOn io

/-! ### The read after a response -/

/-- A read closes the connection exactly when it does not read on. -/
theorem ReadOutcome.closing_iff {v w' : World L} {io : Io} {st : Stage} (hv : v.Reads)
    (ho : ReadOutcome v io st w') : st = .closing ↔ ¬ v.ReadsOn io := by
  simp only [ReadsOn, recvBytes_eq hv]
  cases ho with
  | message hrecv hne _ hparse =>
    exact iff_of_false nofun
      (not_not.mpr (Or.inr ⟨_, _, _, _, _, hrecv, hne, hparse, Or.inl rfl⟩))
  | stale hrecv hne _ hparse herrno =>
    exact iff_of_false nofun
      (not_not.mpr (Or.inr ⟨_, _, _, _, _, hrecv, hne, hparse, Or.inr (Or.inl herrno)⟩))
  | more hrecv hne _ hparse _ =>
    exact iff_of_false nofun
      (not_not.mpr (Or.inr ⟨_, _, _, _, _, hrecv, hne, hparse, Or.inr (Or.inr rfl)⟩))
  | again hrecv => exact iff_of_false nofun (not_not.mpr (Or.inl hrecv))
  | rejected hrecv _ _ hparse herrno =>
    refine iff_of_true rfl ?_
    rintro (hrecv' | ⟨bs', ll', p', slot, ec, hrecv', -, hparse', hon⟩)
    · cases hrecv.symm.trans hrecv'
    · cases hrecv.symm.trans hrecv'
      cases hparse.symm.trans hparse'
      simp [herrno] at hon
  | eof hrecv =>
    refine iff_of_true rfl ?_
    rintro (hrecv' | ⟨bs', ll', p', slot, ec, hrecv', hne', -⟩)
    · cases hrecv.symm.trans hrecv'
    · cases hrecv.symm.trans hrecv'
      exact hne' rfl
  | broken hrecv he =>
    refine iff_of_true rfl ?_
    rintro (hrecv' | ⟨bs', ll', p', slot, ec, hrecv', -⟩)
    · cases hrecv.symm.trans hrecv'
      exact he rfl
    · cases hrecv.symm.trans hrecv'

/-- A read that stops the process does not read on. -/
theorem not_readsOn_of_error {v : World L} {io : Io} {e : Fault} (hv : v.Reads)
    (he : v.reader io = .error e) : ¬ v.ReadsOn io := by
  obtain ⟨w', hw, -⟩ | ⟨abort, bs, hrecv, -, hparse, -⟩ := reader_spec hv io
  · cases hw.symm.trans he
  · rintro (hrecv' | ⟨bs', ll, p, slot, ec, hrecv', -, hparse', -⟩)
    · cases hrecv.symm.trans hrecv'
    · cases hrecv.symm.trans hrecv'
      rw [recvBytes_eq hv] at hparse'
      cases hparse.symm.trans hparse'

/-- A read answers nothing. -/
theorem ReadOutcome.responds {v w' : World L} {io : Io} {st : Stage}
    (ho : ReadOutcome v io st w') : st.responds = false := by
  cases ho <;> rfl

private theorem ReadOutcome.handed_eq {v w' : World L} {io : Io} {st : Stage}
    (ho : ReadOutcome v io st w') : w'.handed = v.handed := by
  cases ho <;> rfl

/-! ### Counting the requests -/

/-- The newest response was made for the newest request handed over. -/
def Counted (st : Stage) (w : World L) : Prop :=
  st.responds = true → ∀ a, w.answers.head? = some a → a.handedBefore = w.handed.length

private theorem counted_of_responds {w : World L} {st : Stage} (h : st.responds = false) :
    Counted st w :=
  fun hst => by
    rw [h] at hst
    cases hst

/-- A note changes the newest response. -/
theorem head?_noteAnswer (w : World L) (f : Answer → Answer) :
    (w.noteAnswer f).answers.head? = w.answers.head?.map f := by
  cases h : w.answers <;> simp [noteAnswer, h]

/-- What a note keeps of a response holds of all of them after it. -/
theorem forall_noteAnswer {w : World L} {f : Answer → Answer} {P : Answer → Prop}
    (h : ∀ a ∈ w.answers, P a) (hf : ∀ a, P a → P (f a)) : ∀ a ∈ (w.noteAnswer f).answers, P a := by
  cases hans : w.answers with
  | nil => simp [noteAnswer, hans]
  | cons b older =>
    intro a ha
    have ha' : a = f b ∨ a ∈ older := by simpa [noteAnswer, hans] using ha
    rcases ha' with rfl | ha'
    · exact hf b (h b (by simp [hans]))
    · exact h a (by simp [hans, ha'])

/-- `writer` changes nothing that is counted. -/
theorem WriteOutcome.counted {w w' : World L} {io : Io} {s : List UInt8} {st : Stage}
    (hc : Counted .writing w) (ho : WriteOutcome { w with readyList := [] } io s st w') :
    Counted st w' := by
  have hnote : ∀ {f : Answer → Answer}, (∀ a, (f a).handedBefore = a.handedBefore) →
      ∀ a, (w.noteAnswer f).answers.head? = some a → a.handedBefore = w.handed.length := by
    intro f hf a ha
    rw [head?_noteAnswer] at ha
    obtain ⟨b, hb, rfl⟩ := Option.map_eq_some_iff.mp ha
    rw [hf b]
    exact hc rfl b hb
  cases ho with
  | done _ _ _ => exact fun _ => hnote fun _ => rfl
  | part _ _ _ _ => exact fun _ => hnote fun _ => rfl
  | again _ => exact hc
  | broken _ => exact counted_of_responds rfl

theorem Move.counted {w w' : World L} {st st' : Stage} {act : Act} (hc : Counted st w)
    (hm : Move w st act st' w') : Counted st' w' := by
  cases hm with
  | stay _ => exact hc
  | accept ho => exact counted_of_responds ho.responds
  | epollin _ => exact counted_of_responds rfl
  | epollout _ => exact hc
  | read ho => exact counted_of_responds ho.responds
  | keep _ _ => exact counted_of_responds rfl
  | reply _ _ _ =>
    rintro _ a ⟨⟩
    rfl
  | appPost => exact counted_of_responds rfl
  | lateReply _ _ =>
    rintro _ a ⟨⟩
    rfl
  | write _ _ _ ho => exact ho.counted hc
  | complete ho => exact counted_of_responds ho.responds
  | close => exact counted_of_responds rfl

/-! ### One step -/

/-- The responses reported so far are not marked `close`. -/
def NoneReported (w : World L) : Prop := ∀ a ∈ w.answers, a.completions = 1 → a.closes = false

/-- A move that reports nothing. -/
theorem Move.noneReported {w w' : World L} {st st' : Stage} {act : Act} (hn : w.NoneReported)
    (hst : st ≠ .written) (hm : Move w st act st' w') : w'.NoneReported := by
  cases hm with
  | stay _ => exact hn
  | accept ho =>
    unfold NoneReported
    rw [ho.answers_eq]
    exact hn
  | epollin _ => exact hn
  | epollout _ => exact hn
  | read ho =>
    unfold NoneReported
    rw [ho.answers_eq]
    exact hn
  | keep _ _ => exact hn
  | reply _ _ _ => exact List.forall_mem_cons.mpr ⟨nofun, hn⟩
  | appPost => exact hn
  | lateReply _ _ => exact List.forall_mem_cons.mpr ⟨nofun, hn⟩
  | write _ _ _ ho =>
    cases ho with
    | done _ _ _ => exact forall_noteAnswer (w := w) hn fun _ h => h
    | part _ _ _ _ => exact forall_noteAnswer (w := w) hn fun _ h => h
    | again _ => exact hn
    | broken _ => exact forall_noteAnswer (w := w) hn fun _ h => h
  | complete _ => exact absurd rfl hst
  | close => exact hn

/-- A response is fully sent when nothing of it is left. -/
theorem fullySent_iff {w : World L} {a : Answer} {rest : List UInt8} {n : ℕ} {failed : Bool}
    (h : a.Stands w.memory rest n failed) : w.FullySent a ↔ rest = [] := by
  obtain ⟨iob, hser, hdata⟩ := h.bytes
  constructor
  · rintro ⟨iob', hser', hdata'⟩
    cases hser.symm.trans hser'
    rw [hdata, List.self_eq_append_right] at hdata'
    exact hdata'
  · rintro rfl
    exact ⟨iob, hser, by rw [hdata, List.append_nil]⟩

/-- A response was sent and reported, was sent and is to be reported, or is not fully sent. -/
theorem Ledger.answer_cases {w : World L} {st : Stage} (h : Coherent st w) (hl : Ledger w st)
    {a : Answer} (ha : a ∈ w.answers) :
    a.completions = 1 ∧ w.FullySent a ∨
      a.completions = 0 ∧ w.FullySent a ∧ st = .written ∧ w.answers.head? = some a ∨
      a.completions = 0 ∧ ¬ w.FullySent a := by
  have hold : ∀ {as}, w.Settled as → a ∈ as → a.completions = 1 ∧ w.FullySent a := fun has ha =>
    ⟨(has a ha).completions, (fullySent_iff (has a ha)).mpr rfl⟩
  cases hl with
  | settled _ hs => exact Or.inl (hold hs ha)
  | sending hst hout hb hs hs' =>
    rw [hb, List.mem_cons] at ha
    rcases ha with rfl | ha
    · refine Or.inr (Or.inr ⟨hs.completions, ?_⟩)
      obtain ⟨iob', s, hout', hiob, hne⟩ := h.output hst
      cases hout.symm.trans hout'
      rwa [fullySent_iff hs, hiob.data_eq]
    · exact Or.inl (hold hs' ha)
  | sent hb hs hs' =>
    have hhead := congrArg List.head? hb
    rw [hb, List.mem_cons] at ha
    rcases ha with rfl | ha
    · exact Or.inr (Or.inl ⟨hs.completions, (fullySent_iff hs).mpr rfl, rfl, hhead⟩)
    · exact Or.inl (hold hs' ha)
  | failed _ hb hrest hs hs' =>
    rw [hb, List.mem_cons] at ha
    rcases ha with rfl | ha
    · exact Or.inr (Or.inr ⟨hs.completions, by rwa [fullySent_iff hs]⟩)
    · exact Or.inl (hold hs' ha)

/-- With no close posted, honouring the mark means that none was reported. -/
theorem CloseHonoured.noneReported {w : World L} {st : Stage} (h : Coherent st w)
    (hl : Ledger w st) (hcl : st.closes = 0) (hq : w.CloseHonoured) : w.NoneReported := by
  intro a ha hone
  obtain ⟨-, hsent⟩ | ⟨hzero, -⟩ | ⟨hzero, -⟩ := hl.answer_cases h ha
  · by_contra hcloses
    obtain ⟨-, ⟨hzero, -⟩ | hposted⟩ := hq a ha (by simpa using hcloses) hsent
    · rw [hone] at hzero
      cases hzero
    · rw [h.closesPosted, hcl] at hposted
      cases hposted
  · rw [hone] at hzero
    cases hzero
  · rw [hone] at hzero
    cases hzero

/-- When none was reported the mark is honoured so far. -/
theorem NoneReported.closeHonoured {w : World L} {st : Stage} (h : Coherent st w)
    (hl : Ledger w st) (hc : Counted st w) (hn : w.NoneReported) : w.CloseHonoured := by
  intro a ha hcloses hsent
  obtain ⟨hone, -⟩ | ⟨hzero, -, rfl, hhead⟩ | ⟨-, hnot⟩ := hl.answer_cases h ha
  · rw [hn a ha hone] at hcloses
    cases hcloses
  · exact ⟨(hc rfl a hhead).symm, Or.inl ⟨hzero, h.readyList⟩⟩
  · exact absurd hsent hnot

/-- The report that a response was sent, and the read it starts. -/
theorem closeHonoured_complete {w w' : World L} {st' : Stage} {io : Io} (h : Coherent .written w)
    (hl : Ledger w .written) (hc : Counted .written w) (hq : w.CloseHonoured)
    (ho : ReadOutcome w.completed io st' w') : w'.CloseHonoured ↔ w.EndsAfterClose (.run io) := by
  have hm : Move w .written (.run io) st' w' := .complete ho
  have hnone := hq.noneReported h hl rfl
  have hclosing := ho.closing_iff h.completed.toReads
  cases hl with
  | settled hst _ => cases hst
  | sending hst _ _ _ _ => cases hst
  | failed hst _ _ _ _ => simp at hst
  | @sent a older ha hs hold =>
    have hl : Ledger w .written := .sent ha hs hold
    have hhead : w.answers.head? = some a := congrArg List.head? ha
    have hans : w'.answers = { a with completions := a.completions + 1 } :: older := by
      rw [ho.answers_eq]
      simp [completed, noteAnswer, ha]
    have hposted : w'.closesPosted = 1 ↔ st' = .closing := by
      rw [(hm.coherent h).closesPosted]
      cases ho <;> simp [Stage.closes]
    have hsent : w'.FullySent { a with completions := a.completions + 1 } := by
      have hmem : w'.memory = w.memory := by cases ho <;> rfl
      obtain ⟨iob, hser, hdata⟩ := (fullySent_iff hs).mpr rfl
      exact ⟨iob, hmem.symm ▸ hser, hdata⟩
    constructor
    -- A response that has been reported counts as honoured only with a close posted.
    · rintro hq' io' b ⟨⟩ - hb hcloses
      cases hhead.symm.trans hb
      rw [← hclosing, ← hposted]
      obtain ⟨-, ⟨hzero, -⟩ | hone⟩ := hq' { a with completions := a.completions + 1 }
        (by simp [hans]) hcloses hsent
      · cases hzero
      · exact hone
    · intro hp b hb hcloses hsent'
      rw [hans, List.mem_cons] at hb
      rcases hb with rfl | hb
      · have hend : st' = .closing := hclosing.mpr (hp io a rfl h.readyList hhead hcloses)
        refine ⟨?_, Or.inr (hposted.mpr hend)⟩
        rw [ho.handed_eq]
        exact (hc rfl a hhead).symm
      -- an older response marked `close` would have broken the property before
      · have hopen : b.closes = false :=
          hnone b (by simp [ha, hb]) (hold b hb).completions
        rw [hopen] at hcloses
        cases hcloses

/-- Outside the stage `written` the condition asks for nothing. -/
theorem endsAfterClose_of_ne {w : World L} {st : Stage} (h : Coherent st w) (hst : st ≠ .written)
    (act : Act) : w.EndsAfterClose act := by
  intro io a _ hlist
  rw [h.readyList] at hlist
  cases st <;> simp_all [Stage.readyList]

/-- One step keeps the mark honoured exactly when it ends the connection where it has to. -/
theorem closeHonoured_step {w w' : World L} {st st' : Stage} {act : Act} (h : Coherent st w)
    (hl : Ledger w st) (hc : Counted st w) (hq : w.CloseHonoured) (hm : Move w st act st' w') :
    w'.CloseHonoured ↔ w.EndsAfterClose act := by
  by_cases hst : st = .written
  · subst hst
    cases hm with
    | complete ho => exact closeHonoured_complete h hl hc hq ho
    | stay hi =>
      refine iff_of_true hq ?_
      rintro io a rfl
      cases hi
  · refine iff_of_true ?_ (endsAfterClose_of_ne h hst act)
    by_cases hcl : st.closes = 0
    -- no close posted: it is enough that no marked response has been reported
    · have hnone := hq.noneReported h hl hcl
      exact (hm.noneReported hnone hst).closeHonoured (hm.coherent h) (hm.ledger hl)
        (hm.counted hc)
    · cases hm with
      | stay _ => exact hq
      | close =>
        intro a ha hcloses hsent
        exact ⟨(hq a ha hcloses hsent).1, Or.inr h.closesPosted⟩
      | _ => simp [Stage.closes] at hcl

/-- The stage of a state, its responses and the count of its requests. -/
def AccountedFor (w : World L) : Prop := ∃ st, Coherent st w ∧ Ledger w st ∧ Counted st w

private theorem accountedFor_init (L : Llhttp) (heap : Heap) (memory : ByteMemory) :
    (init L heap memory).AccountedFor :=
  ⟨.embryo, init_coherent L heap memory, .settled rfl nofun, nofun⟩

private theorem accountedFor_step (w : World L) (a : Act) (w' : World L) (h : w.AccountedFor)
    (hs : w.step a = .ok w') : w'.AccountedFor := by
  obtain ⟨st, hst, hl, hc⟩ := h
  obtain ⟨st', hm⟩ := move_of_step hst hs
  exact ⟨st', hm.coherent hst, hm.ledger hl, hm.counted hc⟩

/-- **Responses marked `close`.** In a run every mark is honoured exactly when, each time the
handler is told that a response marked `close` was sent, the read that follows ends the
connection. -/
theorem closeHonoured_iff (L : Llhttp) (heap : Heap) (memory : ByteMemory) (as : List Act) :
    Machine.Always step CloseHonoured (init L heap memory) as ↔
      Machine.Along step EndsAfterClose (init L heap memory) as := by
  refine Machine.always_iff_along accountedFor_step ?_ ?_ (accountedFor_init L heap memory) nofun
  · rintro w a w' ⟨st, hst, hl, hc⟩ hq hs
    obtain ⟨st', hm⟩ := move_of_step hst hs
    exact closeHonoured_step hst hl hc hq hm
  · rintro w a e ⟨st, hst, -, -⟩ - he
    by_cases hwritten : st = .written
    · subst hwritten
      rintro io b rfl - - -
      rw [step_completed hst] at he
      exact not_readsOn_of_error hst.completed.toReads he
    · exact endsAfterClose_of_ne hst hwritten a

/-- A parser that finds the request `GET / HTTP/1.1`, without headers, in every buffer. -/
def bareRequests : Llhttp where
  State := Unit
  init := ()
  execute _ _ :=
    ((), [.messageBegin, .url (ascii "/"), .headersComplete 1 1 1, .messageComplete], .ok)
  finish _ := ((), [], .ok)

/-- Two bare requests, the second received after the response to the first was sent. -/
def secondAfterClose : List Act :=
  let request := ascii "GET / HTTP/1.1\r\n\r\n"
  let reply := { Message.new .zeros with statusCode := 200 }
  let io : Io := ⟨0, .got request, .accepted 1000, reply, true⟩
  [.accept io, .run io, .run io, .run io, .run io]

/-- A response to a request that did not ask for keep-alive is marked `close` and sent, and the next
request on the connection is handed over all the same. -/
theorem request_after_close :
    ¬ Machine.Always step CloseHonoured (init bareRequests (.const .zeros) fun _ => 0)
      secondAfterClose := by
  rintro ⟨-, -, -, -, -, h⟩
  have := h _ (List.mem_cons_of_mem _ List.mem_cons_self) rfl ⟨_, rfl, by decide⟩
  cases this.1

end World

end CHttp
