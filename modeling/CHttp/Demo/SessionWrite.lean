import CHttp.Demo.SessionRead

/-!
# The write sequence of a demo connection

`WriteSide.Inv` says where the replies are: on the wire, in the output buffer or on the list.
-/

namespace CHttp

namespace DemoSession

variable {s : DemoSession}

/-- The frames of messages, one after another. -/
def wire (ms : List DemoMessage) : List UInt8 :=
  ms.flatMap fun m => DemoMessage.frame m.opcode m.body.data

/-- Where the write sequence is, when the replies `taken` were taken off the list: nothing is to be
done; or the last one is being written, and `rest` of it is in the buffer; or its write has
completed and the callback is posted; or its write has failed. -/
inductive WriteSide.Phase (w : WriteSide) (taken : List DemoMessage) : Prop
  | quiet (hs : w.writeState = .idle) (ha : w.activeResponse = none) (hw : w.writers = 0)
      (hc : w.callCbs = 0) (hsent : w.sent = wire taken)
  | sending (iob : IOBuffer) (rest : List UInt8) (hs : w.writeState ≠ .stop)
      (ha : w.activeResponse.isSome = true)
      (hw : w.writers + (if w.writeState = .eagained then 1 else 0) = 1) (hc : w.callCbs = 0)
      (hcb : w.onWriteCb = true) (hbuf : w.activeOutputBuffer = some iob) (hiob : iob.Holds rest)
      (hne : rest ≠ []) (hsent : w.sent ++ rest = wire taken)
  | complete (hs : w.writeState = .idle) (ha : w.activeResponse.isSome = true) (hw : w.writers = 0)
      (hc : w.callCbs = 1) (hcb : w.onWriteCb = true) (hsent : w.sent = wire taken)
  | failed (hs : w.writeState = .stop) (ha : w.activeResponse = none) (hw : w.writers = 0)
      (hc : w.callCbs = 0) (hsent : w.sent <+: wire taken)

/-- The invariant of the write sequence: the replies are those taken off the list and those still on
it. -/
structure WriteSide.Inv (w : WriteSide) : Prop where
  valid : ∀ m ∈ w.replies, m.body.Valid ∧ m.opcode = false
  phase : ∃ taken, w.replies = taken ++ w.outputList ∧ w.Phase taken

/-- A reply more on the list. -/
theorem WriteSide.Inv.reply {w : WriteSide} (h : w.Inv) {m : DemoMessage} (hv : m.body.Valid)
    (hop : m.opcode = false) : (w.reply m).Inv := by
  obtain ⟨taken, heq, hphase⟩ := h.phase
  refine ⟨fun m' hm' => ?_, taken, ?_, ?_⟩
  · rcases List.mem_append.mp hm' with hold | hnew
    · exact h.valid m' hold
    · rw [List.mem_singleton.mp hnew]
      exact ⟨hv, hop⟩
  · rw [WriteSide.reply, heq, List.append_assoc]
  · cases hphase with
    | quiet hs ha hw hc hsent => exact .quiet hs ha hw hc hsent
    | sending iob rest hs ha hw hc hcb hbuf hiob hne hsent =>
      exact .sending iob rest hs ha hw hc hcb hbuf hiob hne hsent
    | complete hs ha hw hc hcb hsent => exact .complete hs ha hw hc hcb hsent
    | failed hs ha hw hc hsent => exact .failed hs ha hw hc hsent

/-- The connection is closed if one of its sequences has stopped, and only then. -/
def Tidy (s : DemoSession) : Prop :=
  s.Closing ↔ s.readState = .stop ∨ s.writeState = .stop

/-- A function of the write sequence has run: the read sequence is as it was. -/
structure Writes (s s' : DemoSession) : Prop where
  inv : s'.writeSide.Inv
  readSide : s'.readSide = s.readSide
  tidy : s.Tidy → s'.Tidy

/-- A function that neither stops the writing nor has the connection closed. -/
theorem Writes.of_closing {s s' : DemoSession} (hinv : s'.writeSide.Inv)
    (hr : s'.readSide = s.readSide) (hc : s'.Closing ↔ s.Closing)
    (hw : s'.writeState = .stop ↔ s.writeState = .stop) : Writes s s' := by
  refine ⟨hinv, hr, fun htidy => ?_⟩
  have hstate : s'.readState = s.readState := congrArg ReadSide.readState hr
  rw [Tidy, hc, hw, hstate]
  exact htidy

/-- The last reply of `taken` is being written, and nothing of the write sequence is posted. -/
structure Sending (s : DemoSession) (taken : List DemoMessage) (iob : IOBuffer)
    (rest : List UInt8) : Prop where
  valid : ∀ m ∈ s.replies, m.body.Valid ∧ m.opcode = false
  replies : s.replies = taken ++ s.outputList
  state : s.writeState ≠ .stop
  response : s.activeResponse.isSome = true
  writers : s.writeSide.writers = 0
  callCbs : s.writeSide.callCbs = 0
  callback : s.onWriteCb = true
  buffer : s.activeOutputBuffer = some iob
  holds : iob.Holds rest
  some : rest ≠ []
  sent : s.sent ++ rest = wire taken

variable {taken : List DemoMessage} {iob : IOBuffer} {rest : List UInt8}

/-- `on_write_complete_cb` may start a write, which the two sequences do not count. -/
theorem onWriteCompleteCb_spec (s : DemoSession) :
    s.onWriteCompleteCb.readSide = s.readSide ∧
      s.onWriteCompleteCb.writeSide = { s.writeSide with activeResponse := none } ∧
      (s.onWriteCompleteCb.Closing ↔ s.Closing) := by
  rw [onWriteCompleteCb]
  split
  · rw [readSide_post, writeSide_post, closing_post]
    refine ⟨rfl, rfl, ?_⟩
    simp [Closing]
  · exact ⟨rfl, rfl, Iff.rfl⟩

/-- `write_error`. -/
theorem writeError_spec (h : s.Sending taken iob rest) :
    ∃ s', s.writeError = .ok s' ∧ Writes s s' := by
  let stopped : DemoSession := { s with writeState := .stop }
  obtain ⟨hr, hw, hc⟩ := onWriteCompleteCb_spec stopped
  let failed : DemoSession := { stopped.onWriteCompleteCb with onWriteCb := false }
  have hfailed : failed.writeSide = { stopped.writeSide with
      activeResponse := none, onWriteCb := false } := by
    change { stopped.onWriteCompleteCb.writeSide with onWriteCb := false } = _
    rw [hw]
  refine ⟨failed.post .postableCleanup, ?_, ⟨?_, taken, ?_, ?_⟩, ?_, fun _ => ?_⟩
  · simp [writeError, callWriteCb, h.callback, stopped, failed]
  · rw [writeSide_post, hfailed]
    exact h.valid
  · rw [writeSide_post, hfailed]
    exact h.replies
  · rw [writeSide_post, hfailed]
    exact .failed rfl rfl h.writers h.callCbs ⟨rest, h.sent⟩
  · rw [readSide_post]
    exact hr
  · have hstop : (failed.post .postableCleanup).writeState = .stop := by
      exact congrArg WriteSide.writeState hfailed
    simp [Tidy, hstop]

/-- `writer`, after `send` has taken something. -/
theorem sentSome_spec (h : s.Sending taken iob rest) (n : ℕ) :
    ∃ s', s.sentSome iob (rest.take n) = .ok s' ∧ Writes s s' := by
  obtain ⟨iob', hconsume, hholds⟩ := IOBuffer.consume_spec h.holds (List.length_take_le' n rest)
  have hsplit : s.sent ++ rest.take n ++ rest.drop n = wire taken := by
    rw [List.append_assoc, List.take_append_drop, h.sent]
  have hdrop : rest.drop (rest.take n).length = rest.drop n := by
    rw [List.length_take]
    rcases Nat.le_total n rest.length with hle | hle
    · rw [Nat.min_eq_left hle]
    · rw [Nat.min_eq_right hle, List.drop_length, List.drop_eq_nil_of_le hle]
  rw [hdrop] at hholds
  simp only [sentSome, hconsume, Except.ok_bind]
  by_cases hzero : iob'.dataLen = 0
  · have hnil : rest.drop n = [] :=
      List.length_eq_zero_iff.mp (hholds.remaining.symm.trans hzero)
    rw [hnil, List.append_nil] at hsplit
    rw [if_pos hzero]
    refine ⟨_, rfl, .of_closing ?_ ?_ ?_ ?_⟩
    · rw [writeSide_post]
      exact ⟨h.valid, taken, h.replies, .complete rfl h.response h.writers
        (congrArg (· + 1) h.callCbs) h.callback hsplit⟩
    · rw [readSide_post]
      rfl
    · simp [Closing, post]
    · simp [post, h.state]
  · rw [if_neg hzero]
    have hne : rest.drop n ≠ [] := by
      intro hnil
      rw [hnil] at hholds
      exact hzero hholds.remaining
    refine ⟨_, rfl, .of_closing ?_ ?_ ?_ ?_⟩
    · rw [writeSide_post]
      exact ⟨h.valid, taken, h.replies, .sending iob' _ DemoWriteState.noConfusion h.response
        (congrArg (· + 1) h.writers) h.callCbs h.callback rfl hholds hne hsplit⟩
    · rw [readSide_post]
      rfl
    · simp [Closing, post]
    · simp [post, h.state]

/-- `writer`, in the idle state. -/
theorem writer_spec (h : s.Sending taken iob rest) (result : DemoSend) :
    ∃ s', s.writer result = .ok s' ∧ Writes s s' := by
  rw [writer, h.buffer]
  cases result with
  | sent n =>
    simp only [h.holds.data_eq]
    by_cases hnil : rest.take n = []
    · rw [if_pos hnil]
      exact writeError_spec h
    · rw [if_neg hnil]
      exact sentSome_spec h n
  | eagain =>
    refine ⟨_, rfl, .of_closing ⟨h.valid, taken, h.replies, ?_⟩ rfl Iff.rfl ?_⟩
    · exact .sending iob rest DemoWriteState.noConfusion h.response
        (congrArg (· + 1) h.writers) h.callCbs h.callback rfl h.holds h.some h.sent
    · simp [h.state]
  | error => exact writeError_spec h

/-- `write_epollout`. -/
theorem writeEpollout_spec (h : s.writeSide.Inv) : Writes s s.writeEpollout := by
  by_cases hs : s.writeState = .eagained
  · rw [writeEpollout, if_pos hs]
    refine .of_closing ?_ ?_ ?_ ?_
    · obtain ⟨hvalid, taken, heq, hphase⟩ := h
      rw [writeSide_post]
      refine ⟨hvalid, taken, heq, ?_⟩
      cases hphase with
      | sending iob rest _ ha hw hc hcb hbuf hiob hne hsent =>
        have hs' : s.writeSide.writeState = .eagained := hs
        rw [if_pos hs'] at hw
        exact .sending iob rest DemoWriteState.noConfusion ha hw hc hcb hbuf hiob hne hsent
      | quiet hs' => cases hs.symm.trans hs'
      | complete hs' => cases hs.symm.trans hs'
      | failed hs' => cases hs.symm.trans hs'
    · rw [readSide_post]
      rfl
    · simp [Closing, post]
    · simp [post, hs]
  · rw [writeEpollout, if_neg hs]
    exact .of_closing h rfl Iff.rfl Iff.rfl

/-- `postable_write_call_cb`. -/
theorem writeCallCb_spec (hvalid : ∀ m ∈ s.replies, m.body.Valid ∧ m.opcode = false)
    (hreplies : s.replies = taken ++ s.outputList) (hs : s.writeState = .idle)
    (hw : s.writeSide.writers = 0) (hc : s.writeSide.callCbs = 0) (hcb : s.onWriteCb = true)
    (hsent : s.sent = wire taken) : ∃ s', s.postableWriteCallCb = .ok s' ∧ Writes s s' := by
  obtain ⟨hr, hside, hclosing⟩ := onWriteCompleteCb_spec s
  have hstate : s.onWriteCompleteCb.writeState = s.writeState :=
    congrArg WriteSide.writeState hside
  refine ⟨s.onWriteCompleteCb, ?_, .of_closing ?_ hr hclosing (by rw [hstate])⟩
  · simp [postableWriteCallCb, hcb]
  · rw [hside]
    exact ⟨hvalid, taken, hreplies, .quiet hs rfl hw hc hsent⟩

/-- `democonnection_write` of the reply at the head of the list, with the connection idle. -/
theorem writeStart_spec (junk : ByteMemory)
    (hvalid : ∀ m ∈ s.replies, m.body.Valid ∧ m.opcode = false) {m : DemoMessage}
    {later : List DemoMessage} (hlist : s.outputList = m :: later)
    (hreplies : s.replies = taken ++ s.outputList) (hs : s.writeState = .idle)
    (ha : s.activeResponse = none) (hw : s.writeSide.writers = 0) (hc : s.writeSide.callCbs = 0)
    (hsent : s.sent = wire taken) : ∃ s', s.postableWriteStart junk = .ok s' ∧ Writes s s' := by
  rw [hlist] at hreplies
  obtain ⟨hv, -⟩ := hvalid m (by rw [hreplies]; simp)
  obtain ⟨iob, hser, hholds⟩ := DemoMessage.serialize_spec junk hv
  let started : DemoSession := { s with
    outputList := later
    activeResponse := some m
    onWriteCb := true
    activeOutputBuffer := some iob }
  refine ⟨started.post .postableWriter, ?_, .of_closing ?_ ?_ ?_ Iff.rfl⟩
  · simp [postableWriteStart, ha, hlist, democonnectionWrite, hs, hser, started]
  · rw [writeSide_post]
    refine ⟨hvalid, taken ++ [m], ?_, .sending iob _ ?_ rfl ?_ hc rfl rfl hholds ?_ ?_⟩
    · change s.replies = _
      rw [hreplies, List.append_assoc]
      rfl
    · change s.writeState ≠ _
      rw [hs]
      decide
    · change s.writeSide.writers + 1 + (if s.writeState = .eagained then 1 else 0) = 1
      simp [hw, hs]
    · simp [DemoMessage.frame]
    · change s.sent ++ _ = _
      simp [hsent, wire]
  · rw [readSide_post]
    rfl
  · simp [started, Closing, post]

end DemoSession

end CHttp
