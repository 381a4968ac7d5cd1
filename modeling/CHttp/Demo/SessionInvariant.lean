import CHttp.Demo.SessionWrite

/-!
# The invariant of a demo connection

The invariant has two halves, one for each sequence. `Inv.ran` says what each posted function comes
to, and when it aborts.
-/

namespace CHttp

namespace DemoSession

variable {s : DemoSession} {f : DemoTask}

/-- The invariant of a connection. -/
structure Inv (s : DemoSession) : Prop where
  read : s.readSide.Inv
  write : s.writeSide.Inv
  tidy : s.Tidy

/-- When the next posted function aborts: the connection was freed; or a `send` was not the whole
write, and the write is tried again; or a write is started after one has failed. -/
inductive Fails (s : DemoSession) : DemoTask → Abort → Prop
  | freed (f : DemoTask) (h : s.freed = true) : Fails s f useAfterFree
  | writer (h : s.freed = false) (hs : s.writeState = .active) :
      Fails s .postableWriter
        ⟨"postable_writer", "cannot call write while write state is not idle"⟩
  | writeStart (h : s.freed = false) (hs : s.writeState = .stop) (hl : s.outputList ≠ []) :
      Fails s .postableWriteStart ⟨"democonnection_write", "a write is already active"⟩

/-- What the run of `f` comes to, from `popped`, which has it off the list. -/
inductive Ran (s popped : DemoSession) (f : DemoTask) : Except Abort DemoSession → Prop
  | reads {s' : DemoSession} (hc : s.codes = []) (hs : s.readState ≠ .stop)
      (hf : f ≠ .postableCleanup) (hw : popped.writeSide = s.writeSide) (h : Reads popped s') :
      Ran s popped f (.ok s')
  | writes {s' : DemoSession} (hf : f ≠ .postableCleanup) (hr : popped.readSide = s.readSide)
      (h : Writes popped s') : Ran s popped f (.ok s')
  | cleanup (hf : f = .postableCleanup) : Ran s popped f (.ok { popped with freed := true })
  | fails {e : Abort} (h : s.Fails f e) : Ran s popped f (.error e)

variable {rest : List DemoTask}

private theorem ran_reader (h : s.Inv) (hready : s.readyList = .postableReader :: rest)
    (io : DemoIo) :
    Ran s { s with readyList := rest } .postableReader
      (({ s with readyList := rest } : DemoSession).postableReader io) := by
  obtain ⟨u, v, hp, hphase⟩ := h.read
  rw [readSide_of_cons hready] at hp hphase
  cases hphase with
  | reading hs hcb hr hn hc =>
    obtain ⟨s', hs', hreads⟩ := reader_spec (s := { s with readyList := rest }) io
      ⟨hs, hcb, Nat.succ.inj hr, hn, hc⟩ ⟨hp.received, hp.input, hp.parser, hp.replies⟩
    rw [hs']
    have hs : s.readState = .active := hs
    refine .reads hc (by simp [hs]) (by simp) ?_ hreads
    rw [writeSide_of_cons hready]
    rfl
  | waiting _ _ hr => cases hr
  | between _ hr => cases hr
  | deaf _ hr => cases hr
  | stopped _ hr => cases hr

private theorem ran_readStart (h : s.Inv) (hready : s.readyList = .postableReadStart :: rest)
    (heap : DemoHeap) :
    Ran s { s with readyList := rest } .postableReadStart
      (({ s with readyList := rest } : DemoSession).democonnectionRead heap) := by
  obtain ⟨u, v, hp, hphase⟩ := h.read
  rw [readSide_of_cons hready] at hp hphase
  cases hphase with
  | between hs hr hn hc =>
    obtain ⟨s', hs', hreads⟩ := readStart_spec (s := { s with readyList := rest }) heap hs hr
      (Nat.succ.inj hn) hc ⟨hp.received, hp.input, hp.parser, hp.replies⟩
    rw [hs']
    have hs : s.readState = .idle := hs
    refine .reads hc (by simp [hs]) (by simp) ?_ hreads
    rw [writeSide_of_cons hready]
    rfl
  | reading _ _ _ hn => cases hn
  | waiting _ _ _ hn => cases hn
  | deaf _ _ hn => cases hn
  | stopped _ _ hn => cases hn

private theorem ran_writer (h : s.Inv) (hready : s.readyList = .postableWriter :: rest)
    (hfreed : s.freed = false) (result : DemoSend) :
    Ran s { s with readyList := rest } .postableWriter
      (({ s with readyList := rest } : DemoSession).postableWriter result) := by
  obtain ⟨hvalid, taken, hreplies, hphase⟩ := h.write
  rw [writeSide_of_cons hready] at hphase
  cases hphase with
  | sending iob part hs ha hw hc hcb hbuf hiob hne hsent =>
    have hbuf : s.activeOutputBuffer = some iob := hbuf
    have hstop : s.writeState ≠ .stop := hs
    by_cases hidle : s.writeState = .idle
    · have hwriters : ({ s with readyList := rest } : DemoSession).writeSide.writers = 0 := by
        simp only [WriteSide.post] at hw
        omega
      obtain ⟨s', hs', hwrites⟩ := writer_spec (s := { s with readyList := rest })
        ⟨hvalid, hreplies, hs, ha, hwriters, hc, hcb, hbuf, hiob, hne, hsent⟩ result
      have hcall : ({ s with readyList := rest } : DemoSession).postableWriter result = .ok s' := by
        simpa [postableWriter, hidle, hbuf] using hs'
      rw [hcall]
      refine .writes (by simp) ?_ hwrites
      rw [readSide_of_cons hready]
      rfl
    · have hactive : s.writeState = .active := by
        cases hstate : s.writeState with
        | idle => exact absurd hstate hidle
        | active => rfl
        | stop => exact absurd hstate hstop
        | eagained =>
          have hstate' : ({ s with readyList := rest } : DemoSession).writeSide.writeState =
            .eagained := hstate
          simp only [WriteSide.post, hstate', if_true] at hw
          omega
      have hcall : ({ s with readyList := rest } : DemoSession).postableWriter result =
          .error ⟨"postable_writer", "cannot call write while write state is not idle"⟩ := by
        simp [postableWriter, hactive, hbuf]
      rw [hcall]
      exact .fails (.writer hfreed hactive)
  | quiet _ _ hw => cases hw
  | complete _ _ hw => cases hw
  | failed _ _ hw => cases hw

private theorem ran_writeCallCb (h : s.Inv) (hready : s.readyList = .postableWriteCallCb :: rest) :
    Ran s { s with readyList := rest } .postableWriteCallCb
      (({ s with readyList := rest } : DemoSession).postableWriteCallCb) := by
  obtain ⟨hvalid, taken, hreplies, hphase⟩ := h.write
  rw [writeSide_of_cons hready] at hphase
  cases hphase with
  | complete hs ha hw hc hcb hsent =>
    obtain ⟨s', hs', hwrites⟩ := writeCallCb_spec (s := { s with readyList := rest }) hvalid
      hreplies hs hw (Nat.succ.inj hc) hcb hsent
    rw [hs']
    refine .writes (by simp) ?_ hwrites
    rw [readSide_of_cons hready]
    rfl
  | quiet _ _ _ hc => cases hc
  | sending _ _ _ _ _ hc => cases hc
  | failed _ _ _ hc => cases hc

/-- `postable_write_start`: nothing is to be started, or a write is, or one has failed before. -/
theorem writeStart_cases (h : s.writeSide.Inv) (junk : ByteMemory) :
    (∃ s', s.postableWriteStart junk = .ok s' ∧ Writes s s') ∨
      s.writeState = .stop ∧ s.outputList ≠ [] ∧
        s.postableWriteStart junk =
          .error ⟨"democonnection_write", "a write is already active"⟩ := by
  have hsame : Writes s s := .of_closing h rfl Iff.rfl Iff.rfl
  by_cases ha : s.activeResponse.isSome = true
  · exact .inl ⟨s, by rw [postableWriteStart, if_pos ha], hsame⟩
  have hnone : s.activeResponse = none := by simpa using ha
  by_cases hl : s.outputList = []
  · refine .inl ⟨s, ?_, hsame⟩
    have heq : { s with outputList := [], activeResponse := none } = s := by
      rw [← hnone, ← hl]
    simp [postableWriteStart, hnone, hl, heq]
  obtain ⟨m, later, hcons⟩ := List.exists_cons_of_ne_nil hl
  obtain ⟨hvalid, taken, hreplies, hphase⟩ := h
  cases hphase with
  | quiet hs _ hw hc hsent =>
    exact .inl (writeStart_spec junk hvalid hcons hreplies hs hnone hw hc hsent)
  | sending _ _ _ ha' => exact absurd ha' ha
  | complete _ ha' => exact absurd ha' ha
  | failed hs =>
    have hs : s.writeState = .stop := hs
    refine .inr ⟨hs, hl, ?_⟩
    simp [postableWriteStart, hnone, hcons, democonnectionWrite, hs]

private theorem ran_writeStart (h : s.Inv) (hready : s.readyList = .postableWriteStart :: rest)
    (hfreed : s.freed = false) (junk : ByteMemory) :
    Ran s { s with readyList := rest } .postableWriteStart
      (({ s with readyList := rest } : DemoSession).postableWriteStart junk) := by
  have hr : ({ s with readyList := rest } : DemoSession).readSide = s.readSide := by
    rw [readSide_of_cons hready]
    rfl
  have hwrite := h.write
  rw [writeSide_of_cons hready] at hwrite
  rcases writeStart_cases hwrite junk with ⟨s', hs', hwrites⟩ | ⟨hs, hl, hcall⟩
  · rw [hs']
    exact .writes (by simp) hr hwrites
  · rw [hcall]
    exact .fails (.writeStart hfreed hs hl)

/-- **A posted function**: one of the read sequence, or of the write sequence, or the cleanup, or it
aborts. -/
theorem Inv.ran {f : DemoTask} (h : s.Inv) (hready : s.readyList = f :: rest)
    (hfreed : s.freed = false) (io : DemoIo) :
    Ran s { s with readyList := rest } f
      (({ s with readyList := rest } : DemoSession).call io f) := by
  cases f with
  | postableReader => exact ran_reader h hready io
  | postableWriter => exact ran_writer h hready hfreed io.send
  | postableWriteCallCb => exact ran_writeCallCb h hready
  | postableCleanup => exact .cleanup rfl
  | postableWriteStart => exact ran_writeStart h hready hfreed io.heap.body
  | postableReadStart => exact ran_readStart h hready io.heap

/-- The invariant is kept. -/
theorem Ran.inv {f : DemoTask} {s' : DemoSession} (h : s.Inv) (hready : s.readyList = f :: rest)
    (hran : Ran s { s with readyList := rest } f (.ok s')) : s'.Inv := by
  have hclosing := fun hf => closing_of_cons (s := s) (f := f) hready hf
  cases hran with
  | reads hc hs hf hw hreads =>
    have hstate : s'.writeState = s.writeState := by
      rcases hreads.writeSide with heq | ⟨m, -, -, heq⟩
      · exact congrArg WriteSide.writeState (heq.trans hw)
      · exact congrArg WriteSide.writeState (heq.trans (congrArg (WriteSide.reply · m) hw))
    refine ⟨hreads.inv, ?_, ?_⟩
    · rcases hreads.writeSide with heq | ⟨m, hv, hop, heq⟩
      · rw [heq, hw]
        exact h.write
      · rw [heq, hw]
        exact h.write.reply hv hop
    · have htidy := h.tidy
      rw [Tidy] at htidy ⊢
      rw [hreads.closing, hclosing hf, htidy, hstate]
      simp [hs, or_comm]
  | writes hf hr hwrites =>
    refine ⟨?_, hwrites.inv, hwrites.tidy ?_⟩
    · rw [hwrites.readSide, hr]
      exact h.read
    · rw [Tidy, hclosing hf]
      exact h.tidy
  | cleanup hf =>
    subst hf
    have hread := h.read
    have hwrite := h.write
    rw [readSide_of_cons hready] at hread
    rw [writeSide_of_cons hready] at hwrite
    refine ⟨hread, hwrite, ?_⟩
    have hnow : s.Closing := .inr (by rw [hready]; exact List.mem_cons_self)
    exact ⟨fun _ => h.tidy.mp hnow, fun _ => .inl rfl⟩

/-- The events of `epoll`. -/
theorem eventHandler_inv (h : s.Inv) (epollin epollout : Bool) :
    (s.eventHandler epollin epollout).Inv := by
  have hout : (if epollout then s.writeEpollout else s).Inv := by
    split
    · have hwrites := writeEpollout_spec h.write
      exact ⟨hwrites.readSide ▸ h.read, hwrites.inv, hwrites.tidy h.tidy⟩
    · exact h
  rw [eventHandler]
  generalize (if epollout then s.writeEpollout else s) = q at hout
  split
  · obtain ⟨hread, hwrite, hclosing, hstop⟩ := readEpollin_spec hout.read
    have hstate : q.readEpollin.writeState = q.writeState := congrArg WriteSide.writeState hwrite
    refine ⟨hread, hwrite ▸ hout.write, ?_⟩
    rw [Tidy, hclosing, hstop, hstate]
    exact hout.tidy
  · exact hout

/-- The reactor runs the oldest posted function. -/
theorem step_run {f : DemoTask} (hready : s.readyList = f :: rest) (hfreed : s.freed = false)
    (io : DemoIo) :
    s.step (.run io) = ({ s with readyList := rest } : DemoSession).call io f := by
  simp [step, hready, hfreed]

/-- The oldest posted function is one of a connection that was freed. -/
theorem step_freed {f : DemoTask} (hready : s.readyList = f :: rest) (hfreed : s.freed = true)
    (io : DemoIo) : s.step (.run io) = .error useAfterFree := by
  simp [step, hready, hfreed]

/-- What an action that does not abort comes to. -/
inductive Stepped (s s' : DemoSession) : Prop
  | same (h : s' = s)
  | event (epollin epollout : Bool) (h : s' = s.eventHandler epollin epollout)
  | ran (f : DemoTask) (rest : List DemoTask) (hready : s.readyList = f :: rest)
      (h : Ran s { s with readyList := rest } f (.ok s'))

theorem Inv.stepped {a : Act} {s' : DemoSession} (h : s.Inv) (hs : s.step a = .ok s') :
    Stepped s s' := by
  cases a with
  | event epollin epollout =>
    simp only [step, Except.ok.injEq] at hs
    subst hs
    split
    · exact .same rfl
    · exact .event epollin epollout rfl
  | run io =>
    cases hready : s.readyList with
    | nil =>
      simp only [step, hready, Except.ok.injEq] at hs
      exact .same hs.symm
    | cons f rest =>
      cases hfreed : s.freed with
      | true =>
        rw [step_freed hready hfreed] at hs
        cases hs
      | false =>
        rw [step_run hready hfreed] at hs
        exact .ran f rest hready (hs ▸ h.ran hready hfreed io)

/-- **One action keeps the invariant.** -/
theorem inv_step (s : DemoSession) (a : Act) (s' : DemoSession) (h : s.Inv)
    (hs : s.step a = .ok s') : s'.Inv := by
  cases h.stepped hs with
  | same heq => exact heq ▸ h
  | event epollin epollout heq => exact heq ▸ eventHandler_inv h epollin epollout
  | ran f rest hready hran => exact hran.inv h hready

theorem init_inv (heap : DemoHeap) : (init heap).Inv := by
  refine ⟨⟨[], [], ⟨rfl, rfl, DemoParser.new_represents heap, rfl⟩, ?_⟩, ⟨?_, [], rfl, ?_⟩, ?_⟩
  · exact .reading rfl rfl rfl rfl rfl
  · exact List.forall_mem_nil _
  · exact .quiet rfl rfl rfl rfl rfl
  · simp [Tidy, Closing, init, democonnectionInit]

end DemoSession

end CHttp
