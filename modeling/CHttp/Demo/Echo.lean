import CHttp.Demo.SessionInvariant
import CHttp.ForMathlib.Machine

/-!
# What a demo connection sends

A demo connection echoes: at every point of every run, with any input cut anywhere and any results
of the system calls, the bytes it has sent are a beginning of the frames of the replies to the
messages received so far, in order.

An error code ends the reading for good. After an end of the stream or an error of `recv` the
connection is closed; after an error of the parser it is not, unless a write fails. The process is
brought down by three things only: a write that was not done by one `send`, a write that is started
after one has failed, and a function that is still posted when the connection is freed.
-/

namespace CHttp

namespace DemoSession

open DemoConnection (errIsClosed errIoError)
open DemoParser (marked errExpectedStx)

variable {s : DemoSession}

/-! ### Echo -/

/-- The frames of the replies to the messages of a stream. -/
def echo (received : List (UInt8 × Bool)) : List UInt8 :=
  (DemoEvent.messages (DemoScanner.init.scan received).2.flatten).flatMap fun m =>
    DemoMessage.frame false m.2

/-- What was sent is a beginning of the echo of what was received. It is all of it when the
connection has nothing left to do: it waits for input, and no reply waits or is being written. -/
structure Echoes (s : DemoSession) : Prop where
  sent : s.sent <+: echo s.received
  all : s.readState = .eagained → s.writeState = .idle → s.activeResponse = none →
    s.outputList = [] → s.sent = echo s.received

private theorem echo_append (u v : List (UInt8 × Bool)) : echo u <+: echo (u ++ v) := by
  rw [echo, echo, DemoScanner.scan_append, List.flatten_append, DemoEvent.messages_append,
    List.flatMap_append]
  exact List.prefix_append _ _

/-- The frames of the replies, by their bodies. -/
theorem wire_eq {ms : List DemoMessage} (h : ∀ m ∈ ms, m.body.Valid ∧ m.opcode = false) :
    wire ms = (ms.map fun m => m.body.data).flatMap (DemoMessage.frame false) := by
  rw [wire, List.flatMap_map]
  exact List.flatMap_congr fun m hm => by rw [(h m hm).2]

theorem Inv.echoes (h : s.Inv) : s.Echoes := by
  obtain ⟨u, v, hp, hread⟩ := h.read
  obtain ⟨hvalid, taken, hreplies, hphase⟩ := h.write
  have hwire : wire s.replies = echo u := by
    have hopcodes : ∀ m ∈ s.replies, m.body.Valid ∧ m.opcode = false := hvalid
    have hbodies : s.replies.map (fun m => m.body.data) = _ := hp.replies
    rw [wire_eq hopcodes, hbodies, List.flatMap_map]
    rfl
  have hlist : wire s.replies = wire taken ++ wire s.outputList := by
    have hsplit : s.replies = taken ++ s.outputList := hreplies
    rw [hsplit, wire, List.flatMap_append]
    rfl
  have hrec : s.received = u ++ marked v := hp.received
  have htaken : s.sent <+: wire taken := by
    cases hphase with
    | quiet _ _ _ _ hsent => exact hsent ▸ List.prefix_rfl
    | sending _ _ _ _ _ _ _ _ _ _ hsent => exact ⟨_, hsent⟩
    | complete _ _ _ _ _ hsent => exact hsent ▸ List.prefix_rfl
    | failed _ _ _ _ hsent => exact hsent
  refine ⟨?_, fun hr hw ha hl => ?_⟩
  · have hall : wire taken <+: echo u := by
      rw [← hwire, hlist]
      exact List.prefix_append _ _
    rw [hrec]
    exact htaken.trans (hall.trans (echo_append u _))
  · have hv : v = [] := by
      cases hread with
      | waiting _ _ _ _ _ hv => exact hv
      | reading hs => cases hr.symm.trans hs
      | between hs => cases hr.symm.trans hs
      | deaf hs => cases hr.symm.trans hs
      | stopped hs => cases hr.symm.trans hs
    have hsent : s.sent = wire taken := by
      cases hphase with
      | quiet _ _ _ _ hsent => exact hsent
      | sending _ _ _ ha' =>
        rw [show s.writeSide.activeResponse = none from ha] at ha'
        cases ha'
      | complete _ ha' =>
        rw [show s.writeSide.activeResponse = none from ha] at ha'
        cases ha'
      | failed hs => cases hw.symm.trans hs
    rw [hsent, hrec, hv]
    calc wire taken = wire taken ++ wire s.outputList := by simp [hl, wire]
      _ = echo u := by rw [← hlist, hwire]
      _ = echo (u ++ marked []) := by simp [marked]

/-- **A demo connection echoes**, whatever it is sent and however the system calls go. -/
theorem sent_echoes (heap : DemoHeap) (as : List Act) :
    Machine.Always step Echoes (init heap) as :=
  (Machine.always_invariant inv_step (init_inv heap)).mono fun _ h => h.echoes

/-! ### After an error -/

/-- Once an error code was given to `handle_request`, the read sequence does not change. -/
theorem Stepped.readSide_eq {s' : DemoSession} (h : s.Inv) (hcodes : s.codes ≠ [])
    (hstep : Stepped s s') : s'.readSide = s.readSide := by
  cases hstep with
  | same heq => rw [heq]
  | event epollin epollout heq =>
    have hout : (if epollout then s.writeEpollout else s).readSide = s.readSide := by
      split
      · exact (writeEpollout_spec h.write).readSide
      · rfl
    have hwaits : s.readState ≠ .eagained := by
      intro hs
      obtain ⟨u, v, -, hphase⟩ := h.read
      cases hphase with
      | reading _ _ _ _ hc => exact hcodes hc
      | waiting _ _ _ _ hc => exact hcodes hc
      | between _ _ _ hc => exact hcodes hc
      | deaf hs' => cases hs.symm.trans hs'
      | stopped hs' => cases hs.symm.trans hs'
    rw [heq, eventHandler]
    generalize (if epollout then s.writeEpollout else s) = q at hout
    have hstate : q.readState = s.readState := congrArg ReadSide.readState hout
    split
    · rw [readEpollin, if_neg (hstate ▸ hwaits)]
      exact hout
    · exact hout
  | ran f rest hready hran =>
    cases hran with
    | reads hc => exact absurd hc hcodes
    | writes _ hr hwrites => exact hwrites.readSide.trans hr
    | cleanup hf =>
      subst hf
      rw [readSide_of_cons hready]
      rfl

/-- **An error code is the last thing that is read.** Whatever happens afterwards, nothing more is
received, replied to or reported. After an error of the parser the connection is closed only by a
failed write; after an error of `recv`, or the end of the stream, it is. -/
theorem reading_ends_at_error {heap : DemoHeap} {as bs : List Act} {s t : DemoSession}
    (hs : Machine.run step (init heap) as = .ok s) (hcodes : s.codes ≠ [])
    (ht : Machine.run step s bs = .ok t) :
    t.received = s.received ∧ t.codes = s.codes ∧
      (t.replies.map fun m => m.body.data) = (s.replies.map fun m => m.body.data) ∧
      (s.codes = [errExpectedStx] ∧ (t.freed = true → t.writeState = .stop) ∨
        s.codes = [errIoError] ∧ (t.freed = true ∨ .postableCleanup ∈ t.readyList)) := by
  have hinv : s.Inv := Machine.run_invariant inv_step (init_inv heap) hs
  obtain ⟨hinv', hread⟩ : t.Inv ∧ t.readSide = s.readSide := by
    have hkeep : ∀ (q : DemoSession) (a : Act) (q' : DemoSession),
        q.Inv ∧ q.readSide = s.readSide → q.step a = .ok q' →
          q'.Inv ∧ q'.readSide = s.readSide := by
      intro q a q' hq hstep
      have hqc : q.codes = s.codes := congrArg ReadSide.codes hq.2
      refine ⟨inv_step q a q' hq.1 hstep, ?_⟩
      exact ((hq.1.stepped hstep).readSide_eq hq.1 (hqc ▸ hcodes)).trans hq.2
    exact Machine.run_invariant hkeep ⟨hinv, rfl⟩ ht
  refine ⟨congrArg ReadSide.received hread, congrArg ReadSide.codes hread,
    congrArg ReadSide.replies hread, ?_⟩
  have hstate : t.readState = s.readState := congrArg ReadSide.readState hread
  obtain ⟨u, v, -, hphase⟩ := hinv.read
  cases hphase with
  | reading _ _ _ _ hc => exact absurd hc hcodes
  | waiting _ _ _ _ hc => exact absurd hc hcodes
  | between _ _ _ hc => exact absurd hc hcodes
  | deaf hidle _ _ hc =>
    refine .inl ⟨hc, fun hfreed => ?_⟩
    rcases hinv'.tidy.mp (.inl hfreed) with hstop | hstop
    · cases hidle.symm.trans (hstate.symm.trans hstop)
    · exact hstop
  | stopped hstop _ _ hc => exact .inr ⟨hc, hinv'.tidy.mpr (.inl (hstate.trans hstop))⟩

/-- The reactor runs a posted function, with these bytes to receive and room to send as many. -/
def runs (bs : List UInt8) (n : ℕ) : Act := .run ⟨.got bs, .sent n, ⟨0, fun _ => 0⟩⟩

/-- An opcode that is none: the three bytes are the last that are read. -/
theorem reading_ends_at_opcode :
    ∃ s t, Machine.run step (init ⟨0, fun _ => 0⟩) [runs [1, 65, 66] 0] = .ok s ∧
      Machine.run step s [.event true true, runs [1, 81, 2, 3, 76, 4] 0] = .ok t ∧
      s.codes = [errExpectedStx] ∧ t.received = s.received := by
  have hs : ∃ s, Machine.run step (init ⟨0, fun _ => 0⟩) [runs [1, 65, 66] 0] = .ok s ∧
      s.codes = [errExpectedStx] ∧ ∃ t,
        Machine.run step s [.event true true, runs [1, 81, 2, 3, 76, 4] 0] = .ok t :=
    ⟨_, rfl, rfl, _, rfl⟩
  obtain ⟨s, hs, hcodes, t, ht⟩ := hs
  exact ⟨s, t, hs, ht, hcodes, (reading_ends_at_error hs (by rw [hcodes]; decide) ht).1⟩

/-! ### Aborts -/

/-- A function that is to fail does. -/
theorem Fails.step_eq {f : DemoTask} {rest : List DemoTask} {e : Abort} (h : s.Inv)
    (hready : s.readyList = f :: rest) (hf : s.Fails f e) (io : DemoIo) :
    s.step (.run io) = .error e := by
  cases hf with
  | freed _ hfreed => exact step_freed hready hfreed io
  | writer hfreed hs =>
    obtain ⟨-, taken, -, hphase⟩ := h.write
    have hbuf : ∃ iob, s.activeOutputBuffer = some iob := by
      cases hphase with
      | sending iob _ _ _ _ _ _ hbuf => exact ⟨iob, hbuf⟩
      | quiet hs' => cases hs.symm.trans hs'
      | complete hs' => cases hs.symm.trans hs'
      | failed hs' => cases hs.symm.trans hs'
    obtain ⟨iob, hbuf⟩ := hbuf
    rw [step_run hready hfreed]
    simp [call, postableWriter, hs, hbuf]
  | writeStart hfreed hs hl =>
    obtain ⟨-, taken, -, hphase⟩ := h.write
    have hnone : s.activeResponse = none := by
      cases hphase with
      | failed _ ha => exact ha
      | sending _ _ hs' => exact absurd hs hs'
      | quiet hs' => cases hs.symm.trans hs'
      | complete hs' => cases hs.symm.trans hs'
    obtain ⟨m, later, hcons⟩ := List.exists_cons_of_ne_nil hl
    rw [step_run hready hfreed]
    simp [call, postableWriteStart, hnone, hcons, democonnectionWrite, hs]

/-- **What aborts.** In every state that a connection can get to, an action aborts exactly when it
runs a posted function that is to fail. -/
theorem aborts_iff_fails {heap : DemoHeap} {as : List Act} {s : DemoSession}
    (hs : Machine.run step (init heap) as = .ok s) (a : Act) (e : Abort) :
    s.step a = .error e ↔
      ∃ io f rest, a = .run io ∧ s.readyList = f :: rest ∧ s.Fails f e := by
  have hinv : s.Inv := Machine.run_invariant inv_step (init_inv heap) hs
  constructor
  · intro herr
    cases a with
    | event epollin epollout => cases herr
    | run io =>
      cases hready : s.readyList with
      | nil =>
        simp only [step, hready] at herr
        cases herr
      | cons f rest =>
        refine ⟨io, f, rest, rfl, rfl, ?_⟩
        cases hfreed : s.freed with
        | true =>
          rw [step_freed hready hfreed] at herr
          cases herr
          exact .freed f hfreed
        | false =>
          have hran := hinv.ran hready hfreed io
          rw [← step_run hready hfreed, herr] at hran
          cases hran with
          | fails hf => exact hf
  · rintro ⟨io, f, rest, rfl, hready, hf⟩
    exact hf.step_eq hinv hready io

/-- Half of a reply is sent, and the write is tried again. -/
theorem aborts_after_partial_send :
    ∃ s, Machine.run step (init ⟨0, fun _ => 0⟩) [runs [1, 81, 2, 3, 76, 4] 0, runs [] 0, runs [] 0,
        runs [] 3, runs [5] 0] = .ok s ∧
      s.step (runs [] 3) =
        .error ⟨"postable_writer", "cannot call write while write state is not idle"⟩ := by
  have hs : ∃ s, Machine.run step (init ⟨0, fun _ => 0⟩) [runs [1, 81, 2, 3, 76, 4] 0, runs [] 0,
      runs [] 0, runs [] 3, runs [5] 0] = .ok s ∧ s.readyList = [.postableWriter, .postableReader] ∧
      s.freed = false ∧ s.writeState = .active :=
    ⟨_, rfl, rfl, rfl, rfl⟩
  obtain ⟨s, hs, hready, hfreed, hactive⟩ := hs
  refine ⟨s, hs, (aborts_iff_fails hs _ _).mpr ⟨_, _, _, rfl, hready, ?_⟩⟩
  exact .writer hfreed hactive

end DemoSession

end CHttp
