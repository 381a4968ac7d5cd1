import CHttp.Sync.Answers

/-!
# Truncated responses

`sync.h` says that `sync_connection_write` writes a complete message. It calls `write` once and
returns what that returned, so a short count is a status that is not negative, and the worker does
not look at the status anyway: on a connection that is kept it goes on to the next request after a
response of which the client has a part, or nothing.
-/

namespace CHttp

/-- What `write` did with some bytes: those that were transmitted. -/
def SendResult.transmitted (rc : SendResult) (bytes : List UInt8) : List UInt8 :=
  match rc with
  | .accepted n => bytes.take n
  | .fail _ => []

/-- What `write` returned for some bytes, and `sync_connection_write` after it. -/
def SendResult.status (rc : SendResult) (bytes : List UInt8) : ℤ :=
  match rc with
  | .accepted n => (bytes.take n).length
  | .fail _ => -1

/-- The response was transmitted whole; a call of the application counts as such. -/
def Note.Whole : Note → Prop
  | .called _ => True
  | .wrote _ bytes rc => rc.transmitted bytes = bytes

instance decidableWhole : ∀ note : Note, Decidable note.Whole
  | .called _ => inferInstanceAs (Decidable True)
  | .wrote _ bytes rc => inferInstanceAs (Decidable (rc.transmitted bytes = bytes))

/-- The status of the write is negative unless the response was transmitted whole. -/
def Note.Truthful : Note → Prop
  | .called _ => True
  | .wrote _ bytes rc => 0 ≤ rc.status bytes → rc.transmitted bytes = bytes

namespace Worker

variable {L : Llhttp} {w w' : Worker L} {a : Act}

/-- The statuses are right, and nothing was done on the connection after a truncated response. -/
structure Untruncated (w : Worker L) : Prop where
  truthful : ∀ note ∈ w.notes, note.Truthful
  last : ∀ note ∈ w.notes.dropLast, note.Whole

/-- The statuses are right, and a connection is left after a truncated response. -/
structure Leaves (w : Worker L) : Prop where
  truthful : ∀ note ∈ w.notes, note.Truthful
  left : (∀ note ∈ w.notes, note.Whole) ∨ w.control = .accepting ∨ w.control = .exited

/-- Of a response, `write` takes all the bytes, or it fails and the connection is not kept. -/
def WholeWrite (w : Worker L) : Act → Prop
  | .handle (some response) memory rc =>
    match w.control with
    | .handling _ request =>
      ∀ iob, (World.markConnection request response).serialize memory = .ok iob →
        rc.transmitted iob.data = iob.data ∨
          (rc.status iob.data < 0 ∧ ¬ World.keepAlive request)
    | _ => True
  | _ => True

theorem Leaves.whole (h : w.Leaves) (ha : w.control ≠ .accepting) (he : w.control ≠ .exited) :
    ∀ note ∈ w.notes, note.Whole := by
  rcases h.left with hall | hc | hc
  · exact hall
  · exact absurd hc ha
  · exact absurd hc he

/-- The notes of a request that was answered. -/
theorem forall_notes_answered {P : Note → Prop} {request response : Message}
    {bytes : List UInt8} {rc : SendResult} :
    (∀ note ∈ (w.answered request response bytes rc).notes, P note) ↔
      (∀ note ∈ w.notes, P note) ∧ P (.called request) ∧
        P (.wrote (World.markConnection request response) bytes rc) := by
  simp only [answered, List.forall_mem_append, List.forall_mem_cons, List.not_mem_nil,
    false_implies, implies_true, and_true]

/-- After a request was answered, all but the last note are those there were and the call. -/
theorem whole_dropLast_answered {request response : Message} {bytes : List UInt8}
    {rc : SendResult} (h : ∀ note ∈ w.notes, note.Whole) :
    ∀ note ∈ (w.answered request response bytes rc).notes.dropLast, note.Whole := by
  have hdrop : (w.answered request response bytes rc).notes.dropLast =
      w.notes ++ [.called request] := by
    simp [answered, List.dropLast_append_of_ne_nil]
  rw [hdrop]
  exact List.forall_mem_append.mpr ⟨h, List.forall_mem_singleton.mpr trivial⟩

/-- What holds along the runs that meet the condition. -/
def Complete (w : Worker L) : Prop := Coherent w ∧ Leaves w ∧ Untruncated w

private theorem init_complete (L : Llhttp) : Complete (init L) :=
  ⟨init_coherent L, ⟨nofun, .inl nofun⟩, ⟨nofun, nofun⟩⟩

/-- A request was answered on a connection without a truncated response. -/
theorem Leaves.answered {request response : Message} {bytes : List UInt8} {rc : SendResult}
    (h : w.Leaves) (hall : ∀ note ∈ w.notes, note.Whole)
    (hnotes : w'.notes = (w.answered request response bytes rc).notes)
    (hwrote : 0 ≤ rc.status bytes → rc.transmitted bytes = bytes)
    (hleft : rc.transmitted bytes = bytes ∨ w'.control = .accepting) :
    Leaves w' ∧ Untruncated w' := by
  have htruth : ∀ note ∈ w'.notes, note.Truthful := by
    rw [hnotes]
    exact forall_notes_answered.mpr ⟨h.truthful, trivial, hwrote⟩
  refine ⟨⟨htruth, ?_⟩, htruth, hnotes ▸ whole_dropLast_answered hall⟩
  rcases hleft with hwhole | hacc
  · rw [hnotes]
    exact .inl (forall_notes_answered.mpr ⟨hall, trivial, hwhole⟩)
  · exact .inr (.inl hacc)

/-- The condition on a step that answers a request speaks of the one text of the response. -/
theorem wholeWrite_handle {conn : SyncConnection L} {request response : Message}
    {memory : ByteMemory} {iob : IOBuffer} {rc : SendResult}
    (hw : w.control = .handling conn request)
    (hser : (World.markConnection request response).serialize memory = .ok iob) :
    w.WholeWrite (.handle (some response) memory rc) ↔ rc.transmitted iob.data = iob.data ∨
      (rc.status iob.data < 0 ∧ ¬ World.keepAlive request) := by
  simp only [WholeWrite, hw]
  constructor
  · intro hall
    exact hall iob hser
  · intro h iob' hser'
    cases hser.symm.trans hser'
    exact h

/-- **One step.** As long as responses are written whole, or fail on a connection that is not
kept, a truncated response is the last of its connection. -/
theorem complete_step (h : Complete w) (hp : w.WholeWrite a) (hs : w.step a = .ok w') :
    Complete w' := by
  obtain ⟨hcoh, hleaves, hun⟩ := h
  have hm := move_of_step hcoh hs
  refine ⟨hm.coherent hcoh, ?_⟩
  cases hm with
  | stay hi => exact ⟨hleaves, hun⟩
  | refuse hw _ => exact ⟨⟨hleaves.truthful, .inr (.inr rfl)⟩, hun.truthful, hun.last⟩
  | opens hw _ => exact ⟨⟨nofun, .inl nofun⟩, nofun, nofun⟩
  | more hw hne hms hrc =>
    have hall := hleaves.whole (by simp [hw]) (by simp [hw])
    exact ⟨⟨hleaves.truthful, .inl hall⟩, hun.truthful, hun.last⟩
  | request hw hne hms hrc =>
    have hall := hleaves.whole (by simp [hw]) (by simp [hw])
    exact ⟨⟨hleaves.truthful, .inl hall⟩, hun.truthful, hun.last⟩
  | next hw hkeep hser hlist =>
    have hall := hleaves.whole (by simp [hw]) (by simp [hw])
    have hwhole := ((wholeWrite_handle hw hser).mp hp).resolve_right fun hfail => hfail.2 hkeep
    exact hleaves.answered hall rfl (fun _ => hwhole) (.inl hwhole)
  | again hw hkeep hser hlist =>
    have hall := hleaves.whole (by simp [hw]) (by simp [hw])
    have hwhole := ((wholeWrite_handle hw hser).mp hp).resolve_right fun hfail => hfail.2 hkeep
    exact hleaves.answered hall rfl (fun _ => hwhole) (.inl hwhole)
  | finish hw hkeep hser =>
    have hall := hleaves.whole (by simp [hw]) (by simp [hw])
    -- the write may have failed, and then its status says so
    refine hleaves.answered hall rfl (fun hstatus => ?_) (.inr rfl)
    exact ((wholeWrite_handle hw hser).mp hp).resolve_right fun hfail =>
      absurd hstatus (Int.not_le.mpr hfail.1)

/-- A step after which the statuses are right, and a connection with a truncated response is left,
met the condition. -/
theorem wholeWrite_of_leaves (h : Coherent w) (hs : w.step a = .ok w') (hleaves : Leaves w') :
    w.WholeWrite a := by
  have hm := move_of_step h hs
  cases hm with
  | stay hi =>
    cases a with
    | accept sock2 heap memory => trivial
    | read nread => trivial
    | handle reply memory rc =>
      cases reply with
      | none => trivial
      | some response =>
        simp only [WholeWrite]
        split
        · exact absurd ‹_› (hi _ _)
        · trivial
  | refuse hw _ => trivial
  | opens hw _ => trivial
  | more hw hne hms hrc => trivial
  | request hw hne hms hrc => trivial
  | @next conn request response m rest memory iob rc hw hkeep hser hlist =>
    have hall := hleaves.whole (by simp) (by simp)
    exact (wholeWrite_handle hw hser).mpr (.inl (forall_notes_answered.mp hall).2.2)
  | @again conn request response memory iob rc hw hkeep hser hlist =>
    have hall := hleaves.whole (by simp) (by simp)
    exact (wholeWrite_handle hw hser).mpr (.inl (forall_notes_answered.mp hall).2.2)
  | @finish conn request response memory iob rc hw hkeep hser =>
    have hwrote : 0 ≤ rc.status iob.data → rc.transmitted iob.data = iob.data :=
      (forall_notes_answered.mp hleaves.truthful).2.2
    refine (wholeWrite_handle hw hser).mpr ?_
    by_cases hstatus : 0 ≤ rc.status iob.data
    · exact .inl (hwrote hstatus)
    · exact .inr ⟨Int.not_le.mp hstatus, hkeep⟩

/-- **Truncated responses.** In every run of a worker in which each response is written whole by
the one `write`, or that fails and the request did not ask for the connection to be kept, a status
that is not negative means a response transmitted whole, and no request is answered after a
response that was truncated. And a run that does not abort leaves each connection with a truncated
response, its statuses being right, only if all its writes meet the condition. -/
theorem untruncated_of_wholeWrite (L : Llhttp) (as : List Act) :
    (Machine.Along step WholeWrite (init L) as →
      Machine.Always step (fun w => Untruncated w ∧ Leaves w) (init L) as) ∧
    ∀ t, Machine.run step (init L) as = .ok t →
      (Machine.Always step Leaves (init L) as ↔ Machine.Along step WholeWrite (init L) as) := by
  have hcomplete : Machine.Along step WholeWrite (init L) as →
      Machine.Always step Complete (init L) as :=
    Machine.always_of_along (fun w a w' => complete_step) (init_complete L)
  refine ⟨fun h => (hcomplete h).mono fun w hw => ⟨hw.2.2, hw.2.1⟩, fun t hrun =>
    ⟨fun hleaves => ?_, fun h => (hcomplete h).mono fun w hw => hw.2.1⟩⟩
  have htrue : Machine.Along step (fun (_ : Worker L) (_ : Act) => True) (init L) as :=
    Machine.along_of_forall fun _ _ _ => trivial
  -- `Along` looks at the state after the step through the last hypothesis of `hP`
  exact Machine.along_of_always (fun w a w' h _ hs => coherent_step h hs)
    (fun w a w' h _ _ hs hleaves => wholeWrite_of_leaves h hs hleaves) (init_coherent L) htrue hrun
    hleaves

/-- A client sends two requests at once; of the first response five bytes are taken. -/
def shortWrite : List Act :=
  [.accept 4 (.const .zeros) (fun _ => 0),
    .read (.got (World.getRequest ++ World.getRequest)),
    .handle (some okResponse) (fun _ => 0) (.accepted 5),
    .handle (some okResponse) (fun _ => 0) (.accepted 1000)]

/-- The second request is answered all the same. -/
theorem not_untruncated_shortWrite :
    ¬ Machine.Always step Untruncated (init (World.getRequests 2)) shortWrite := by
  intro h
  have hshort : ((Machine.run step (init (World.getRequests 2)) shortWrite).toOption.map fun t =>
      t.notes.dropLast.all fun note => decide note.Whole) = some false := by decide +kernel
  cases hrun : Machine.run step (init (World.getRequests 2)) shortWrite with
  | error e => simp [hrun, Except.toOption] at hshort
  | ok t =>
    rw [hrun] at hshort
    have hall : (t.notes.dropLast.all fun note => decide note.Whole) = true :=
      List.all_eq_true.mpr fun note hnote => decide_eq_true ((h.last hrun).last note hnote)
    cases hall.symm.trans (Option.some.inj hshort)

end Worker

end CHttp
