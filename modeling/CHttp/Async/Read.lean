import CHttp.Async.Invariant

/-!
# Reads that wait

`reader` decides what comes after a successful `recv` by looking at `errno`, which a successful
`recv` leaves as it was. When an earlier call left `EAGAIN` there and the bytes received complete no
message, the connection waits for an event that nothing announces: on an edge-triggered socket the
bytes that stay unread raise none, and a parser error is forgotten.

`noStranded_iff` gives the exact condition under which a run has no such read.
-/

namespace CHttp

namespace World

variable {L : Llhttp}

/-- The call of `reader` in a step: the state in which it is called and the results of its system
calls. -/
def readerCall (w : World L) : Act → Option (World L × Io)
  | .accept io => if w.life = .embryo then some (w.opened, io) else none
  | .run io =>
    match w.readyList with
    | .postableReader :: _ => some (w.resumed, io)
    | .postableWriteComplete :: _ => some (w.completed, io)
    | _ => none
  | _ => none

/-- What a step that calls `reader` must do: the connection waits for `EPOLLIN` only when this very
`recv` reported `EAGAIN`, and when the parser returned an error and there is no completed message
the read is stopped and a close is posted. -/
def NoStranded (w : World L) (a : Act) : Prop :=
  ∀ v io w', w.readerCall a = some (v, io) → w.step a = .ok w' →
    (w'.cref.readState = .eagained → io.recv = .fail eagain) ∧
      ∀ bs ll p ec, io.recv = .got bs → bs ≠ [] →
        v.consumes (v.recvBytes bs) = .ok (ll, (p, none), ec) → ec ≠ .ok →
        w'.cref.readState = .stop ∧ w'.readyList = [.postableCloseConnection]

/-- No `recv` returns bytes that complete no message while `errno` holds `EAGAIN` from an earlier
call. -/
def ErrnoFresh (w : World L) (a : Act) : Prop :=
  ∀ v io bs ll p ec, w.readerCall a = some (v, io) → io.recv = .got bs → bs ≠ [] →
    v.consumes (v.recvBytes bs) = .ok (ll, (p, none), ec) → io.errno ≠ eagain

/-- A step that calls `reader` does nothing else. -/
theorem readerCall_spec {w v : World L} {a : Act} {io : Io} (h : w.Sound)
    (hc : w.readerCall a = some (v, io)) : v.Reading ∧ w.step a = v.reader io := by
  obtain ⟨st, h⟩ := h
  cases a with
  | event mask => cases hc
  | appPost => cases hc
  | accept io' =>
    have hlife := h.life
    cases st with
    | embryo =>
      simp only [readerCall, hlife, Stage.life, if_true, Option.some.injEq, Prod.mk.injEq] at hc
      obtain ⟨rfl, rfl⟩ := hc
      exact ⟨h.opened, step_opened h io'⟩
    | _ => simp [readerCall, hlife, Stage.life] at hc
  | run io' =>
    have hq := h.readyList
    cases st with
    | reading =>
      simp only [readerCall, hq, Stage.readyList, Option.some.injEq, Prod.mk.injEq] at hc
      obtain ⟨rfl, rfl⟩ := hc
      exact ⟨h.resumed, step_resumed h io'⟩
    | written =>
      simp only [readerCall, hq, Stage.readyList, Option.some.injEq, Prod.mk.injEq] at hc
      obtain ⟨rfl, rfl⟩ := hc
      exact ⟨h.completed, step_completed h io'⟩
    | _ => simp [readerCall, hq, Stage.readyList] at hc

/-- When `recv` returned bytes and the parser took them, `reader` has an outcome. -/
theorem reader_of_consumes {v : World L} {io : Io} (h : v.Reading) {bs : List UInt8}
    {r : L.State × (HttpParser × Option Message) × LlhttpErrno} (hrecv : io.recv = .got bs)
    (hparse : v.consumes (bs.take readBufferSize) = .ok r) :
    ∃ w', v.reader io = .ok w' ∧ ∃ st, ReadOutcome v io st w' := by
  obtain ⟨w', hw, ho⟩ | ⟨e, bs', hrecv', -, herr, -⟩ := reader_spec h.toReads io
  · exact ⟨w', hw, ho⟩
  · rw [hrecv] at hrecv'
    cases hrecv'
    rw [hparse] at herr
    cases herr

namespace ReadOutcome

variable {v w' : World L} {io : Io} {st : Stage}

/-- Bytes that complete no message, received while `errno` held `EAGAIN`, leave the read waiting. -/
theorem eagained_of_stale (ho : ReadOutcome v io st w') {bs : List UInt8} {ll : L.State}
    {p : HttpParser} {ec : LlhttpErrno} (hrecv : io.recv = .got bs) (hne : bs ≠ [])
    (hparse : v.consumes (bs.take readBufferSize) = .ok (ll, (p, none), ec))
    (herrno : io.errno = eagain) : w'.cref.readState = .eagained := by
  cases ho with
  | stale _ _ _ _ _ => rfl
  | again _ => rfl
  | message hrecv' _ _ hparse' =>
    cases hrecv.symm.trans hrecv'
    cases hparse.symm.trans hparse'
  | more _ _ _ _ herrno' => exact absurd herrno herrno'
  | rejected _ _ _ _ herrno' => exact absurd herrno herrno'
  | eof hrecv' =>
    cases hrecv.symm.trans hrecv'
    exact absurd rfl hne
  | broken hrecv' _ => cases hrecv.symm.trans hrecv'

/-- The read waits only after `EAGAIN`, or after bytes received while `errno` held it. -/
theorem of_eagained (hv : v.cref.readState = .active) (ho : ReadOutcome v io st w')
    (hw : w'.cref.readState = .eagained) : io.recv = .fail eagain ∨ ∃ bs ll p ec,
      io.recv = .got bs ∧ bs ≠ [] ∧
        v.consumes (bs.take readBufferSize) = .ok (ll, (p, none), ec) ∧ io.errno = eagain := by
  cases ho with
  | again hrecv => exact Or.inl hrecv
  | @stale bs iob ll p ec hrecv hne hcap hparse herrno =>
    exact Or.inr ⟨bs, ll, p, ec, hrecv, hne, hparse, herrno⟩
  | message _ _ _ _ => cases hw
  | more _ _ _ _ _ => cases hv.symm.trans hw
  | rejected _ _ _ _ _ => cases hw
  | eof _ => cases hw
  | broken _ _ => cases hw

/-- A parser error without a message stops the read and posts a close, unless `errno` held
`EAGAIN`. -/
theorem stopped_of_rejected (hv : v.readyList = []) (ho : ReadOutcome v io st w') {bs : List UInt8}
    {ll : L.State} {p : HttpParser} {ec : LlhttpErrno} (hrecv : io.recv = .got bs)
    (hparse : v.consumes (bs.take readBufferSize) = .ok (ll, (p, none), ec)) (hec : ec ≠ .ok)
    (herrno : io.errno ≠ eagain) :
    w'.cref.readState = .stop ∧ w'.readyList = [.postableCloseConnection] := by
  have hqueue : v.readyList ++ [.postableCloseConnection] = [.postableCloseConnection] := by
    rw [hv, List.nil_append]
  cases ho with
  | rejected _ _ _ _ _ => exact ⟨rfl, hqueue⟩
  | eof _ => exact ⟨rfl, hqueue⟩
  | broken _ _ => exact ⟨rfl, hqueue⟩
  | message hrecv' _ _ hparse' =>
    cases hrecv.symm.trans hrecv'
    cases hparse.symm.trans hparse'
  | more hrecv' _ _ hparse' _ =>
    cases hrecv.symm.trans hrecv'
    cases hparse.symm.trans hparse'
    exact absurd rfl hec
  | stale _ _ _ _ herrno' => exact absurd herrno' herrno
  | again hrecv' => cases hrecv.symm.trans hrecv'

end ReadOutcome

/-- One step: the two demands are met exactly when `errno` was not left at `EAGAIN`. -/
theorem noStranded_iff_errnoFresh (w : World L) (a : Act) (h : w.Sound) :
    w.NoStranded a ↔ w.ErrnoFresh a := by
  constructor
  · intro hn v io bs ll p ec hc hrecv hne hparse herrno
    obtain ⟨hv, hs⟩ := readerCall_spec h hc
    rw [recvBytes_eq hv.toReads] at hparse
    obtain ⟨w', hw, st, ho⟩ := reader_of_consumes hv hrecv hparse
    have hdemand := (hn v io w' hc (hs.trans hw)).1
    -- the read waits, but its own `recv` returned bytes
    have hwaits := ho.eagained_of_stale hrecv hne hparse herrno
    cases hrecv.symm.trans (hdemand hwaits)
  · intro hf v io w' hc hs
    obtain ⟨hv, hs'⟩ := readerCall_spec h hc
    rw [hs'] at hs
    obtain ⟨st, ho⟩ : ∃ st, ReadOutcome v io st w' := by
      obtain ⟨w'', hw, ho⟩ | ⟨e, -, -, -, -, he⟩ := reader_spec hv.toReads io
      · cases hw.symm.trans hs
        exact ho
      · cases he.symm.trans hs
    have hfresh := fun bs ll p ec => hf v io bs ll p ec hc
    simp only [recvBytes_eq hv.toReads] at hfresh ⊢
    refine ⟨fun hw => ?_, fun bs ll p ec hrecv hne hparse hec => ?_⟩
    · obtain hrecv | ⟨bs, ll, p, ec, hrecv, hne, hparse, herrno⟩ := ho.of_eagained hv.active hw
      · exact hrecv
      · exact absurd herrno (hfresh bs ll p ec hrecv hne hparse)
    · exact ho.stopped_of_rejected hv.readyList hrecv hparse hec
        (hfresh bs ll p ec hrecv hne hparse)

/-- **Stranded reads.** In a run no call of `reader` waits without an `EAGAIN` of its own `recv`,
nor ignores a parser error, exactly when no `recv` of the run returns bytes that complete no message
while `errno` still holds `EAGAIN` from an earlier call. -/
theorem noStranded_iff (L : Llhttp) (heap : Heap) (memory : ByteMemory) (as : List Act) :
    Machine.Along step NoStranded (init L heap memory) as ↔
      Machine.Along step ErrnoFresh (init L heap memory) as :=
  Machine.along_congr sound_step noStranded_iff_errnoFresh (sound_init L heap memory)

/-- A parser that has seen `G`, the beginning of a request line, and that rejects anything else. -/
def startOfRequest : Llhttp where
  State := Unit
  init := ()
  execute _ bs := ((), [.messageBegin], if bs = ascii "G" then .ok else .error 6)
  finish _ := ((), [], .ok)

/-- A `recv` that failed with `EAGAIN`, then one that returned `bs` and left `errno` alone. -/
def staleErrno (bs : List UInt8) : List Act :=
  [.accept ⟨0, .fail eagain, .accepted 0, .new .zeros, true⟩,
    .event epollin,
    .run ⟨eagain, .got bs, .accepted 0, .new .zeros, true⟩]

/-- With `EAGAIN` left in `errno`, the first byte of a request leaves the connection waiting
although `recv` reported none, and so do bytes the parser rejects. -/
theorem stale_errno_strands :
    ¬ Machine.Along step NoStranded
        (init startOfRequest (.const .zeros) fun _ => 0)
        (staleErrno (ascii "G")) ∧
      ¬ Machine.Along step NoStranded
        (init startOfRequest (.const .zeros) fun _ => 0)
        (staleErrno (ascii "@")) := by
  constructor
  · rintro ⟨-, -, h, -⟩
    cases (h _ _ _ rfl rfl).1 rfl
  · rintro ⟨-, -, h, -⟩
    cases ((h _ _ _ rfl rfl).2 _ _ _ _ rfl (by decide) rfl (by decide)).1

end World

end CHttp
