import CHttp.ForMathlib.Machine
import CHttp.Sync.Outcomes

/-!
# How a connection of the synchronous server ends

Three contracts of the synchronous server, each with the exact condition under which the code keeps
it. `sync_connection_read_message` asserts that a read either queued a message or failed: it does,
but for a buffer in which `llhttp` completes a message and then finds an error
(`read_dichotomy_iff`). `sync.h` says that it returns 0 for an error, and the worker tests for that;
it returns −1, so that every end of a connection aborts the process (`connection_end_aborts`). And
no socket is ever closed, so that a worker owns at most one of them only until its second `accept`
(`ledger_iff`).
-/

namespace CHttp

namespace SyncConnection

variable {L : Llhttp} {conn conn' : SyncConnection L} {nread : RecvResult} {ms : List Message}

/-! ### The outcome of a read -/

/-- The outcome that `sync_connection_read_message` relies on: when `sync_connection_read` returns,
there is a message and no error, or an error and no message. -/
def Dichotomy (conn : SyncConnection L) (nread : RecvResult) : Prop :=
  ∀ conn' rc, conn.syncConnectionRead nread = .ok (conn', some rc) →
    (rc = .ok ∧ 0 < conn'.inputList.length) ∨
      (rc ≠ .ok ∧ conn'.inputList = [] ∧ conn'.readerStatus = false)

/-- `llhttp` does not complete a message in the chunk and then reject it. (A callback that aborts
comes before the verdict.) -/
def TakesWhole (conn : SyncConnection L) (nread : RecvResult) : Prop :=
  nread.chunk ≠ [] → (L.execute conn.llhttp nread.chunk).2.2 ≠ .ok →
    ∀ s, HttpParser.callbacks HttpParser.collect (conn.parser, [])
      (L.execute conn.llhttp nread.chunk).2.1 = .ok s →
      .messageComplete ∉ (L.execute conn.llhttp nread.chunk).2.1

/-- The connection ends with this `read`: there are no bytes (the end of the stream, a timeout or an
error), or `llhttp` rejects them. -/
def Ends (conn : SyncConnection L) (nread : RecvResult) : Prop :=
  nread.chunk = [] ∨ (L.execute conn.llhttp nread.chunk).2.2 ≠ .ok

/-- The three kinds of `read`: no bytes, bytes that make a callback abort, bytes that the parser
runs over. -/
theorem Waiting.read_cases (h : conn.Waiting) (nread : RecvResult) :
    nread.chunk = [] ∨ nread.chunk ≠ [] ∧
      ((∃ e, conn.consume nread.chunk = .error e) ∨
        ∃ conn' ms, conn.consume nread.chunk =
          .ok (conn', (L.execute conn.llhttp nread.chunk).2.2) ∧
          Consumed conn nread.chunk ms conn') := by
  by_cases hnil : nread.chunk = []
  · exact Or.inl hnil
  · refine Or.inr ⟨hnil, ?_⟩
    cases hc : conn.consume nread.chunk with
    | error e => exact Or.inl ⟨e, rfl⟩
    | ok r =>
      obtain ⟨conn', rc⟩ := r
      obtain ⟨rfl, ms, hms⟩ := h.consume_spec hnil hc
      exact Or.inr ⟨conn', ms, rfl, hms⟩

/-- Where a callback aborts, nothing is asked of the verdict. -/
theorem Waiting.takesWhole_of_error (h : conn.Waiting) {e : Fault}
    (hc : conn.consume nread.chunk = .error e) : conn.TakesWhole nread := by
  intro hne _ s hs
  obtain ⟨conn', rc, hc'⟩ := h.exists_consume hne hs
  rw [hc] at hc'
  cases hc'

private theorem takesWhole_iff (hne : nread.chunk ≠ []) (hms : Consumed conn nread.chunk ms conn') :
    conn.TakesWhole nread ↔ ((L.execute conn.llhttp nread.chunk).2.2 ≠ .ok → ms = []) := by
  have hnil : ms = [] ↔ .messageComplete ∉ (L.execute conn.llhttp nread.chunk).2.1 := by
    rw [← List.length_eq_zero_iff, hms.length_eq, List.count_eq_zero]
  constructor
  · intro h hrc
    exact hnil.mpr (h hne hrc _ (hms.parser []))
  · intro h _ hrc _ _
    exact hnil.mp (h hrc)

/-- The outcome is as relied on exactly when `llhttp` takes the chunk whole. -/
theorem Waiting.dichotomy_iff (h : conn.Waiting) (nread : RecvResult) :
    conn.Dichotomy nread ↔ conn.TakesWhole nread := by
  obtain hnil | ⟨hne, ⟨e, hc⟩ | ⟨conn', ms, hc, hms⟩⟩ := h.read_cases nread
  · refine iff_of_true ?_ fun hne => absurd hnil hne
    rw [Dichotomy, syncConnectionRead_of_chunk_nil conn hnil]
    rintro conn' rc ⟨⟩
    exact Or.inr ⟨by simp [hpeUser], h.inputList, h.readerStatus⟩
  · refine iff_of_true ?_ (h.takesWhole_of_error hc)
    rw [Dichotomy, syncConnectionRead_of_chunk conn hne, hc]
    rintro conn' rc ⟨⟩
  · rw [takesWhole_iff hne hms, Dichotomy, syncConnectionRead_of_chunk conn hne, hc]
    simp only [Except.ok_bind, h.afterConsume_eq hms]
    constructor
    · intro hd hrc
      obtain ⟨hok, -⟩ | ⟨-, hlist, -⟩ := hd conn' _ (by rw [if_pos hrc]; rfl)
      · exact absurd hok hrc
      · exact hms.inputList ▸ hlist
    · intro hnil conn'' rc heq
      by_cases hrc : (L.execute conn.llhttp nread.chunk).2.2 ≠ .ok
      · rw [if_pos hrc] at heq
        cases heq
        refine Or.inr ⟨hrc, hms.inputList.trans (hnil hrc), ?_⟩
        rw [hms.readerStatus, hnil hrc]
        rfl
      · rw [if_neg hrc] at heq
        split at heq
        · cases heq
        · cases heq
          exact Or.inl ⟨rfl, List.length_pos_iff.mpr (hms.inputList ▸ ‹_›)⟩

end SyncConnection

namespace Worker

open SyncConnection

variable {L : Llhttp} {w : Worker L} {conn : SyncConnection L} {nread : RecvResult}

/-- A condition on the reads of a run. -/
def InRead (P : SyncConnection L → RecvResult → Prop) (w : Worker L) : Act → Prop
  | .read nread =>
    match w.control with
    | .reading conn => P conn nread
    | _ => True
  | _ => True

private theorem inRead_congr {P P' : SyncConnection L → RecvResult → Prop}
    (hP : ∀ conn nread, conn.Waiting → (P conn nread ↔ P' conn nread)) (h : Coherent w) (a : Act) :
    InRead P w a ↔ InRead P' w a := by
  cases a with
  | accept => exact Iff.rfl
  | handle => exact Iff.rfl
  | read nread =>
    cases hw : w.control with
    | reading conn =>
      simp only [Coherent, hw] at h
      simp only [InRead, hw]
      exact hP conn nread h
    | _ => simp only [InRead, hw]

/-- When a `read` makes the assertion fail. -/
theorem read_error_iff (h : conn.Waiting) :
    w.read conn nread = .error invariantsFailed ↔ ¬ conn.TakesWhole nread := by
  obtain hnil | ⟨hne, ⟨e, hc⟩ | ⟨conn', ms, hc, hms⟩⟩ := h.read_cases nread
  · rw [read_of_chunk_nil h hnil]
    exact iff_of_false (by simp [nullRequest, invariantsFailed])
      (not_not.mpr fun hne => absurd hnil hne)
  · obtain ⟨abort, rfl⟩ := consume_error hc
    rw [read_of_consume_error hne hc]
    exact iff_of_false (by simp [invariantsFailed]) (not_not.mpr (h.takesWhole_of_error hc))
  · rw [read_of_consumed h hne hc hms, takesWhole_iff hne hms]
    by_cases hrc : (L.execute conn.llhttp nread.chunk).2.2 ≠ .ok
    · rw [if_pos hrc]
      by_cases hnil : ms = []
      · rw [if_pos hnil]
        exact iff_of_false (by simp [nullRequest, invariantsFailed]) (not_not.mpr fun _ => hnil)
      · rw [if_neg hnil]
        exact iff_of_true rfl fun himp => hnil (himp hrc)
    · rw [if_neg hrc]
      refine iff_of_false ?_ (not_not.mpr fun h' => absurd h' hrc)
      intro heq
      cases ms with
      | nil => cases heq
      | cons m rest => cases heq

private theorem step_error_iff (h : Coherent w) (a : Act) :
    w.step a = .error invariantsFailed ↔ ¬ InRead TakesWhole w a := by
  cases a with
  | accept sock2 heap memory =>
    refine iff_of_false (fun hs => ?_) (not_not.mpr trivial)
    simp only [step] at hs
    split at hs
    · obtain ⟨w', hw'⟩ := exists_accept w sock2 heap memory
      cases hs.symm.trans hw'
    · cases hs
  | read nread =>
    cases hw : w.control with
    | reading conn =>
      simp only [Coherent, hw] at h
      simp only [step, InRead, hw]
      exact read_error_iff h
    | _ =>
      simp only [step, InRead, hw, not_true_eq_false, iff_false]
      intro hs
      cases hs
  | handle reply memory sent =>
    refine iff_of_false (fun hs => ?_) (not_not.mpr trivial)
    simp only [step] at hs
    split at hs
    · obtain ⟨abort, habort⟩ := handle_error hs
      cases habort
    · cases hs

/-- **The outcome of every read.** In a run of a worker over any connections, every read that
returns has the outcome relied on, and the assertion on it never fails, if and only if `llhttp`
never completes a message in a buffer and then rejects that buffer. -/
theorem read_dichotomy_iff (as : List Act) :
    (Machine.Along step (InRead Dichotomy) (init L) as ∧
        Machine.run step (init L) as ≠ .error invariantsFailed) ↔
      Machine.Along step (InRead TakesWhole) (init L) as := by
  have hstep : ∀ (w : Worker L) a w', Coherent w → w.step a = .ok w' → Coherent w' :=
    fun w a w' h hs => coherent_step h hs
  have hcongr : Machine.Along step (InRead Dichotomy) (init L) as ↔
      Machine.Along step (InRead TakesWhole) (init L) as :=
    Machine.along_congr hstep
      (fun w a h => inRead_congr (fun _ nread hw => hw.dichotomy_iff nread) h a) (init_coherent L)
  have herr : Machine.run step (init L) as ≠ .error invariantsFailed ↔
      Machine.Along step (InRead TakesWhole) (init L) as :=
    Machine.run_ne_error_iff_along hstep (fun w a h => step_error_iff h a) (init_coherent L)
  rw [hcongr, herr, and_self_iff]

/-- A parser that has read one request and finds that a `?` cannot begin the next one:
`HPE_INVALID_METHOD`. -/
def getThenGarbage : Llhttp where
  State := Unit
  init := ()
  execute _ bs :=
    if bs = World.getRequest ++ ascii "?" then
      ((), [.messageBegin, .url (ascii "/"), .headerField (ascii "Connection"),
        .headerValue (ascii "keep-alive"), .headersComplete 1 1 1, .messageComplete], .error 6)
    else ((), [], .ok)
  finish _ := ((), [], .ok)

/-- A peer sends a request and one byte more, and the server aborts. -/
theorem request_and_garbage_abort :
    Machine.run step (init getThenGarbage)
      [.accept 4 (.const .zeros) (fun _ => 0), .read (.got (World.getRequest ++ ascii "?"))] =
        .error invariantsFailed ∧
      ¬ Machine.Along step (InRead Dichotomy) (init getThenGarbage)
        [.accept 4 (.const .zeros) (fun _ => 0), .read (.got (World.getRequest ++ ascii "?"))] := by
  refine ⟨rfl, fun h => ?_⟩
  obtain ⟨hok, -⟩ | ⟨-, hlist, -⟩ := h.2.1 _ _ rfl
  · cases hok
  · cases hlist

/-! ### The end of a connection -/

/-- What the end of a connection does: the worker aborts, on the assertion about the request where
no message was completed. -/
theorem read_of_ends (h : conn.Waiting) (hend : conn.Ends nread) :
    ∃ e, w.read conn nread = .error e ∧
      (nread.chunk = [] ∨ (∃ conn' rc, conn.consume nread.chunk = .ok (conn', rc) ∧
        conn'.inputList = []) → e = nullRequest) := by
  obtain hnil | ⟨hne, ⟨e, hc⟩ | ⟨conn', ms, hc, hms⟩⟩ := h.read_cases nread
  · exact ⟨nullRequest, read_of_chunk_nil h hnil, fun _ => rfl⟩
  · refine ⟨e, read_of_consume_error hne hc, ?_⟩
    rintro (hnil | ⟨conn', rc, hc', -⟩)
    · exact absurd hnil hne
    · cases hc.symm.trans hc'
  · have hrc := hend.resolve_left hne
    refine ⟨_, by rw [read_of_consumed h hne hc hms, if_pos hrc], ?_⟩
    rintro (hnil | ⟨conn'', rc, hc', hlist⟩)
    · exact absurd hnil hne
    · cases hc.symm.trans hc'
      rw [if_pos (hms.inputList ▸ hlist)]

/-- **Every end of a connection aborts the server.** Whatever the worker has served before: when the
peer closes, a read times out or fails, or the parser rejects what came, the process aborts, and no
next `accept` is reached. Where no message is completed by then, it is the assertion that the
request is not `NULL` which fails, since −1 passes for a message. -/
theorem connection_end_aborts {as : List Act} (hr : Machine.run step (init L) as = .ok w)
    (hw : w.control = .reading conn) (hend : conn.Ends nread) :
    ∃ e, (∀ bs, Machine.run step (init L) (as ++ .read nread :: bs) = .error e) ∧
      (nread.chunk = [] ∨ (∃ conn' rc, conn.consume nread.chunk = .ok (conn', rc) ∧
        conn'.inputList = []) → e = nullRequest) := by
  have hcoh : Coherent w :=
    Machine.run_invariant (fun w a w' h hs => coherent_step h hs) (init_coherent L) hr
  simp only [Coherent, hw] at hcoh
  obtain ⟨e, he, hnull⟩ := read_of_ends (w := w) hcoh hend
  refine ⟨e, fun bs => ?_, hnull⟩
  rw [Machine.run_append hr]
  refine Machine.run_cons_error ?_
  simp only [step, hw]
  exact he

/-- A read times out before the first request. -/
theorem connection_end_aborts_timeout :
    Machine.run step (init (World.getRequests 1))
      [.accept 4 (.const .zeros) (fun _ => 0), .read (.fail eagain)] = .error nullRequest := by
  have hend : (SyncConnection.new (World.getRequests 1) 4 (.const .zeros) fun _ => 0).Ends
      (.fail eagain) := Or.inl rfl
  have haccept : Machine.run step (init (World.getRequests 1))
      [.accept 4 (.const .zeros) (fun _ => 0)] =
        .ok ((init (World.getRequests 1)).opened 4 (.const .zeros) fun _ => 0) := rfl
  obtain ⟨e, he, hnull⟩ := connection_end_aborts haccept rfl hend
  rw [← hnull (Or.inl rfl)]
  exact he []

/-- A client connects and closes, and the worker does not come to its next `accept`. -/
theorem connect_and_close_aborts :
    ¬ ∃ w, Machine.run step (init (World.getRequests 1))
      [.accept 4 (.const .zeros) (fun _ => 0), .read (.got [])] = .ok w ∧
        w.control = .accepting := by
  rintro ⟨w, hw, -⟩
  cases hw

/-! ### The sockets -/

/-- The ledger of a worker's sockets: each one it accepted is closed, once and in turn, but for the
last, which may be open. -/
structure Ledger (w : Worker L) : Prop where
  closed : w.closed = w.accepted ∨ w.closed = w.accepted.dropLast
  open_le_one : w.accepted.length - w.closed.length ≤ 1

/-- No connection was accepted before this one. -/
def FirstAccept (w : Worker L) : Act → Prop
  | .accept sock2 _ _ =>
    match w.control with
    | .accepting => 0 < sock2 → w.accepted = []
    | _ => True
  | _ => True

private theorem closed_of_move {w' : Worker L} {a : Act} (hm : Move w a w') :
    w'.closed = w.closed := by
  cases hm with
  | _ => rfl

/-- With no socket closed, the ledger is right as long as one was accepted at most. -/
theorem ledger_iff_length (h : w.closed = []) : Ledger w ↔ w.accepted.length ≤ 1 := by
  constructor
  · intro hl
    have := hl.open_le_one
    rwa [h, List.length_nil, Nat.sub_zero] at this
  · intro hl
    refine ⟨Or.inr ?_, ?_⟩
    · rw [h, eq_comm, ← List.length_eq_zero_iff, List.length_dropLast]
      omega
    · rw [h, List.length_nil, Nat.sub_zero]
      exact hl

/-- One step: a second connection breaks the ledger, nothing else does. -/
theorem length_iff_firstAccept {w' : Worker L} {a : Act} (hm : Move w a w')
    (hq : w.accepted.length ≤ 1) : w'.accepted.length ≤ 1 ↔ FirstAccept w a := by
  cases hm with
  | opens hw hpos =>
    simp only [opened, List.length_append, List.length_singleton, FirstAccept, hw, hpos,
      true_implies, ← List.length_eq_zero_iff]
    omega
  | stay hi =>
    refine iff_of_true hq ?_
    cases a with
    | accept =>
      simp only [FirstAccept]
      split
      · exact absurd ‹_› hi
      · trivial
    | read => trivial
    | handle => trivial
  | refuse hw hle =>
    refine iff_of_true hq ?_
    simp only [FirstAccept, hw]
    intro hpos
    omega
  | more => exact iff_of_true hq trivial
  | request => exact iff_of_true hq trivial
  | next => exact iff_of_true hq trivial
  | again => exact iff_of_true hq trivial
  | finish => exact iff_of_true hq trivial

/-- **The worker's sockets, exactly.** In every state of a run the sockets accepted before the last
one are closed, once each, and at most one is open, if and only if the run accepts no second
connection: no way out of the loop over a connection closes its socket. -/
theorem ledger_iff (as : List Act) :
    Machine.Always step Ledger (init L) as ↔ Machine.Along step FirstAccept (init L) as := by
  have hstep : ∀ (w : Worker L) a w', Coherent w ∧ w.closed = [] → w.step a = .ok w' →
      Coherent w' ∧ w'.closed = [] := fun w a w' h hs =>
    ⟨coherent_step h.1 hs, (closed_of_move (move_of_step h.1 hs)).trans h.2⟩
  have hkeep : ∀ (w : Worker L) a w', Coherent w ∧ w.closed = [] → Ledger w → w.step a = .ok w' →
      (Ledger w' ↔ FirstAccept w a) := by
    intro w a w' h hq hs
    have hm := move_of_step h.1 hs
    rw [ledger_iff_length (hstep w a w' h hs).2]
    exact length_iff_firstAccept hm ((ledger_iff_length h.2).mp hq)
  have herr : ∀ (w : Worker L) a e, Coherent w ∧ w.closed = [] → Ledger w → w.step a = .error e →
      FirstAccept w a := by
    intro w a e _ _ hs
    cases a with
    | accept sock2 heap memory =>
      simp only [step] at hs
      split at hs
      · obtain ⟨w', hw'⟩ := exists_accept w sock2 heap memory
        cases hs.symm.trans hw'
      · cases hs
    | read => trivial
    | handle => trivial
  exact Machine.always_iff_along hstep hkeep herr ⟨init_coherent L, rfl⟩
    ((ledger_iff_length rfl).mpr (Nat.zero_le _))

/-- A request that does not ask for the connection to be kept. -/
def lastRequest : List UInt8 := ascii "GET / HTTP/1.1\r\n\r\n"

/-- A parser for it. -/
def oneLastRequest : Llhttp where
  State := Unit
  init := ()
  execute _ bs :=
    if bs = lastRequest then
      ((), [.messageBegin, .url (ascii "/"), .headersComplete 1 1 1, .messageComplete], .ok)
    else ((), [], .ok)
  finish _ := ((), [], .ok)

/-- Two clients, one after the other; each is answered with `Connection: close`. -/
def twoClients : List Act :=
  [.accept 4 (.const .zeros) (fun _ => 0), .read (.got lastRequest),
    .handle (some { Message.newResponse .zeros with statusCode := 200 }) (fun _ => 0)
      (.accepted 1000),
    .accept 5 (.const .zeros) (fun _ => 0)]

/-- The worker owns the sockets of both. -/
theorem two_clients_leak :
    (Machine.run step (init oneLastRequest) twoClients).map (fun w => (w.accepted, w.closed)) =
        .ok ([4, 5], []) ∧
      ¬ Machine.Always step Ledger (init oneLastRequest) twoClients := by
  have hrun : (Machine.run step (init oneLastRequest) twoClients).map
      (fun w => (w.accepted, w.closed)) = .ok ([4, 5], []) := by decide +kernel
  refine ⟨hrun, fun h => ?_⟩
  cases hr : Machine.run step (init oneLastRequest) twoClients with
  | error e =>
    rw [hr] at hrun
    cases hrun
  | ok t =>
    rw [hr] at hrun
    have haccepted : t.accepted = [4, 5] := congrArg Prod.fst (Except.ok.inj hrun)
    have hclosed : t.closed = [] := congrArg Prod.snd (Except.ok.inj hrun)
    have hle := (ledger_iff_length hclosed).mp (h.last hr)
    rw [haccepted] at hle
    exact absurd hle (by decide)

end Worker

end CHttp
