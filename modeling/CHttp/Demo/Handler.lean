import CHttp.Demo.Message
import CHttp.ForMathlib.Machine

/-!
# The handler of the demo protocol

`demo_handler.c`: responses wait in `output_list` and are written one at a time. A write is started
by `postable_write_start`, which is posted when a response becomes the only one in the list, and
when a write completes and finds exactly one response there.

The connection is the environment. A read that was asked for ends with a request or an error, a
write that was started completes, both at any time; the reactor runs what was posted in order. That
makes every list of actions an interleaving of requests, completions and posted functions.
-/

namespace CHttp

/-- The functions a handler posts: `postable_write_start` and `handler_postable_read_start`. -/
inductive DemoFunctor
  | writeStart
  | readStart
  deriving DecidableEq, Repr

/-- `DemoHandler`, and what is outstanding for it: the functions posted to the reactor, whether a
read is active, and the response that `democonnection_write` was called with. `requests` lists the
requests handled, each with the memory its response is allocated in, and `written` the responses
whose writes have completed. -/
structure DemoHandler where
  outputList : List DemoMessage
  activeResponse : Option DemoMessage
  readyList : List DemoFunctor
  reading : Bool
  writing : Option DemoMessage
  requests : List (DemoHeap × DemoMessage)
  written : List DemoMessage

/-- What can happen next: the active read ends, the first posted function runs, the active write
completes. -/
inductive DemoAct
  | readDone (heap : DemoHeap) (result : Except ℤ DemoMessage)
  | run
  | writeDone

/-- `process_request`. -/
def processRequest (heap : DemoHeap) (request : DemoMessage) : DemoMessage :=
  let reply := (DemoMessage.new heap).setIsRequest false
  let bc := BufferChain.new.appendBufferchain (fun _ => heap.body) request.body
  reply.setBody bc

namespace DemoHandler

/-- `rtor_reactor_post`. -/
def post (this : DemoHandler) (f : DemoFunctor) : DemoHandler :=
  { this with readyList := this.readyList ++ [f] }

/-- `democonnection_read`, for its caller: one read at a time. -/
def democonnectionRead (this : DemoHandler) : Except Abort DemoHandler := do
  assertThat (!this.reading) "democonnection_read" "a read is already active"
  return { this with reading := true }

/-- `democonnection_write`, for its caller: one write at a time. -/
def democonnectionWrite (this : DemoHandler) (response : DemoMessage) :
    Except Abort DemoHandler := do
  assertThat this.writing.isNone "democonnection_write" "a write is already active"
  return { this with writing := some response }

/-- `demohandler_init`; it starts the first read. -/
def init : DemoHandler := ⟨[], none, [], true, none, [], []⟩

/-- `handle_request`; a message comes without an error code, and an error code without one. -/
def handleRequest (this : DemoHandler) (heap : DemoHeap) :
    Except ℤ DemoMessage → DemoHandler
  | .error _ => this
  | .ok msgref =>
    let this := { this with
      requests := this.requests ++ [(heap, msgref)]
      outputList := this.outputList ++ [processRequest heap msgref] }
    let this := if this.outputList.length = 1 then this.post .writeStart else this
    this.post .readStart

/-- `postable_write_start`. -/
def postableWriteStart (this : DemoHandler) : Except Abort DemoHandler :=
  if this.activeResponse.isSome then .ok this
  else do
    let response := this.outputList.head?
    let this := { this with outputList := this.outputList.tail }
    assertThat this.activeResponse.isNone "postable_write_start"
      "handler active response should be NULL"
    let this := { this with activeResponse := response }
    match response with
    | some response => this.democonnectionWrite response
    | none => return this

/-- `on_write_complete_cb`; it does not look at the status. -/
def onWriteCompleteCb (this : DemoHandler) : DemoHandler :=
  let this := { this with activeResponse := none }
  if this.outputList.length = 1 then this.post .writeStart else this

/-- A posted function. -/
def call (this : DemoHandler) : DemoFunctor → Except Abort DemoHandler
  | .writeStart => this.postableWriteStart
  | .readStart => this.democonnectionRead

/-- One action; one that has no place in the state does nothing. -/
def step (this : DemoHandler) : DemoAct → Except Abort DemoHandler
  | .readDone heap result =>
    .ok (if this.reading then { this with reading := false }.handleRequest heap result else this)
  | .run =>
    match this.readyList with
    | [] => .ok this
    | f :: rest => { this with readyList := rest }.call f
  | .writeDone =>
    match this.writing with
    | none => .ok this
    | some response => .ok { this with
        writing := none
        written := this.written ++ [response] }.onWriteCompleteCb

/-- The responses put on `output_list` so far. -/
def replies (this : DemoHandler) : List DemoMessage :=
  this.requests.map fun r => processRequest r.1 r.2

/-- Responses do not wait for nothing: one is being written, or a write is about to be started. -/
def NotStranded (this : DemoHandler) : Prop :=
  this.outputList ≠ [] → this.activeResponse.isSome ∨ .writeStart ∈ this.readyList

/-- When a write completes, at most one response waits, or a write is about to be started. -/
def SafeCompletion (this : DemoHandler) (a : DemoAct) : Prop :=
  a = .writeDone → this.outputList.length ≤ 1 ∨ .writeStart ∈ this.readyList

/-! ### What one action does -/

/-- The state is coherent: the response being written is the active one, every response is written,
being written or waiting, in the order of the requests, and a read is asked for once. -/
structure Sound (h : DemoHandler) : Prop where
  active : h.activeResponse = h.writing
  replies_eq : h.replies = h.written ++ h.writing.toList ++ h.outputList
  reads : h.readyList.count .readStart + h.reading.toNat ≤ 1

private theorem init_sound : init.Sound := ⟨rfl, rfl, by decide⟩

/-- The effect of an action on a coherent state. -/
inductive Move (h : DemoHandler) : DemoAct → DemoHandler → Prop
  | request {heap : DemoHeap} {m : DemoMessage} (hr : h.reading = true) :
      Move h (.readDone heap (.ok m)) { h with
        reading := false
        requests := h.requests ++ [(heap, m)]
        outputList := h.outputList ++ [processRequest heap m]
        readyList := h.readyList ++ ((if h.outputList = [] then [.writeStart] else []) ++
          [.readStart]) }
  | readError {heap : DemoHeap} {code : ℤ} (hr : h.reading = true) :
      Move h (.readDone heap (.error code)) { h with reading := false }
  | notReading {heap : DemoHeap} {result : Except ℤ DemoMessage} (hr : h.reading = false) :
      Move h (.readDone heap result) h
  | nothingPosted (hq : h.readyList = []) : Move h .run h
  | readStart {rest : List DemoFunctor} (hq : h.readyList = .readStart :: rest) :
      Move h .run { h with readyList := rest, reading := true }
  | writeActive {rest : List DemoFunctor} (hq : h.readyList = .writeStart :: rest)
      (hw : h.writing.isSome) : Move h .run { h with readyList := rest }
  | nothingWaits {rest : List DemoFunctor} (hq : h.readyList = .writeStart :: rest)
      (hw : h.writing = none) (ho : h.outputList = []) : Move h .run { h with readyList := rest }
  | writeStart {rest : List DemoFunctor} {response : DemoMessage} {out : List DemoMessage}
      (hq : h.readyList = .writeStart :: rest) (hw : h.writing = none)
      (ho : h.outputList = response :: out) :
      Move h .run { h with
        readyList := rest
        outputList := out
        activeResponse := some response
        writing := some response }
  | notWriting (hw : h.writing = none) : Move h .writeDone h
  | writeDone {response : DemoMessage} (hw : h.writing = some response) :
      Move h .writeDone { h with
        writing := none
        activeResponse := none
        written := h.written ++ [response]
        readyList := h.readyList ++ if h.outputList.length = 1 then [.writeStart] else [] }

private theorem step_readDone (h : DemoHandler) (heap : DemoHeap) (result : Except ℤ DemoMessage) :
    ∃ h', h.step (.readDone heap result) = .ok h' ∧ h.Move (.readDone heap result) h' := by
  cases hr : h.reading with
  | false => exact ⟨h, by simp [step, hr], .notReading hr⟩
  | true =>
    cases result with
    | error code =>
      exact ⟨{ h with reading := false }, by simp [step, hr, handleRequest], .readError hr⟩
    | ok m =>
      refine ⟨_, ?_, .request hr⟩
      by_cases ho : h.outputList = []
      · simp [step, hr, handleRequest, ho, post]
      · simp [step, hr, handleRequest, ho, post]

theorem step_run {h : DemoHandler} (hs : h.Sound) :
    ∃ h', h.step .run = .ok h' ∧ h.Move .run h' := by
  cases hq : h.readyList with
  | nil => exact ⟨h, by simp [step, hq], .nothingPosted hq⟩
  | cons f rest =>
    cases f with
    | readStart =>
      have hr : h.reading = false := by
        have hreads := hs.reads
        rw [hq, List.count_cons_self] at hreads
        cases hr : h.reading with
        | false => rfl
        | true =>
          rw [hr] at hreads
          simp at hreads
      refine ⟨_, ?_, .readStart hq⟩
      simp [step, hq, call, democonnectionRead, hr]
    | writeStart =>
      cases hw : h.writing with
      | some r =>
        refine ⟨_, ?_, .writeActive hq (by rw [hw]; rfl)⟩
        simp [step, hq, call, postableWriteStart, hs.active, hw]
      | none =>
        cases ho : h.outputList with
        | nil =>
          refine ⟨_, ?_, .nothingWaits hq hw ho⟩
          simp [step, hq, call, postableWriteStart, hs.active, hw, ho]
        | cons r out =>
          refine ⟨_, ?_, .writeStart hq hw ho⟩
          simp [step, hq, call, postableWriteStart, democonnectionWrite, hs.active, hw, ho]

private theorem step_writeDone (h : DemoHandler) :
    ∃ h', h.step .writeDone = .ok h' ∧ h.Move .writeDone h' := by
  cases hw : h.writing with
  | none => exact ⟨h, by simp [step, hw], .notWriting hw⟩
  | some r =>
    refine ⟨_, ?_, .writeDone hw⟩
    by_cases ho : h.outputList.length = 1
    · simp [step, hw, onWriteCompleteCb, ho, post]
    · simp [step, hw, onWriteCompleteCb, ho]

/-- **One action.** It does not fail. -/
theorem step_spec {h : DemoHandler} (hs : h.Sound) (a : DemoAct) :
    ∃ h', h.step a = .ok h' ∧ h.Move a h' := by
  cases a with
  | readDone heap result => exact step_readDone h heap result
  | run => exact step_run hs
  | writeDone => exact step_writeDone h

theorem move_of_step {h h' : DemoHandler} {a : DemoAct} (hs : h.Sound) (h₁ : h.step a = .ok h') :
    h.Move a h' := by
  obtain ⟨h'', h₂, hm⟩ := step_spec hs a
  cases h₁.symm.trans h₂
  exact hm

private theorem replies_append (h : DemoHandler) (heap : DemoHeap) (m : DemoMessage) :
    (h.requests ++ [(heap, m)]).map (fun r => processRequest r.1 r.2) =
      h.replies ++ [processRequest heap m] := by
  simp [replies]

private theorem count_readStart (c : Prop) [Decidable c] :
    (if c then [DemoFunctor.writeStart] else []).count .readStart = 0 := by
  split <;> rfl

/-- Coherence is kept. -/
theorem Move.sound {h h' : DemoHandler} {a : DemoAct} (hm : h.Move a h') (hs : h.Sound) :
    h'.Sound := by
  obtain ⟨hactive, hreplies, hreads⟩ := hs
  cases hm with
  | request hr =>
    refine ⟨hactive, ?_, ?_⟩
    · rw [replies, replies_append, hreplies, List.append_assoc]
    · rw [hr] at hreads
      simp only [List.count_append, count_readStart, List.count_singleton_self, Bool.toNat_false]
      simp only [Bool.toNat_true] at hreads
      omega
  | readError hr =>
    refine ⟨hactive, hreplies, ?_⟩
    simp only [Bool.toNat_false]
    omega
  | notReading hr => exact ⟨hactive, hreplies, hreads⟩
  | nothingPosted hq => exact ⟨hactive, hreplies, hreads⟩
  | readStart hq =>
    refine ⟨hactive, hreplies, ?_⟩
    rw [hq, List.count_cons_self] at hreads
    simp only [Bool.toNat_true]
    omega
  | writeActive hq _ =>
    rw [hq, List.count_cons_of_ne (by decide)] at hreads
    exact ⟨hactive, hreplies, hreads⟩
  | nothingWaits hq _ _ =>
    rw [hq, List.count_cons_of_ne (by decide)] at hreads
    exact ⟨hactive, hreplies, hreads⟩
  | writeStart hq hw ho =>
    rw [hq, List.count_cons_of_ne (by decide)] at hreads
    refine ⟨rfl, ?_, hreads⟩
    change h.replies = _
    rw [hreplies, hw, ho]
    simp
  | notWriting hw => exact ⟨hactive, hreplies, hreads⟩
  | writeDone hw =>
    refine ⟨rfl, ?_, ?_⟩
    · change h.replies = _
      rw [hreplies, hw]
      simp
    · simp only [List.count_append, count_readStart]
      exact hreads

private theorem step_sound (h : DemoHandler) (a : DemoAct) (h' : DemoHandler) (hs : h.Sound)
    (h₁ : h.step a = .ok h') : h'.Sound :=
  (move_of_step hs h₁).sound hs

/-- Posted functions stay posted until they are run. -/
theorem mem_tail_of_ne {f : DemoFunctor} {rest : List DemoFunctor} (hf : f ≠ .writeStart)
    (h : .writeStart ∈ f :: rest) : .writeStart ∈ rest := by
  rcases List.mem_cons.mp h with heq | hmem
  · exact absurd heq.symm hf
  · exact hmem

/-- **The condition is exact.** From a state without stranded responses an action leads to another
such state exactly when it is a safe completion, if it is a completion at all. -/
theorem Move.notStranded_iff {h h' : DemoHandler} {a : DemoAct} (hm : h.Move a h') (hs : h.Sound)
    (hn : h.NotStranded) : h'.NotStranded ↔ h.SafeCompletion a := by
  cases hm with
  | request hr =>
    refine iff_of_true (fun _ => ?_) nofun
    by_cases ho : h.outputList = []
    · exact Or.inr (by simp [ho])
    · exact (hn ho).imp_right fun hmem => List.mem_append_left _ hmem
  | readError hr => exact iff_of_true hn nofun
  | notReading hr => exact iff_of_true hn nofun
  | nothingPosted hq => exact iff_of_true hn nofun
  | readStart hq =>
    refine iff_of_true (fun ho => (hn ho).imp_right fun hmem => ?_) nofun
    exact mem_tail_of_ne (by decide) (hq ▸ hmem)
  | writeActive hq hw =>
    refine iff_of_true (fun ho => Or.inl ?_) nofun
    exact hs.active ▸ hw
  | nothingWaits hq hw ho => exact iff_of_true (fun hne => absurd ho hne) nofun
  | writeStart hq hw ho => exact iff_of_true (fun _ => Or.inl rfl) nofun
  | notWriting hw =>
    refine iff_of_true hn fun _ => ?_
    by_cases ho : h.outputList = []
    · exact Or.inl (by simp [ho])
    · refine (hn ho).imp_left fun hact => ?_
      rw [hs.active, hw] at hact
      cases hact
  | writeDone hw =>
    constructor
    · intro hn' _
      by_cases hle : h.outputList.length ≤ 1
      · exact Or.inl hle
      · have ho : h.outputList ≠ [] := fun hnil => hle (by simp [hnil])
        have hlen : h.outputList.length ≠ 1 := fun hone => hle (Nat.le_of_eq hone)
        exact Or.inr (by simpa [hlen] using hn' ho)
    · intro hsafe ho
      refine Or.inr ?_
      rcases hsafe rfl with hle | hmem
      · have hone : h.outputList.length = 1 := by
          have hpos : 0 < h.outputList.length := List.length_pos_iff.mpr ho
          omega
        simp [hone]
      · exact List.mem_append_left _ hmem

/-! ### Progress -/

/-- How far the next completion is: nothing has to happen before it, or the posted functions up to
`postable_write_start` have to run. -/
def wait (h : DemoHandler) : ℕ :=
  if h.writing.isSome then 0 else h.readyList.idxOf .writeStart + 1

/-- The action that the next completion waits for. -/
def help (h : DemoHandler) : DemoAct := if h.writing.isSome then .writeDone else .run

/-- While a write is active, only its completion is waited for. -/
theorem Move.progress_of_isSome {h h' : DemoHandler} {a : DemoAct} (hm : h.Move a h')
    (hw : h.writing.isSome) (hw' : h'.written = h.written) :
    h'.writing = h.writing ∧ a ≠ .writeDone := by
  cases hm with
  | request hr => exact ⟨rfl, nofun⟩
  | readError hr => exact ⟨rfl, nofun⟩
  | notReading hr => exact ⟨rfl, nofun⟩
  | nothingPosted hq => exact ⟨rfl, nofun⟩
  | readStart hq => exact ⟨rfl, nofun⟩
  | writeActive hq _ => exact ⟨rfl, nofun⟩
  | nothingWaits hq hnone ho => exact ⟨rfl, nofun⟩
  | writeStart hq hnone ho => simp [hnone] at hw
  | notWriting hnone => simp [hnone] at hw
  | writeDone hr => simp at hw'

/-- While none is active, the posted functions are what is waited for. -/
theorem Move.progress_of_none {h h' : DemoHandler} {a : DemoAct} (hm : h.Move a h')
    (hw : h.writing = none) (ho : h.outputList ≠ []) (hq : .writeStart ∈ h.readyList) :
    h'.wait < h.wait ∨ h'.wait = h.wait ∧ h'.writing = none ∧ a ≠ .run := by
  cases hm with
  | request hr =>
    refine Or.inr ⟨?_, hw, nofun⟩
    simp only [wait, hw, List.idxOf_append_of_mem hq]
  | readError hr => exact Or.inr ⟨rfl, hw, nofun⟩
  | notReading hr => exact Or.inr ⟨rfl, hw, nofun⟩
  | nothingPosted hnil => simp [hnil] at hq
  | readStart hcons =>
    left
    simp [wait, hw, hcons]
  | writeActive hcons hsome => simp [hw] at hsome
  | nothingWaits hcons _ hnil => exact absurd hnil ho
  | writeStart hcons _ hout =>
    left
    simp [wait, hw]
  | notWriting _ => exact Or.inr ⟨rfl, hw, nofun⟩
  | writeDone hr =>
    rw [hw] at hr
    cases hr

/-- **Progress.** An action that writes nothing while a response waits or is being written brings
the next completion nearer, or it is not the one that was waited for. -/
theorem Move.progress {h h' : DemoHandler} {a : DemoAct} (hm : h.Move a h') (hs : h.Sound)
    (hn : h.NotStranded) (hpending : h.written ≠ h.replies) (hw' : h'.written = h.written) :
    h'.wait < h.wait ∨ h'.wait = h.wait ∧ h'.help = h.help ∧ a ≠ h.help := by
  by_cases hw : h.writing.isSome
  · obtain ⟨hsame, hne⟩ := hm.progress_of_isSome hw hw'
    have hhelp : h.help = .writeDone := if_pos hw
    refine Or.inr ⟨?_, by rw [help, help, hsame], by rwa [hhelp]⟩
    simp only [wait, hsame, hw, if_true]
  · have hnone : h.writing = none := Option.not_isSome_iff_eq_none.mp hw
    have ho : h.outputList ≠ [] := by
      intro ho
      rw [hs.replies_eq, hnone, ho] at hpending
      simp at hpending
    have hq : .writeStart ∈ h.readyList := by
      rcases hn ho with hact | hmem
      · exact absurd (hs.active ▸ hact) hw
      · exact hmem
    have hhelp : h.help = .run := if_neg hw
    refine (hm.progress_of_none hnone ho hq).imp_right ?_
    rintro ⟨hwait, hnone', hne⟩
    exact ⟨hwait, by rw [help, help, hnone, hnone'], by rwa [hhelp]⟩

/-- What has been written stays written, and so do the responses. -/
theorem Move.grows {h h' : DemoHandler} {a : DemoAct} (hm : h.Move a h') :
    h.written <+: h'.written ∧ h.replies <+: h'.replies := by
  cases hm with
  | request hr => exact ⟨List.prefix_refl _, by simp [replies]⟩
  | writeDone hw => exact ⟨List.prefix_append _ _, List.prefix_refl _⟩
  | _ => exact ⟨List.prefix_refl _, List.prefix_refl _⟩

/-! ### Runs -/

section Path

variable {st : ℕ → DemoHandler} {as : ℕ → DemoAct}

private theorem path_grows (hpath : Machine.Path step st as) (hs : ∀ n, (st n).Sound) {n m : ℕ}
    (hnm : n ≤ m) : (st n).written <+: (st m).written ∧ (st n).replies <+: (st m).replies := by
  induction m, hnm using Nat.le_induction with
  | base => exact ⟨List.prefix_refl _, List.prefix_refl _⟩
  | succ m _ ih =>
    obtain ⟨hw, hr⟩ := (move_of_step (hs m) (hpath m)).grows
    exact ⟨ih.1.trans hw, ih.2.trans hr⟩

/-- As long as responses are to be written, another one is written in the end. -/
theorem exists_written_ne (hpath : Machine.Path step st as) (hs : ∀ n, (st n).Sound)
    (hn : ∀ n, (st n).NotStranded) (hrun : ∀ n, ∃ k, as (n + k) = .run)
    (hdone : ∀ n, (st n).activeResponse.isSome → ∃ k, as (n + k) = .writeDone) (n : ℕ)
    (hpending : (st n).written.length < (st n).replies.length) :
    ∃ m, n ≤ m ∧ (st m).written ≠ (st n).written := by
  have hfair : ∀ m, ∃ k, as (m + k) = (st m).help := by
    intro m
    unfold help
    split
    · exact hdone m ((hs m).active ▸ ‹_›)
    · exact hrun m
  have hstep : ∀ m, n ≤ m ∧ (st m).written = (st n).written →
      n ≤ m + 1 ∧ (st (m + 1)).written = (st n).written →
      (st (m + 1)).wait < (st m).wait ∨ (st (m + 1)).wait = (st m).wait ∧
        (st (m + 1)).help = (st m).help ∧ as m ≠ (st m).help := by
    intro m hm hm'
    refine (move_of_step (hs m) (hpath m)).progress (hs m) (hn m) ?_ (hm'.2.trans hm.2.symm)
    intro heq
    have hlen := (path_grows hpath hs hm.1).2.length_le
    rw [← heq, hm.2] at hlen
    omega
  obtain ⟨m, hm, hnot⟩ := Machine.exists_not_of_helpful (V := fun m => (st m).wait)
    (P := fun m => n ≤ m ∧ (st m).written = (st n).written) (fun m _ => hfair m) hstep n
  exact ⟨m, hm, fun heq => hnot ⟨hm, heq⟩⟩

/-- **Every response is written in the end.** -/
theorem exists_replies_written (hpath : Machine.Path step st as) (hs : ∀ n, (st n).Sound)
    (hn : ∀ n, (st n).NotStranded) (hrun : ∀ n, ∃ k, as (n + k) = .run)
    (hdone : ∀ n, (st n).activeResponse.isSome → ∃ k, as (n + k) = .writeDone) (n : ℕ) :
    ∃ m, n ≤ m ∧ (st n).replies <+: (st m).written := by
  have hcount : ∀ d m, n ≤ m → (st n).replies.length ≤ (st m).written.length + d →
      ∃ m', n ≤ m' ∧ (st n).replies.length ≤ (st m').written.length := by
    intro d
    induction d with
    | zero => exact fun m hm hlen => ⟨m, hm, hlen⟩
    | succ d ih =>
      intro m hm hlen
      by_cases hle : (st n).replies.length ≤ (st m).written.length
      · exact ⟨m, hm, hle⟩
      · have hgrow := (path_grows hpath hs hm).2.length_le
        obtain ⟨m', hm', hne⟩ := exists_written_ne hpath hs hn hrun hdone m (by omega)
        have hmore : (st m).written.length < (st m').written.length := by
          have hpre := (path_grows hpath hs hm').1
          refine Nat.lt_of_le_of_ne hpre.length_le fun heq => ?_
          exact hne (hpre.eq_of_length heq).symm
        exact ih m' (Nat.le_trans hm hm') (by omega)
  obtain ⟨m, hm, hlen⟩ := hcount (st n).replies.length n (Nat.le_refl n) (Nat.le_add_left _ _)
  refine ⟨m, hm, List.prefix_of_prefix_length_le (path_grows hpath hs hm).2 ?_ hlen⟩
  rw [(hs m).replies_eq, List.append_assoc]
  exact List.prefix_append _ _

end Path

private theorem init_notStranded : init.NotStranded := fun h => absurd rfl h

private theorem notStranded_step (h : DemoHandler) (a : DemoAct) (h' : DemoHandler)
    (hinv : h.Sound ∧ h.NotStranded) (hp : h.SafeCompletion a) (h₁ : h.step a = .ok h') :
    h'.Sound ∧ h'.NotStranded := by
  have hm := move_of_step hinv.1 h₁
  exact ⟨hm.sound hinv.1, (hm.notStranded_iff hinv.1 hinv.2).mpr hp⟩

/-- **When responses are stranded.** For every interleaving nothing fails, and the responses are in
the order of the requests those written, the active one and those that wait. No response is ever
stranded exactly when every completion is safe; then, if the posted functions run and the writes
complete, every response is written. -/
theorem notStranded_iff_safeCompletion (as : List DemoAct) :
    (∃ h, Machine.run step init as = .ok h ∧
      h.replies = h.written ++ h.activeResponse.toList ++ h.outputList) ∧
    (Machine.Always step NotStranded init as ↔ Machine.Along step SafeCompletion init as) ∧
    ∀ (st : ℕ → DemoHandler) (as : ℕ → DemoAct), Machine.Path step st as → st 0 = init →
      (∀ n, (st n).SafeCompletion (as n)) → (∀ n, ∃ k, as (n + k) = .run) →
      (∀ n, (st n).activeResponse.isSome → ∃ k, as (n + k) = .writeDone) →
      ∀ n, ∃ m, n ≤ m ∧ (st n).replies <+: (st m).written := by
  refine ⟨?_, ?_, fun st as hpath h0 hsafe hrun hdone n => ?_⟩
  · have hstep : ∀ h a, Sound h → ∃ h', h.step a = .ok h' ∧ h'.Sound := by
      intro h a hs
      obtain ⟨h', h₁, hm⟩ := step_spec hs a
      exact ⟨h', h₁, hm.sound hs⟩
    obtain ⟨⟨h, hr⟩, -⟩ := Machine.run_ok_always as hstep init_sound
    have hs := Machine.run_invariant step_sound init_sound hr
    exact ⟨h, hr, hs.active ▸ hs.replies_eq⟩
  · refine Machine.always_iff_along step_sound (fun h a h' hs hn h₁ => ?_) (fun h a e hs _ he => ?_)
      init_sound init_notStranded
    · exact (move_of_step hs h₁).notStranded_iff hs hn
    · obtain ⟨h', hstep, -⟩ := step_spec hs a
      cases hstep.symm.trans he
  · have hinv := hpath.invariant notStranded_step (h0 ▸ ⟨init_sound, init_notStranded⟩) hsafe
    exact exists_replies_written hpath (fun n => (hinv n).1) (fun n => (hinv n).2) hrun hdone n

/-- A request with an empty body. -/
def emptyRequest : DemoMessage := ⟨true, 0, BufferChain.new⟩

/-- Two requests. The second comes while the first response is being written, so that its own
response waits when that write completes. -/
def twoRequests : ℕ → DemoAct
  | 0 | 3 => .readDone ⟨0, fun _ => 0⟩ (.ok emptyRequest)
  | 6 | 8 => .writeDone
  | _ => .run

/-- The handler while they are answered. -/
def twoResponses : ℕ → DemoHandler
  | 0 => init
  | 1 => ⟨[reply], none, [.writeStart, .readStart], false, none, [request], []⟩
  | 2 => ⟨[], some reply, [.readStart], false, some reply, [request], []⟩
  | 3 => ⟨[], some reply, [], true, some reply, [request], []⟩
  | 4 => ⟨[reply], some reply, [.writeStart, .readStart], false, some reply, [request, request], []⟩
  | 5 => ⟨[reply], some reply, [.readStart], false, some reply, [request, request], []⟩
  | 6 => ⟨[reply], some reply, [], true, some reply, [request, request], []⟩
  | 7 => ⟨[reply], none, [.writeStart], true, none, [request, request], [reply]⟩
  | 8 => ⟨[], some reply, [], true, some reply, [request, request], [reply]⟩
  | _ => ⟨[], none, [], true, none, [request, request], [reply, reply]⟩
where
  request : DemoHeap × DemoMessage := (⟨0, fun _ => 0⟩, emptyRequest)
  reply : DemoMessage := processRequest ⟨0, fun _ => 0⟩ emptyRequest

theorem twoResponses_written :
    (twoResponses 6).outputList.length = 1 ∧ twoRequests 6 = .writeDone ∧
      ∃ m, 6 ≤ m ∧ (twoResponses 6).replies <+: (twoResponses m).written := by
  refine ⟨rfl, rfl, (notStranded_iff_safeCompletion []).2.2 twoResponses twoRequests (fun n => ?_)
    rfl (fun n => ?_) (fun n => ⟨9, rfl⟩) (fun n hn => ?_) 6⟩
  · match n with
    | 0 | 1 | 2 | 3 | 4 | 5 | 6 | 7 | 8 => rfl
    | _ + 9 => rfl
  · match n with
    | 0 | 1 | 2 | 3 | 4 | 5 | 6 | 7 | 8 => exact fun _ => Or.inl (by decide)
    | _ + 9 => exact fun _ => Or.inl (Nat.zero_le 1)
  · match n with
    | 0 | 1 | 7 => cases hn
    | 2 => exact ⟨4, rfl⟩
    | 3 => exact ⟨3, rfl⟩
    | 4 => exact ⟨2, rfl⟩
    | 5 => exact ⟨1, rfl⟩
    | 6 | 8 => exact ⟨0, rfl⟩
    | _ + 9 => cases hn

/-- Two requests arrive while the response to the first is being written. -/
theorem stranded_of_three_requests :
    ∃ h, Machine.run step init [.readDone ⟨0, fun _ => 0⟩ (.ok emptyRequest), .run, .run,
        .readDone ⟨0, fun _ => 0⟩ (.ok emptyRequest), .run, .run,
        .readDone ⟨0, fun _ => 0⟩ (.ok emptyRequest), .run, .writeDone] = .ok h ∧
      h.readyList = [] ∧ h.outputList.length = 2 ∧ ¬ h.NotStranded := by
  refine ⟨_, rfl, rfl, rfl, fun hn => ?_⟩
  rcases hn (List.cons_ne_nil _ _) with hact | hmem
  · cases hact
  · cases hmem

end DemoHandler

end CHttp
