import CHttp.Demo.RoundTrip

/-!
# What the demo parser makes of a stream

`DemoParser_consume` looks at one thing besides the bytes: whether a byte is the last one of its
buffer. So a stream cut into buffers is a list of bytes with marks, and presenting the buffers one
after another is a walk over it (`feed_of_trace`), which lists for each byte the calls made there.

`DemoScanner` is the parser without its memory: the state, and the flag and body collected so far.
The parser does what it does at each byte (`Represents.follows`), and does not fail.
-/

namespace CHttp

/-- What a call of `on_message_complete` reports. -/
inductive DemoEvent
  | message (isRequest : Bool) (body : List UInt8)
  | error
  deriving DecidableEq, Repr

/-- What is reported by a call. -/
def DemoCall.event (c : DemoCall) : DemoEvent :=
  match c.message with
  | some m => .message m.opcode m.body.data
  | none => .error

namespace DemoParser

/-- The bytes of a buffer, each with whether it is the last one. -/
def marked : List UInt8 → List (UInt8 × Bool)
  | [] => []
  | ch :: rest => (ch, rest.isEmpty) :: marked rest

/-- The characters of a stream one after another, with the calls made at each. -/
def trace (this : DemoParser) :
    List (UInt8 × Bool) → Except Abort (DemoParser × List (List DemoCall))
  | [] => .ok (this, [])
  | (ch, atEnd) :: rest => do
    let (this, calls, _) ← this.step [] atEnd ch
    let (this, later) ← this.trace rest
    return (this, calls :: later)

/-! ### Buffers are walked through -/

theorem map_fst_marked (s : List UInt8) : (marked s).map Prod.fst = s := by
  induction s with
  | nil => rfl
  | cons ch s ih => rw [marked, List.map_cons, ih]

/-- The calls made before do not matter. -/
theorem step_of_nil {p p' : DemoParser} {atEnd : Bool} {ch : UInt8} {new : List DemoCall}
    {rc : Option ℤ} (h : p.step [] atEnd ch = .ok (p', new, rc)) (calls : List DemoCall) :
    p.step calls atEnd ch = .ok (p', calls ++ new, rc) := by
  unfold step at h ⊢
  split at h
  · cases h
    simp
  · split at h
    · simp only [Except.bind_eq_ok] at h
      obtain ⟨msg, hmsg, heq⟩ := h
      cases heq
      simp [*]
    · cases h
      simp [*]
  · cases h
    simp
  · split at h
    · simp only [Except.bind_eq_ok] at h
      obtain ⟨q, hq, heq⟩ := h
      cases heq
      simp [*]
    · cases h
      simp [*]
  · simp only [Except.bind_eq_ok] at h
    obtain ⟨msg, hmsg, heq⟩ := h
    cases heq
    simp [*]
  · cases h
    simp
  · split at h
    · cases h
      simp [*]
    · next hsoh =>
      rw [if_neg hsoh]
      split at h
      · cases h
        simp [*]
      · cases h
        simp [*]
  · cases h
  · cases h

/-- **One call** of `DemoParser_consume` goes on to where it returns, and the walk from there is
what is left. -/
theorem loop_of_trace {p q : DemoParser} {u t : List UInt8} {cs : List (List DemoCall)}
    {iob : IOBuffer} {i : ℕ} (calls : List DemoCall) (h : p.trace (marked u) = .ok (q, cs))
    (hiob : iob.Holds t) (hi : t.drop i = u) (hlen : i ≤ t.length) :
    ∃ p' done rest iob' k rc, p.loop calls iob i u = .ok (p', calls ++ done, iob', rc) ∧
      iob'.Holds (t.drop k) ∧ cs.flatten = done ++ rest.flatten ∧
      p'.trace (marked (t.drop k)) = .ok (q, rest) := by
  induction u generalizing p i cs calls with
  | nil =>
    obtain ⟨iob', hconsume, hholds⟩ := IOBuffer.consume_spec hiob hlen
    refine ⟨p, [], cs, iob', i, 0, ?_, hholds, rfl, hi ▸ h⟩
    simp only [loop, hconsume, Except.ok_bind, List.append_nil]
    rfl
  | cons ch u ih =>
    have hlt : i < t.length := by
      by_contra hge
      rw [List.drop_eq_nil_of_le (Nat.le_of_not_lt hge)] at hi
      cases hi
    have hnext : t.drop (i + 1) = u := by
      rw [← List.drop_drop, hi, List.drop_succ_cons, List.drop_zero]
    simp only [marked, trace, Except.bind_eq_ok] at h
    obtain ⟨⟨p₁, new, rc⟩, hstep, ⟨q', later⟩, htrace, heq⟩ := h
    cases heq
    have hstep' := step_of_nil hstep calls
    -- the call ends at the byte that completes a message, or that ends a buffer while skipping
    cases rc with
    | some rc =>
      obtain ⟨iob', hconsume, hholds⟩ := IOBuffer.consume_spec hiob (Nat.succ_le_of_lt hlt)
      refine ⟨p₁, new, later, iob', i + 1, rc, ?_, hholds, rfl, hnext.symm ▸ htrace⟩
      simp only [loop, hstep', Except.ok_bind, hconsume]
      rfl
    | none =>
      obtain ⟨p', done, rest, iob', k, rc, hloop, hholds, hflat, hrest⟩ :=
        ih (calls ++ new) htrace hnext hlt
      refine ⟨p', new ++ done, rest, iob', k, rc, ?_, hholds, ?_, hrest⟩
      · simp only [loop, hstep', Except.ok_bind]
        rw [hloop, List.append_assoc]
      · rw [List.flatten_cons, hflat, List.append_assoc]

/-- A buffer without data is not presented. -/
theorem present_of_empty {iob : IOBuffer} (h : iob.dataLen = 0) (r : Reader) (fuel : ℕ) :
    present r iob fuel = .ok (some r) := by
  cases fuel with
  | zero => simp [present, h]
  | succ fuel => simp [present, h]

/-- **One buffer**, presented as often as it has data. -/
theorem present_of_trace {r : Reader} {q : DemoParser} {cs : List (List DemoCall)} {iob : IOBuffer}
    {s : List UInt8} {fuel : ℕ} (h : r.parser.trace (marked s) = .ok (q, cs)) (hiob : iob.Holds s)
    (hfuel : s.length ≤ fuel) :
    ∃ r', present r iob fuel = .ok (some r') ∧ r'.parser = q ∧
      r'.calls = r.calls ++ cs.flatten := by
  have hlen : iob.dataLen = s.length := hiob.remaining
  by_cases hzero : iob.dataLen = 0
  · have hnil : s = [] := List.length_eq_zero_iff.mp (hlen.symm.trans hzero)
    subst hnil
    cases h
    exact ⟨r, present_of_empty hzero r fuel, rfl, by simp⟩
  induction fuel generalizing r iob s cs with
  | zero => omega
  | succ fuel ih =>
    obtain ⟨p', done, rest, iob', k, rc, hloop, hholds, hflat, hrest⟩ :=
      loop_of_trace r.calls h hiob List.drop_zero (Nat.zero_le _)
    have hconsume : r.parser.consume r.calls iob = .ok (p', r.calls ++ done, iob', rc) := by
      rw [consume, hiob.data_eq]
      exact hloop
    have hpresent : present r iob (fuel + 1) =
        present ⟨p', r.calls ++ done, r.codes ++ [rc]⟩ iob' fuel := by
      simp only [present, hzero, if_false, hconsume, Except.ok_bind]
    have hlen' : iob'.dataLen = (s.drop k).length := hholds.remaining
    -- a call with data takes some of it, so the fuel lasts
    have hless := dataLen_of_consume hconsume (Nat.pos_of_ne_zero hzero)
    rw [hpresent, hflat, ← List.append_assoc]
    by_cases hzero' : iob'.dataLen = 0
    · have hnil : s.drop k = [] := List.length_eq_zero_iff.mp (hlen'.symm.trans hzero')
      rw [hnil] at hrest
      cases hrest
      exact ⟨_, present_of_empty hzero' _ fuel, rfl, by simp⟩
    · exact ih hrest hholds (by omega) hlen' hzero'

private theorem trace_append {p q : DemoParser} {cs : List (List DemoCall)}
    {u v : List (UInt8 × Bool)}
    (h : p.trace (u ++ v) = .ok (q, cs)) :
    ∃ p' cs₁ cs₂, p.trace u = .ok (p', cs₁) ∧ p'.trace v = .ok (q, cs₂) ∧ cs = cs₁ ++ cs₂ := by
  induction u generalizing p cs with
  | nil => exact ⟨p, [], cs, rfl, h, rfl⟩
  | cons x u ih =>
    simp only [List.cons_append, trace, Except.bind_eq_ok] at h
    obtain ⟨⟨p₁, new, rc⟩, hstep, ⟨q', later⟩, htrace, heq⟩ := h
    cases heq
    obtain ⟨p', cs₁, cs₂, h₁, h₂, rfl⟩ := ih htrace
    refine ⟨p', new :: cs₁, cs₂, ?_, h₂, rfl⟩
    simp only [trace, hstep, Except.ok_bind, h₁]
    rfl

/-- **All buffers.** Presenting them is a walk over their bytes, each marked if it is the last one
of its buffer. -/
theorem feed_of_trace {r : Reader} {q : DemoParser} {cs : List (List DemoCall)}
    {bufs : List IOBuffer} {fuel : ℕ}
    (h : r.parser.trace (bufs.flatMap fun b => marked b.data) = .ok (q, cs))
    (hbufs : ∀ b ∈ bufs, b.Holds b.data) (hfuel : ∀ b ∈ bufs, b.dataLen ≤ fuel) :
    ∃ r', feed fuel r bufs = .ok (some r') ∧ r'.parser = q ∧
      r'.calls = r.calls ++ cs.flatten := by
  induction bufs generalizing r cs with
  | nil =>
    cases h
    exact ⟨r, rfl, rfl, by simp⟩
  | cons b bufs ih =>
    obtain ⟨hb, hbufs⟩ := List.forall_mem_cons.mp hbufs
    obtain ⟨hfb, hfuel⟩ := List.forall_mem_cons.mp hfuel
    rw [List.flatMap_cons] at h
    obtain ⟨p', cs₁, cs₂, h₁, h₂, rfl⟩ := trace_append h
    obtain ⟨r₁, hpresent, rfl, hcalls⟩ :=
      present_of_trace h₁ hb (IOBuffer.length_data b ▸ hfb)
    obtain ⟨r', hfeed, hparser, hcalls'⟩ := ih h₂ hbufs hfuel
    refine ⟨r', ?_, hparser, ?_⟩
    · simp only [feed, hpresent, Except.ok_bind]
      exact hfeed
    · rw [hcalls', hcalls, List.flatten_append, List.append_assoc]

end DemoParser

/-! ### The parser without its memory -/

/-- The state of the parser, and the flag and the body of the current message. -/
structure DemoScanner where
  state : DemoState
  isRequest : Bool
  body : List UInt8

namespace DemoScanner

open DemoMessage (chSoh chStx chEtx)
open DemoParser (isprint)

/-- The scanner before it has read anything, and after each frame. -/
def init : DemoScanner := ⟨.idle, false, []⟩

/-- One character; `atEnd` says that it is the last one of its buffer. -/
def step (s : DemoScanner) (atEnd : Bool) (ch : UInt8) : DemoScanner × List DemoEvent :=
  match s.state with
  | .idle => (if ch = chSoh then { s with state := .opcode } else s, [])
  | .opcode =>
    (if ch = 82 ∨ ch = 81 then { s with state := .stxWait, isRequest := ch = 81 }
      else { s with state := .errorRecovery }, [])
  | .stxWait => ({ s with state := if ch = chStx then .body else .errorRecovery }, [])
  | .body =>
    (if isprint ch then { s with body := s.body ++ [ch] }
      else { s with state := if ch = chEtx then .lrc else .errorRecovery }, [])
  | .lrc => (init, [.message s.isRequest s.body])
  | .errorRecovery =>
    if ch = chSoh ∧ ¬ atEnd then ({ s with state := .opcode }, [])
    else if atEnd then (⟨.errorRecovery, false, []⟩, [.error])
    else (s, [])
  | .sohWait | .extWait | .eotWait => (s, [])

/-- A marked stream: the state after it, and the events at each of its bytes. -/
def scan (s : DemoScanner) : List (UInt8 × Bool) → DemoScanner × List (List DemoEvent)
  | [] => (s, [])
  | (ch, atEnd) :: rest =>
    let r := (s.step atEnd ch).1.scan rest
    (r.1, (s.step atEnd ch).2 :: r.2)

theorem scan_append (s : DemoScanner) (u v : List (UInt8 × Bool)) :
    s.scan (u ++ v) =
      (((s.scan u).1.scan v).1, (s.scan u).2 ++ ((s.scan u).1.scan v).2) := by
  induction u generalizing s with
  | nil => rfl
  | cons x u ih => simp only [List.cons_append, scan, ih]

@[simp]
theorem length_scan (s : DemoScanner) (u : List (UInt8 × Bool)) :
    (s.scan u).2.length = u.length := by
  induction u generalizing s with
  | nil => rfl
  | cons x u ih => simp only [scan, List.length_cons, ih]

end DemoScanner

namespace DemoParser

/-- The parser is where the scanner is. A message is there once a byte was read. -/
structure Represents (p : DemoParser) (s : DemoScanner) : Prop where
  state : p.mState = s.state
  reached : s.state ≠ .sohWait ∧ s.state ≠ .extWait
  message : ∀ m, p.mCurrentMessage = some m → m.body.Valid ∧ m.view = (s.isRequest, s.body)
  absent : p.mCurrentMessage = none → s = .init

variable {p : DemoParser} {s : DemoScanner}

theorem new_represents (heap : DemoHeap) : (new heap).Represents .init :=
  ⟨rfl, by decide, nofun, fun _ => rfl⟩

/-- Outside of the idle state there is a message. -/
theorem Represents.exists_message {state : DemoState} {isRequest : Bool} {body : List UInt8}
    (h : p.Represents ⟨state, isRequest, body⟩) (hs : state ≠ .idle) :
    ∃ m, p.mCurrentMessage = some m ∧ m.body.Valid ∧ m.opcode = isRequest ∧
      m.body.data = body := by
  cases hm : p.mCurrentMessage with
  | none =>
    cases h.absent hm
    exact absurd rfl hs
  | some m =>
    obtain ⟨hv, hview⟩ := h.message m hm
    exact ⟨m, rfl, hv, congrArg Prod.fst hview, congrArg Prod.snd hview⟩

/-- The parser with this message, in this state. -/
theorem represents_some {m : DemoMessage} {state : DemoState} {isRequest : Bool} {body : List UInt8}
    (hstate : p.mState = state) (hreached : state ≠ .sohWait ∧ state ≠ .extWait)
    (hm : p.mCurrentMessage = some m) (hv : m.body.Valid) (hop : m.opcode = isRequest)
    (hbody : m.body.data = body) : p.Represents ⟨state, isRequest, body⟩ := by
  refine ⟨hstate, hreached, fun m' hm' => ?_, fun hnone => ?_⟩
  · cases hm.symm.trans hm'
    exact ⟨hv, Prod.ext hop hbody⟩
  · cases hm.symm.trans hnone

/-- The message that the idle state goes on with. -/
theorem Represents.idle_message (h : p.Represents s) :
    (p.mCurrentMessage.getD (DemoMessage.new p.heap)).body.Valid ∧
      (p.mCurrentMessage.getD (DemoMessage.new p.heap)).view = (s.isRequest, s.body) := by
  cases hm : p.mCurrentMessage with
  | none =>
    rw [h.absent hm]
    exact ⟨BufferChain.new_valid, rfl⟩
  | some m => exact h.message m hm

/-- The parser does what the scanner does at this character. -/
def Follows (p : DemoParser) (s : DemoScanner) (atEnd : Bool) (ch : UInt8) : Prop :=
  ∃ p' calls rc, p.step [] atEnd ch = .ok (p', calls, rc) ∧
    p'.Represents (s.step atEnd ch).1 ∧ calls.map DemoCall.event = (s.step atEnd ch).2

variable {isRequest : Bool} {body : List UInt8} (atEnd : Bool) (ch : UInt8)

private theorem follows_idle (h : p.Represents ⟨.idle, isRequest, body⟩) :
    p.Follows ⟨.idle, isRequest, body⟩ atEnd ch := by
  have hs : p.mState = .idle := h.state
  obtain ⟨hv, hview⟩ := h.idle_message
  have hop := congrArg Prod.fst hview
  have hbody := congrArg Prod.snd hview
  refine ⟨_, _, _, by simp only [step, hs]; rfl, ?_, rfl⟩
  simp only [DemoScanner.step]
  by_cases hsoh : ch = DemoMessage.chSoh
  · simp only [if_pos hsoh]
    exact represents_some rfl (by decide) rfl hv hop hbody
  · simp only [if_neg hsoh]
    exact represents_some rfl (by decide) rfl hv hop hbody

private theorem follows_opcode (h : p.Represents ⟨.opcode, isRequest, body⟩) :
    p.Follows ⟨.opcode, isRequest, body⟩ atEnd ch := by
  have hs : p.mState = .opcode := h.state
  obtain ⟨m, hm, hv, hop, hbody⟩ := h.exists_message (by decide)
  unfold Follows
  simp only [step, hs, DemoScanner.step]
  by_cases hch : ch = 82 ∨ ch = 81
  · simp only [if_pos hch, current, hm, Except.ok_bind]
    exact ⟨_, _, _, rfl, represents_some rfl (by decide) rfl hv rfl hbody, rfl⟩
  · simp only [if_neg hch]
    exact ⟨_, _, _, rfl, represents_some rfl (by decide) hm hv hop hbody, rfl⟩

private theorem follows_stxWait (h : p.Represents ⟨.stxWait, isRequest, body⟩) :
    p.Follows ⟨.stxWait, isRequest, body⟩ atEnd ch := by
  have hs : p.mState = .stxWait := h.state
  obtain ⟨m, hm, hv, hop, hbody⟩ := h.exists_message (by decide)
  unfold Follows
  simp only [step, hs, DemoScanner.step]
  refine ⟨_, _, _, rfl, represents_some rfl ?_ hm hv hop hbody, rfl⟩
  split
  · decide
  · decide

private theorem follows_body (h : p.Represents ⟨.body, isRequest, body⟩) :
    p.Follows ⟨.body, isRequest, body⟩ atEnd ch := by
  have hs : p.mState = .body := h.state
  obtain ⟨m, hm, hv, hop, hbody⟩ := h.exists_message (by decide)
  unfold Follows
  simp only [step, hs, DemoScanner.step]
  by_cases hch : isprint ch = true
  · obtain ⟨bc, hadd, hbc, hdata⟩ := addToBody_spec hm hv ch
    simp only [if_pos hch, hadd, Except.ok_bind]
    refine ⟨_, _, _, rfl, represents_some hs (by decide) rfl hbc hop ?_, rfl⟩
    rw [← hbody]
    exact hdata
  · simp only [if_neg hch]
    refine ⟨_, _, _, rfl, represents_some rfl ?_ hm hv hop hbody, rfl⟩
    split
    · decide
    · decide

private theorem follows_lrc (h : p.Represents ⟨.lrc, isRequest, body⟩) :
    p.Follows ⟨.lrc, isRequest, body⟩ atEnd ch := by
  have hs : p.mState = .lrc := h.state
  obtain ⟨m, hm, hv, hop, hbody⟩ := h.exists_message (by decide)
  unfold Follows
  simp only [step, hs, DemoScanner.step, current, hm, Except.ok_bind]
  refine ⟨_, _, _, rfl, represents_some rfl (by decide) rfl BufferChain.new_valid rfl rfl, ?_⟩
  change [DemoEvent.message m.opcode m.body.data] = _
  rw [hop, hbody]

private theorem follows_errorRecovery (h : p.Represents ⟨.errorRecovery, isRequest, body⟩) :
    p.Follows ⟨.errorRecovery, isRequest, body⟩ atEnd ch := by
  have hs : p.mState = .errorRecovery := h.state
  obtain ⟨m, hm, hv, hop, hbody⟩ := h.exists_message (by decide)
  unfold Follows
  simp only [step, hs, DemoScanner.step]
  by_cases hsoh : ch = DemoMessage.chSoh ∧ ¬ atEnd = true
  · simp only [if_pos hsoh]
    exact ⟨_, _, _, rfl, represents_some rfl (by decide) hm hv hop hbody, rfl⟩
  · simp only [if_neg hsoh]
    by_cases hend : atEnd = true
    · simp only [if_pos hend]
      exact ⟨_, _, _, rfl, represents_some rfl (by decide) rfl BufferChain.new_valid rfl rfl, rfl⟩
    · simp only [if_neg hend]
      exact ⟨_, _, _, rfl, h, rfl⟩

/-- **One character**: the parser does what the scanner does, and does not fail. -/
theorem Represents.follows (h : p.Represents s) : p.Follows s atEnd ch := by
  obtain ⟨state, isRequest, body⟩ := s
  cases state with
  | idle => exact follows_idle atEnd ch h
  | sohWait => exact absurd rfl h.reached.1
  | opcode => exact follows_opcode atEnd ch h
  | stxWait => exact follows_stxWait atEnd ch h
  | body => exact follows_body atEnd ch h
  | extWait => exact absurd rfl h.reached.2
  | lrc => exact follows_lrc atEnd ch h
  | eotWait =>
    have hs : p.mState = .eotWait := h.state
    exact ⟨p, [], none, by simp only [step, hs], h, rfl⟩
  | errorRecovery => exact follows_errorRecovery atEnd ch h

/-- **A marked stream**: the calls at each byte are the events of the scanner. -/
theorem Represents.trace (h : p.Represents s) (u : List (UInt8 × Bool)) :
    ∃ q cs, p.trace u = .ok (q, cs) ∧ q.Represents (s.scan u).1 ∧
      cs.map (List.map DemoCall.event) = (s.scan u).2 := by
  induction u generalizing p s with
  | nil => exact ⟨p, [], rfl, h, rfl⟩
  | cons x u ih =>
    obtain ⟨p', calls, rc, hstep, hrep, hcalls⟩ := h.follows x.2 x.1
    obtain ⟨q, cs, htrace, hrep', hcs⟩ := ih hrep
    refine ⟨q, calls :: cs, ?_, hrep', ?_⟩
    · simp only [DemoParser.trace, hstep, Except.ok_bind, htrace]
      rfl
    · rw [List.map_cons, hcalls, hcs]
      rfl

end DemoParser

end CHttp
