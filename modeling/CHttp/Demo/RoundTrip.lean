import CHttp.Demo.Parser

/-!
# Decoding undoes encoding

The frames of any messages with printable bodies, one after another, cut into buffers anywhere: the
parser reports the messages, each once, in order and unchanged. `Awaits` is the invariant that
relates the parser to its place in the stream: it says, for each state, which bytes are still to
come and which messages are still to be reported. The `EOT` of a frame belongs to the idle state
after it.
-/

namespace CHttp

/-- A body built with `BufferChain_append` from printable characters. -/
inductive BufferChain.Printed : BufferChain → Prop
  | new : Printed BufferChain.new
  | append {bc bc' : BufferChain} (junk : ByteMemory) (bs : List UInt8) (h : Printed bc)
      (hbs : ∀ ch ∈ bs, DemoParser.isprint ch) (happ : bc.append junk bs = .ok bc') : Printed bc'

private theorem BufferChain.Printed.spec {bc : BufferChain} (h : bc.Printed) :
    bc.Valid ∧ ∀ ch ∈ bc.data, DemoParser.isprint ch := by
  induction h with
  | new => exact ⟨BufferChain.new_valid, by simp [BufferChain.data, BufferChain.new]⟩
  | append junk bs _ hbs happ ih =>
    obtain ⟨hv, hd⟩ := BufferChain.valid_of_append ih.1 happ
    refine ⟨hv, fun ch hch => ?_⟩
    rw [hd] at hch
    rcases List.mem_append.mp hch with hold | hnew
    · exact ih.2 ch hold
    · exact hbs ch hnew

/-- Messages are serialized one after another. -/
def DemoMessage.serializeAll (junk : ℕ → ByteMemory) :
    List DemoMessage → Except Abort (List IOBuffer)
  | [] => .ok []
  | m :: ms => do
    let b ← m.serialize (junk 0)
    let bs ← serializeAll (fun n => junk (n + 1)) ms
    return b :: bs

/-- What a message says: whether it is a request, and its body. -/
def DemoMessage.view (m : DemoMessage) : Bool × List UInt8 := (m.opcode, m.body.data)

/-- What a call of `on_message_complete` says. -/
def DemoCall.view (c : DemoCall) : Option (Bool × List UInt8) × ℤ :=
  (c.message.map DemoMessage.view, c.errorCode)

namespace DemoParser

open DemoMessage (frame chSoh chStx chEtx chEot opcodeByte)

/-- The frames of messages, one after another. -/
def stream (ms : List (Bool × List UInt8)) : List UInt8 := ms.flatMap fun m => frame m.1 m.2

/-- Bodies are printable. -/
def Printable (ms : List (Bool × List UInt8)) : Prop := ∀ m ∈ ms, ∀ ch ∈ m.2, isprint ch

/-- The parser has read a stream up to `rest`, and the messages `ms` are still to be reported. -/
def Awaits (p : DemoParser) (rest : List UInt8) (ms : List (Bool × List UInt8)) : Prop :=
  match p.mState with
  | .idle => (rest = stream ms ∨ rest = chEot :: stream ms) ∧
      ∀ m, p.mCurrentMessage = some m → m.body = BufferChain.new
  | .opcode => ∃ m isRequest body ms', p.mCurrentMessage = some m ∧ m.body = BufferChain.new ∧
      ms = (isRequest, body) :: ms' ∧
      rest = opcodeByte isRequest :: chStx :: (body ++ chEtx :: 76 :: chEot :: stream ms')
  | .stxWait => ∃ m body ms', p.mCurrentMessage = some m ∧ m.body = BufferChain.new ∧
      ms = (m.opcode, body) :: ms' ∧
      rest = chStx :: (body ++ chEtx :: 76 :: chEot :: stream ms')
  | .body => ∃ m todo ms', p.mCurrentMessage = some m ∧ m.body.Valid ∧
      ms = (m.opcode, m.body.data ++ todo) :: ms' ∧
      rest = todo ++ chEtx :: 76 :: chEot :: stream ms'
  | .lrc => ∃ m ms', p.mCurrentMessage = some m ∧ ms = m.view :: ms' ∧
      rest = 76 :: chEot :: stream ms'
  | _ => False

private theorem stream_cons (m : Bool × List UInt8) (ms : List (Bool × List UInt8)) :
    stream (m :: ms) =
      chSoh :: opcodeByte m.1 :: chStx :: (m.2 ++ chEtx :: 76 :: chEot :: stream ms) := by
  simp [stream, frame]

/-- A new parser awaits the whole stream. -/
theorem new_awaits (heap : DemoHeap) (ms : List (Bool × List UInt8)) :
    (new heap).Awaits (stream ms) ms :=
  ⟨Or.inl rfl, fun _ h => by cases h⟩

/-- At the end of the stream nothing is left to report. -/
theorem Awaits.eq_nil {p : DemoParser} {ms : List (Bool × List UInt8)} (h : p.Awaits [] ms) :
    ms = [] := by
  unfold Awaits at h
  split at h
  · obtain ⟨hrest | hrest, -⟩ := h
    · cases ms with
      | nil => rfl
      | cons m ms =>
        rw [stream_cons] at hrest
        cases hrest
    · cases hrest
  · obtain ⟨_, _, _, _, -, -, -, hrest⟩ := h
    cases hrest
  · obtain ⟨_, _, _, -, -, -, hrest⟩ := h
    cases hrest
  · obtain ⟨_, todo, _, -, -, -, hrest⟩ := h
    cases todo with
    | nil => cases hrest
    | cons ch todo => cases hrest
  · obtain ⟨_, _, -, -, hrest⟩ := h
    cases hrest
  · exact absurd h id

/-! ### One character -/

/-- What one character of the stream does: the parser goes on, or it reports the next message and
returns. -/
def Advances (p : DemoParser) (calls : List DemoCall) (atEnd : Bool) (ch : UInt8)
    (rest : List UInt8) (ms : List (Bool × List UInt8)) : Prop :=
  (∃ p', p.step calls atEnd ch = .ok (p', calls, none) ∧ p'.Awaits rest ms) ∨
    ∃ p' msg ms', p.step calls atEnd ch = .ok (p', calls ++ [⟨some msg, 0⟩], some 0) ∧
      ms = msg.view :: ms' ∧ p'.Awaits rest ms'

variable {p : DemoParser} {ch : UInt8} {rest : List UInt8} {ms : List (Bool × List UInt8)}
  (calls : List DemoCall) (atEnd : Bool)

private theorem advances_idle (hs : p.mState = .idle) (h : p.Awaits (ch :: rest) ms) :
    p.Advances calls atEnd ch rest ms := by
  simp only [Awaits, hs] at h
  obtain ⟨hrest, hcur⟩ := h
  have hbody : (p.mCurrentMessage.getD (DemoMessage.new p.heap)).body = BufferChain.new := by
    cases hm : p.mCurrentMessage with
    | none => rfl
    | some m => exact hcur m hm
  refine Or.inl ?_
  simp only [step, hs]
  rcases hrest with hrest | hrest
  · cases ms with
    | nil => cases hrest
    | cons m ms =>
      rw [stream_cons] at hrest
      cases hrest
      refine ⟨_, rfl, ?_⟩
      exact ⟨_, m.1, m.2, ms, rfl, hbody, rfl, rfl⟩
  · cases hrest
    refine ⟨_, rfl, ?_⟩
    refine ⟨Or.inl rfl, fun m hm => ?_⟩
    cases hm
    exact hbody

private theorem advances_opcode (hs : p.mState = .opcode) (h : p.Awaits (ch :: rest) ms) :
    p.Advances calls atEnd ch rest ms := by
  simp only [Awaits, hs] at h
  obtain ⟨m, isRequest, body, ms', hm, hbody, rfl, hrest⟩ := h
  obtain ⟨rfl, rfl⟩ := List.cons.inj hrest
  have hop : opcodeByte isRequest = 82 ∨ opcodeByte isRequest = 81 := by
    cases isRequest
    · exact Or.inl rfl
    · exact Or.inr rfl
  have hflag : decide (opcodeByte isRequest = 81) = isRequest := by cases isRequest <;> rfl
  refine Or.inl ⟨{ p with
    mCurrentMessage := some (m.setIsRequest isRequest), mState := .stxWait }, ?_, ?_⟩
  · simp only [step, hs, hop, if_true, current, hm, Except.ok_bind, hflag]
    rfl
  · exact ⟨_, body, ms', rfl, hbody, rfl, rfl⟩

private theorem advances_stxWait (hs : p.mState = .stxWait) (h : p.Awaits (ch :: rest) ms) :
    p.Advances calls atEnd ch rest ms := by
  simp only [Awaits, hs] at h
  obtain ⟨m, body, ms', hm, hbody, rfl, hrest⟩ := h
  obtain ⟨rfl, rfl⟩ := List.cons.inj hrest
  refine Or.inl ⟨{ p with mState := .body }, ?_, m, body, ms', hm, ?_, ?_, rfl⟩
  · simp only [step, hs, if_true]
  · rw [hbody]
    exact BufferChain.new_valid
  · rw [hbody]
    rfl

/-- A printable character goes to the body. -/
theorem addToBody_spec {m : DemoMessage} (hm : p.mCurrentMessage = some m) (hv : m.body.Valid)
    (ch : UInt8) :
    ∃ bc, p.addToBody ch = .ok { p with mCurrentMessage := some (m.setBody bc) } ∧ bc.Valid ∧
      bc.data = m.body.data ++ [ch] := by
  obtain ⟨bc, happ, hv', hd⟩ := BufferChain.append_spec p.heap.body hv (List.cons_ne_nil ch [])
  obtain ⟨iob, hiob, -⟩ := hv'.sound.compact_spec p.heap.body
  refine ⟨bc, ?_, hv', hd⟩
  simp only [addToBody, current, hm, Except.ok_bind, happ, hiob]
  rfl

private theorem advances_body (hs : p.mState = .body) (h : p.Awaits (ch :: rest) ms)
    (hp : Printable ms) : p.Advances calls atEnd ch rest ms := by
  simp only [Awaits, hs] at h
  obtain ⟨m, todo, ms', hm, hv, rfl, hrest⟩ := h
  refine Or.inl ?_
  cases todo with
  | nil =>
    obtain ⟨rfl, rfl⟩ := List.cons.inj hrest
    refine ⟨{ p with mState := .lrc }, ?_, m, ms', hm, ?_, rfl⟩
    · have hetx : isprint chEtx = false := by decide
      simp only [step, hs, hetx, if_true]
      rfl
    · rw [List.append_nil]
      rfl
  | cons c todo =>
    obtain ⟨rfl, rfl⟩ := List.cons.inj hrest
    have hprint : isprint ch := hp _ List.mem_cons_self ch (by simp)
    obtain ⟨bc, hadd, hbc, hdata⟩ := addToBody_spec hm hv ch
    refine ⟨{ p with mCurrentMessage := some (m.setBody bc) }, ?_, ?_⟩
    · simp only [step, hs, hprint, if_true, hadd]
      rfl
    · simp only [Awaits, hs]
      refine ⟨_, todo, ms', rfl, hbc, ?_, rfl⟩
      change _ = (m.opcode, bc.data ++ todo) :: ms'
      rw [hdata, List.append_assoc]
      rfl

private theorem advances_lrc (hs : p.mState = .lrc) (h : p.Awaits (ch :: rest) ms) :
    p.Advances calls atEnd ch rest ms := by
  simp only [Awaits, hs] at h
  obtain ⟨m, ms', hm, rfl, hrest⟩ := h
  obtain ⟨rfl, rfl⟩ := List.cons.inj hrest
  refine Or.inr ⟨{ p with
    mState := .idle, mCurrentMessage := some (DemoMessage.new p.heap) }, m.setLrc 76, ms', ?_,
    rfl, ?_⟩
  · simp only [step, hs, current, hm, Except.ok_bind]
    rfl
  · refine ⟨Or.inr rfl, fun m hm => ?_⟩
    cases hm
    rfl

/-- **One character** of the stream, in any state. -/
theorem Awaits.advances (h : p.Awaits (ch :: rest) ms) (hp : Printable ms) :
    p.Advances calls atEnd ch rest ms := by
  cases hs : p.mState with
  | idle => exact advances_idle calls atEnd hs h
  | opcode => exact advances_opcode calls atEnd hs h
  | stxWait => exact advances_stxWait calls atEnd hs h
  | body => exact advances_body calls atEnd hs h hp
  | lrc => exact advances_lrc calls atEnd hs h
  | _ =>
    simp only [Awaits, hs] at h

/-! ### One call, one buffer, all buffers -/

/-- What is reported for a message that went through. -/
def reported (m : Bool × List UInt8) : Option (Bool × List UInt8) × ℤ := (some m, 0)

/-- **One call.** It returns 0, consumes the buffer up to some point, and reports the messages that
end before it. -/
theorem loop_spec {s t : List UInt8} {iob : IOBuffer} {i : ℕ}
    (h : p.Awaits (s ++ rest) ms) (hp : Printable ms) (hiob : iob.Holds t)
    (hi : t.drop i = s) (hlen : i ≤ t.length) :
    ∃ p' new sent ms' iob' k, p.loop calls iob i s = .ok (p', calls ++ new, iob', 0) ∧
      iob'.Holds (t.drop k) ∧ ms = sent ++ ms' ∧ new.map DemoCall.view = sent.map reported ∧
      p'.Awaits (t.drop k ++ rest) ms' := by
  induction s generalizing p i with
  | nil =>
    obtain ⟨iob', hiob', hholds⟩ := IOBuffer.consume_spec hiob hlen
    refine ⟨p, [], [], ms, iob', i, ?_, hholds, rfl, rfl, hi.symm ▸ h⟩
    simp only [loop, hiob', List.append_nil]
    rfl
  | cons ch s ih =>
    have hlt : i < t.length := by
      by_contra hge
      rw [List.drop_eq_nil_of_le (Nat.le_of_not_lt hge)] at hi
      cases hi
    have hnext : t.drop (i + 1) = s := by
      rw [← List.drop_drop, hi, List.drop_succ_cons, List.drop_zero]
    rcases h.advances calls s.isEmpty hp with ⟨p₁, hstep, h₁⟩ | ⟨p₁, msg, ms', hstep, rfl, h₁⟩
    · obtain ⟨p', new, sent, ms', iob', k, hloop, hrest⟩ := ih h₁ hnext hlt
      refine ⟨p', new, sent, ms', iob', k, ?_, hrest⟩
      simp only [loop, hstep, Except.ok_bind]
      exact hloop
    · obtain ⟨iob', hiob', hholds⟩ := IOBuffer.consume_spec hiob (Nat.succ_le_of_lt hlt)
      refine ⟨p₁, [⟨some msg, 0⟩], [msg.view], ms', iob', i + 1, ?_, hholds, rfl, rfl,
        hnext.symm ▸ h₁⟩
      simp only [loop, hstep, Except.ok_bind, hiob']
      rfl

theorem Printable.of_append {sent ms' : List (Bool × List UInt8)}
    (h : Printable (sent ++ ms')) : Printable ms' :=
  fun m hm => h m (List.mem_append_right _ hm)

/-- What has been reported once some more of the stream is read: nothing but the messages that
ended in it, without an error. -/
structure Reports (r r' : Reader) (sent : List (Bool × List UInt8)) : Prop where
  calls : ∃ new, r'.calls = r.calls ++ new ∧ new.map DemoCall.view = sent.map reported
  codes : ∃ new, r'.codes = r.codes ++ new ∧ ∀ code ∈ new, code = 0

theorem Reports.refl (r : Reader) : Reports r r [] :=
  ⟨⟨[], by simp⟩, ⟨[], by simp⟩⟩

theorem Reports.trans {r₁ r₂ r₃ : Reader} {sent sent' : List (Bool × List UInt8)}
    (h : Reports r₁ r₂ sent) (h' : Reports r₂ r₃ sent') : Reports r₁ r₃ (sent ++ sent') := by
  obtain ⟨⟨new, hnew, hview⟩, codes, hcodes, hzero⟩ := h
  obtain ⟨⟨new', hnew', hview'⟩, codes', hcodes', hzero'⟩ := h'
  refine ⟨⟨new ++ new', by rw [hnew', hnew, List.append_assoc], by simp [hview, hview']⟩,
    ⟨codes ++ codes', by rw [hcodes', hcodes, List.append_assoc], fun code hcode => ?_⟩⟩
  rcases List.mem_append.mp hcode with hold | hnew
  · exact hzero code hold
  · exact hzero' code hnew

/-- **One buffer.** Presented as often as it has data, it is read to its end. -/
theorem present_spec {r : Reader} {iob : IOBuffer} {s : List UInt8} {fuel : ℕ}
    (h : r.parser.Awaits (s ++ rest) ms) (hp : Printable ms) (hiob : iob.Holds s)
    (hfuel : s.length ≤ fuel) :
    ∃ r' sent ms', present r iob fuel = .ok (some r') ∧ ms = sent ++ ms' ∧ Reports r r' sent ∧
      r'.parser.Awaits rest ms' := by
  induction fuel generalizing r iob s ms with
  | zero =>
    have hnil : s = [] := List.length_eq_zero_iff.mp (Nat.le_zero.mp hfuel)
    subst hnil
    have hlen : iob.dataLen = 0 := hiob.remaining
    exact ⟨r, [], ms, by simp [present, hlen], rfl, Reports.refl r, h⟩
  | succ fuel ih =>
    by_cases hlen : iob.dataLen = 0
    · have hnil : s = [] := List.length_eq_zero_iff.mp (hiob.remaining.symm.trans hlen)
      subst hnil
      exact ⟨r, [], ms, by simp [present, hlen], rfl, Reports.refl r, h⟩
    · obtain ⟨p', new, sent, ms₁, iob', k, hloop, hholds, rfl, hview, h₁⟩ :=
        loop_spec r.calls h hp hiob List.drop_zero (Nat.zero_le _)
      have hconsume : r.parser.consume r.calls iob = .ok (p', r.calls ++ new, iob', 0) := by
        rw [consume, hiob.data_eq]
        exact hloop
      have hless := dataLen_of_consume hconsume (Nat.pos_of_ne_zero hlen)
      have hlen' : (s.drop k).length ≤ fuel := by
        have h1 : iob.dataLen = s.length := hiob.remaining
        have h2 : iob'.dataLen = (s.drop k).length := hholds.remaining
        omega
      obtain ⟨r', sent', ms', hpresent, rfl, hrep, h'⟩ :=
        ih (r := ⟨p', r.calls ++ new, r.codes ++ [0]⟩) h₁ hp.of_append hholds hlen'
      refine ⟨r', sent ++ sent', ms', ?_, by rw [List.append_assoc], ?_, h'⟩
      · simp only [present, hlen, if_false, hconsume, Except.ok_bind]
        exact hpresent
      · refine Reports.trans ⟨⟨new, rfl, hview⟩, ⟨[0], rfl, by simp⟩⟩ hrep

/-- **All buffers.** -/
theorem feed_spec {r : Reader} {bufs : List IOBuffer} {fuel : ℕ}
    (h : r.parser.Awaits (bufs.flatMap IOBuffer.data) ms) (hp : Printable ms)
    (hbufs : ∀ b ∈ bufs, b.Holds b.data) (hfuel : ∀ b ∈ bufs, b.dataLen ≤ fuel) :
    ∃ r', feed fuel r bufs = .ok (some r') ∧ Reports r r' ms := by
  induction bufs generalizing r ms with
  | nil =>
    have hnil : ms = [] := Awaits.eq_nil h
    subst hnil
    exact ⟨r, rfl, Reports.refl r⟩
  | cons b bufs ih =>
    obtain ⟨hb, hbufs⟩ := List.forall_mem_cons.mp hbufs
    obtain ⟨hfb, hfuel⟩ := List.forall_mem_cons.mp hfuel
    rw [List.flatMap_cons] at h
    obtain ⟨r₁, sent, ms', hpresent, rfl, hrep, h₁⟩ :=
      present_spec h hp hb (IOBuffer.length_data b ▸ hfb)
    obtain ⟨r', hfeed, hrep'⟩ := ih h₁ hp.of_append hbufs hfuel
    refine ⟨r', ?_, hrep.trans hrep'⟩
    simp only [feed, hpresent, Except.ok_bind]
    exact hfeed

/-! ### The round trip -/

private theorem serializeAll_spec {msgs : List DemoMessage} (h : ∀ m ∈ msgs, m.body.Printed)
    (junk : ℕ → ByteMemory) :
    ∃ frames, DemoMessage.serializeAll junk msgs = .ok frames ∧
      frames.flatMap IOBuffer.data = stream (msgs.map DemoMessage.view) := by
  induction msgs generalizing junk with
  | nil => exact ⟨[], rfl, rfl⟩
  | cons m msgs ih =>
    obtain ⟨hm, hmsgs⟩ := List.forall_mem_cons.mp h
    obtain ⟨b, hb, hholds⟩ := DemoMessage.serialize_spec (junk 0) hm.spec.1
    obtain ⟨bs, hbs, hdata⟩ := ih hmsgs fun n => junk (n + 1)
    refine ⟨b :: bs, ?_, ?_⟩
    · simp only [DemoMessage.serializeAll, hb, hbs, Except.ok_bind]
      rfl
    · rw [List.flatMap_cons, hholds.data_eq, hdata]
      rfl

private theorem printable_views {msgs : List DemoMessage} (h : ∀ m ∈ msgs, m.body.Printed) :
    Printable (msgs.map DemoMessage.view) := by
  intro v hv
  obtain ⟨m, hm, rfl⟩ := List.mem_map.mp hv
  exact (h m hm).spec.2

/-- **Decoding undoes encoding.** The frames of messages with printable bodies, cut into buffers
anywhere: each message is reported once, in order, with its flag and its body; no call returns an
error. A call with data in its buffer consumes some of it, so as many calls as a buffer has bytes
are enough for it. -/
theorem feed_serializeAll {msgs : List DemoMessage} (h : ∀ m ∈ msgs, m.body.Printed)
    (junk : ℕ → ByteMemory) :
    (∃ frames, DemoMessage.serializeAll junk msgs = .ok frames ∧
      ∀ (heap : DemoHeap) (bufs : List IOBuffer) (fuel : ℕ), (∀ b ∈ bufs, b.Holds b.data) →
        bufs.flatMap IOBuffer.data = frames.flatMap IOBuffer.data →
        (∀ b ∈ bufs, b.dataLen ≤ fuel) →
        ∃ r, feed fuel ⟨new heap, [], []⟩ bufs = .ok (some r) ∧
          r.calls.map DemoCall.view = msgs.map (fun m => (some m.view, 0)) ∧
          ∀ code ∈ r.codes, code = 0) ∧
      ∀ (p p' : DemoParser) calls calls' iob iob' code,
        p.consume calls iob = .ok (p', calls', iob', code) → 0 < iob.dataLen →
          iob'.dataLen < iob.dataLen := by
  obtain ⟨frames, hframes, hdata⟩ := serializeAll_spec h junk
  refine ⟨⟨frames, hframes, fun heap bufs fuel hbufs hcut hfuel => ?_⟩,
    fun _ _ _ _ _ _ _ => dataLen_of_consume⟩
  have hawaits : (new heap).Awaits (bufs.flatMap IOBuffer.data) (msgs.map DemoMessage.view) := by
    rw [hcut, hdata]
    exact new_awaits heap _
  obtain ⟨r, hr, ⟨calls, hcalls, hview⟩, codes, hcodes, hzero⟩ :=
    feed_spec (r := ⟨new heap, [], []⟩) hawaits (printable_views h) hbufs hfuel
  refine ⟨r, hr, ?_, ?_⟩
  · rw [hcalls, List.nil_append, hview, List.map_map]
    rfl
  · rw [hcodes, List.nil_append]
    exact hzero

/-- A request and an empty response; the cut is inside the first body. -/
theorem feed_request_response :
    ∃ bc b₁ b₂ r, BufferChain.new.append (fun _ => 0) [104, 105] = .ok bc ∧
      IOBuffer.fromBuf (fun _ => 0) [1, 81, 2, 104] = .ok b₁ ∧
      IOBuffer.fromBuf (fun _ => 0) [105, 3, 76, 4, 1, 82, 2, 3, 76, 4] = .ok b₂ ∧
      feed 10 ⟨new ⟨0, fun _ => 0⟩, [], []⟩ [b₁, b₂] = .ok (some r) ∧
      r.calls.map DemoCall.view = [(some (true, [104, 105]), 0), (some (false, []), 0)] ∧
      ∀ code ∈ r.codes, code = 0 := by
  obtain ⟨bc, happ, hv, hbc⟩ :=
    BufferChain.append_spec (fun _ => 0) BufferChain.new_valid (List.cons_ne_nil 104 [105])
  obtain ⟨b₁, h₁, hb₁⟩ := IOBuffer.fromBuf_spec (fun _ => 0) (List.cons_ne_nil 1 [81, 2, 104])
  obtain ⟨b₂, h₂, hb₂⟩ :=
    IOBuffer.fromBuf_spec (fun _ => 0) (List.cons_ne_nil 105 [3, 76, 4, 1, 82, 2, 3, 76, 4])
  let msgs : List DemoMessage := [⟨true, 0, bc⟩, ⟨false, 0, BufferChain.new⟩]
  have hbytes : ∀ ch ∈ [104, 105], isprint ch := List.all_eq_true.mp rfl
  have hprinted : ∀ m ∈ msgs, m.body.Printed := by
    refine List.forall_mem_cons.mpr ⟨.append (fun _ => 0) [104, 105] .new hbytes happ, ?_⟩
    exact List.forall_mem_cons.mpr ⟨.new, nofun⟩
  obtain ⟨⟨frames, hframes, hfeed⟩, -⟩ := feed_serializeAll hprinted fun _ _ => 0
  obtain ⟨frames', hframes', hdata⟩ := serializeAll_spec hprinted fun _ _ => 0
  cases hframes.symm.trans hframes'
  have hcut : [b₁, b₂].flatMap IOBuffer.data = frames.flatMap IOBuffer.data := by
    rw [hdata]
    simp only [List.flatMap_cons, List.flatMap_nil, hb₁.data_eq, hb₂.data_eq, msgs, List.map_cons,
      List.map_nil, DemoMessage.view, hbc]
    rfl
  have hholds : ∀ b ∈ [b₁, b₂], b.Holds b.data := by
    simp only [List.forall_mem_cons, hb₁.data_eq, hb₂.data_eq]
    exact ⟨hb₁, hb₂, nofun⟩
  have hfuel : ∀ b ∈ [b₁, b₂], b.dataLen ≤ 10 := by
    have hlen₁ : b₁.dataLen = 4 := hb₁.remaining
    have hlen₂ : b₂.dataLen = 10 := hb₂.remaining
    simp only [List.forall_mem_cons, hlen₁, hlen₂]
    exact ⟨by decide, by decide, nofun⟩
  obtain ⟨r, hr, hcalls, hcodes⟩ := hfeed ⟨0, fun _ => 0⟩ [b₁, b₂] 10 hholds hcut hfuel
  refine ⟨bc, b₁, b₂, r, happ, h₁, h₂, hr, ?_, hcodes⟩
  rw [hcalls]
  simp only [msgs, List.map_cons, List.map_nil, DemoMessage.view, hbc]
  rfl

end DemoParser

end CHttp
