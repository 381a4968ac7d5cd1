import CHttp.ForMathlib.Http1
import CHttp.Http.Fragmentation

/-!
# What `Message_serialize` writes

For a message built through the functions of `message.h`, `Message_serialize` writes the first
line, the header lines, an empty line and the body (`serialize_spec`), and the reference grammar
of `Http1` tells what a peer makes of it. Requests are read back as they were built
(`request_serialize_decodes`). Responses never are: the format string of their first line has two
spaces after the version, so the status is missing where the grammar expects it
(`response_serialize_never_decodes`).
-/

namespace CHttp

/-- No spaces and no control bytes. -/
def Visible (s : List UInt8) : Prop := ∀ b ∈ s, 32 < b ∧ b ≠ 127

instance (s : List UInt8) : Decidable (Visible s) := List.decidableBAll _ s

/-- No `CR`, `LF` or NUL. -/
def OneLine (s : List UInt8) : Prop := ∀ b ∈ s, b ≠ 13 ∧ b ≠ 10 ∧ b ≠ 0

instance (s : List UInt8) : Decidable (OneLine s) := List.decidableBAll _ s

namespace Message

/-- What the functions of `message.h` can make of a message: any sequence of calls that return. -/
inductive Built : Message → Prop
  | new (junk : Junk) : Built (new junk)
  | newRequest (junk : Junk) : Built (newRequest junk)
  | newResponse (junk : Junk) : Built (newResponse junk)
  | setIsRequest {m : Message} (yn : Bool) : Built m → Built (m.setIsRequest yn)
  | setStatus {m : Message} (status : ℕ) : Built m → Built (m.setStatus status)
  | setMinorVersion {m : Message} (mv : ℕ) : Built m → Built (m.setMinorVersion mv)
  | setVersion {m : Message} (maj minor : ℕ) : Built m → Built (m.setVersion maj minor)
  | setMethod {m : Message} (method : ℕ) : Built m → Built (m.setMethod method)
  | setTarget {m m' : Message} (targ : List UInt8) : Built m → m.setTarget targ = .ok m' → Built m'
  | setTargetCbuffer {m m' : Message} (target : Cbuffer) :
      Built m → m.setTargetCbuffer target = .ok m' → Built m'
  | setReason {m m' : Message} (reason : List UInt8) :
      Built m → m.setReason reason = .ok m' → Built m'
  | setReasonCbuffer {m m' : Message} (reason : Cbuffer) :
      Built m → m.setReasonCbuffer reason = .ok m' → Built m'
  | addHeaderCstring {m : Message} (key value : List UInt8) :
      Built m → Built (m.addHeaderCstring key value)
  | addHeaderCbuf {m : Message} (key value : Cbuffer) : Built m → Built (m.addHeaderCbuf key value)
  | setHeadersArr {m : Message} (ar : List (List UInt8 × List UInt8)) :
      Built m → Built (m.setHeadersArr ar)
  | setContentLength {m m' : Message} (length : ℤ) :
      Built m → m.setContentLength length = .ok m' → Built m'
  | setBody {m : Message} (bc : BufferChain) : Built m → bc.Built → Built (m.setBody bc)

/-- What holds of every such message. -/
structure Sound (m : Message) : Prop where
  majorVers : m.majorVers = 1
  target : m.target.Text
  reason : m.reason.Text
  labels : ∀ item ∈ m.headers, item.label.map toUpper = item.label
  body : ∀ bc, m.body = some bc → bc.Built

/-- Labels stay in upper case when a pair is added at the back. -/
theorem labels_addBack {hdrs : HdrList} (h : ∀ item ∈ hdrs, item.label.map toUpper = item.label)
    (label value : List UInt8) :
    ∀ item ∈ hdrs.addBack (KVPair.new label value), item.label.map toUpper = item.label := by
  intro item hi
  rcases List.mem_append.mp hi with hi | hi
  · exact h item hi
  · rw [List.mem_singleton.mp hi]
    exact KVPair.label_new label value

private theorem labels_addArr {hdrs : HdrList}
    (h : ∀ item ∈ hdrs, item.label.map toUpper = item.label)
    (ar : List (List UInt8 × List UInt8)) :
    ∀ item ∈ hdrs.addArr ar, item.label.map toUpper = item.label := by
  induction ar generalizing hdrs with
  | nil => exact h
  | cons row ar ih => exact ih (labels_addBack h _ _)

private theorem labels_setValue {hdrs : HdrList}
    (h : ∀ item ∈ hdrs, item.label.map toUpper = item.label)
    (key value : List UInt8) :
    ∀ item ∈ hdrs.setValue key value, item.label.map toUpper = item.label := by
  induction hdrs with
  | nil => exact h
  | cons hlr rest ih =>
    obtain ⟨hhead, htail⟩ := List.forall_mem_cons.mp h
    simp only [HdrList.setValue]
    split
    · exact List.forall_mem_cons.mpr ⟨hhead, htail⟩
    · exact List.forall_mem_cons.mpr ⟨hhead, ih htail⟩

/-- A text buffer whose size is zero is empty. -/
theorem holds_nil_of_size {cbuf : Cbuffer} (h : cbuf.Text) (h0 : cbuf.size = 0) :
    cbuf.Holds [] := by
  rcases h with h | ⟨s, hne, -, hs, -⟩
  · exact h
  · rw [hs.size_eq, List.length_eq_zero_iff] at h0
    exact absurd h0 hne

/-- The setters of the two texts, which find the buffer empty or abort. -/
theorem text_of_set {cbuf cbuf' : Cbuffer} {func text : String} {s : List UInt8} (h : cbuf.Text)
    (hassert : assertThat (cbuf.size = 0) func text = .ok ())
    (happ : cbuf.appendCstr s = .ok cbuf') : cbuf'.Text := by
  by_cases h0 : cbuf.size = 0
  · exact Cbuffer.Text.of_appendCstr (holds_nil_of_size h h0) happ
  · simp only [h0, decide_false, assertThat_false] at hassert
    cases hassert

theorem new_sound (junk : Junk) : (new junk).Sound :=
  ⟨rfl, Or.inl (Cbuffer.new_holds _), Or.inl (Cbuffer.new_holds _), by simp [new], by simp [new]⟩

theorem Built.sound {m : Message} (h : m.Built) : m.Sound := by
  induction h with
  | new junk => exact new_sound junk
  | newRequest junk => exact { new_sound junk with }
  | newResponse junk => exact { new_sound junk with }
  | setIsRequest yn _ ih => exact { ih with }
  | setStatus status _ ih => exact { ih with }
  | setMinorVersion mv _ ih => exact { ih with }
  | setVersion maj minor _ ih => exact { ih with }
  | setMethod method _ ih => exact { ih with }
  | setTarget targ _ hset ih =>
    simp only [Message.setTarget, Except.bind_eq_ok] at hset
    obtain ⟨⟨⟩, hassert, target, happ, heq⟩ := hset
    cases heq
    exact { ih with target := text_of_set ih.target hassert happ }
  | setTargetCbuffer target _ hset ih =>
    simp only [Message.setTargetCbuffer, Except.bind_eq_ok] at hset
    obtain ⟨⟨⟩, hassert, s, -, target, happ, heq⟩ := hset
    cases heq
    exact { ih with target := text_of_set ih.target hassert happ }
  | setReason reason _ hset ih =>
    simp only [Message.setReason, Except.bind_eq_ok] at hset
    obtain ⟨⟨⟩, hassert, reason, happ, heq⟩ := hset
    cases heq
    exact { ih with reason := text_of_set ih.reason hassert happ }
  | setReasonCbuffer reason _ hset ih =>
    simp only [Message.setReasonCbuffer, Except.bind_eq_ok] at hset
    obtain ⟨⟨⟩, hassert, s, -, reason, happ, heq⟩ := hset
    cases heq
    exact { ih with reason := text_of_set ih.reason hassert happ }
  | addHeaderCstring key value _ ih => exact { ih with labels := labels_addBack ih.labels _ _ }
  | addHeaderCbuf key value _ ih => exact { ih with labels := labels_addBack ih.labels _ _ }
  | setHeadersArr ar _ ih => exact { ih with labels := labels_addArr ih.labels ar }
  | setContentLength length _ hset ih =>
    simp only [Message.setContentLength, Except.bind_eq_ok] at hset
    obtain ⟨-, -, -, -, heq⟩ := hset
    cases heq
    refine { ih with labels := ?_ }
    simp only
    split
    · exact labels_setValue ih.labels _ _
    · exact labels_addBack ih.labels _ _
  | setBody bc _ hbc ih =>
    refine { ih with body := fun bc' h' => ?_ }
    cases h'
    exact hbc

/-! ### The bytes written -/

/-- The bytes of the body. -/
def bodyBytes (m : Message) : List UInt8 := m.body.elim [] BufferChain.data

/-- The header list as fields. -/
def fields (m : Message) : List Http1.Field := m.headers.map fun item => (item.label, item.value)

theorem zero_notMem_cString (s : List UInt8) : 0 ∉ cString s := fun h => by
  simpa using List.mem_takeWhile_imp h

theorem zero_notMem_formatNat (n : ℕ) : 0 ∉ formatNat n :=
  Http1.notMem_decimal (by decide) n

private theorem zero_notMem_formatVersion (m : Message) : 0 ∉ m.formatVersion := by
  simp only [formatVersion, List.mem_append, not_or]
  exact ⟨⟨⟨by decide, zero_notMem_formatNat _⟩, by decide⟩, zero_notMem_formatNat _⟩

private theorem zero_notMem_llhttpMethodName {method : ℕ} {name : List UInt8}
    (h : llhttpMethodName method = .ok name) : 0 ∉ name := by
  have hall : ∀ s ∈ methodNames, 0 ∉ ascii s := by decide +kernel
  unfold llhttpMethodName at h
  split at h
  · rename_i s hs
    cases h
    exact hall s (List.mem_of_getElem? hs)
  · cases h

private theorem zero_notMem_formatCbuffer {cbuf : Cbuffer} {s : List UInt8}
    (h : formatCbuffer cbuf = .ok s) : 0 ∉ s := by
  unfold formatCbuffer at h
  split at h
  · cases h
    exact zero_notMem_cString _
  · cases h

/-- A first line has no NUL in it, so `strlen` sees all of it. -/
theorem firstLine_clean {m : Message} {line : List UInt8} (h : m.firstLine = .ok line) :
    0 ∉ line ∧ line ≠ [] := by
  unfold firstLine at h
  split at h
  · simp only [Except.bind_eq_ok] at h
    obtain ⟨meth, hmeth, target, htarget, heq⟩ := h
    cases heq
    simp only [List.mem_append, not_or]
    exact ⟨⟨⟨⟨⟨⟨zero_notMem_llhttpMethodName hmeth, by decide⟩, zero_notMem_formatCbuffer htarget⟩,
      by decide⟩, zero_notMem_formatVersion m⟩, by decide⟩, by simp [ascii]⟩
  · simp only [Except.bind_eq_ok] at h
    obtain ⟨reason, hreason, heq⟩ := h
    cases heq
    simp only [List.mem_append, not_or]
    exact ⟨⟨⟨⟨⟨⟨zero_notMem_formatVersion m, by decide⟩, zero_notMem_formatNat _⟩, by decide⟩,
      zero_notMem_formatCbuffer hreason⟩, by decide⟩, by simp [ascii]⟩

private theorem headerLine_clean (item : KVPair) : 0 ∉ headerLine item ∧ headerLine item ≠ [] := by
  simp only [headerLine, List.mem_append, not_or]
  exact ⟨⟨⟨⟨zero_notMem_cString _, by decide⟩, zero_notMem_cString _⟩, by decide⟩, by simp [ascii]⟩

/-- `BufferChain_append_cstr` of a text without NULs. -/
theorem appendCstr_spec (junk : ByteMemory) {bc : BufferChain} (h : bc.Valid) {s : List UInt8}
    (hs : 0 ∉ s ∧ s ≠ []) :
    ∃ bc', bc.appendCstr junk s = .ok bc' ∧ bc'.Valid ∧ bc'.data = bc.data ++ s := by
  have hall : s.takeWhile (· ≠ 0) = s := cString_eq_self.mpr hs.1
  rw [BufferChain.appendCstr, hall]
  exact BufferChain.append_spec junk h hs.2

private theorem appendHeaders_spec (junk : ByteMemory) {bc : BufferChain} (h : bc.Valid)
    (hdrs : HdrList) :
    ∃ bc', appendHeaders junk bc hdrs = .ok bc' ∧ bc'.Valid ∧
      bc'.data = bc.data ++ hdrs.flatMap headerLine := by
  induction hdrs generalizing bc with
  | nil => exact ⟨bc, rfl, h, by simp⟩
  | cons item rest ih =>
    obtain ⟨bc₁, h₁, hv₁, hd₁⟩ := appendCstr_spec junk h (headerLine_clean item)
    obtain ⟨bc₂, h₂, hv₂, hd₂⟩ := ih hv₁
    refine ⟨bc₂, ?_, hv₂, ?_⟩
    · rw [appendHeaders, h₁, Except.ok_bind, h₂]
    · rw [hd₂, hd₁, List.flatMap_cons, List.append_assoc]

private theorem appendBody_spec (junk : ByteMemory) {bc : BufferChain} (h : bc.Valid)
    {body : Option BufferChain} (hbody : ∀ b, body = some b → b.Sound) :
    ∃ bc', appendBody junk bc body = .ok bc' ∧ bc'.Valid ∧
      bc'.data = bc.data ++ body.elim [] BufferChain.data := by
  cases body with
  | none => exact ⟨bc, rfl, h, by simp⟩
  | some b =>
    have hb := hbody b rfl
    by_cases h0 : b.size ≠ 0
    · obtain ⟨iob, hiob, hholds, hptr⟩ := hb.compact_spec junk
      have hne : b.data ≠ [] := fun hnil => h0 (by rw [BufferChain.size, hb.size_eq, hnil]; rfl)
      obtain ⟨hv, hd⟩ := h.push hholds hptr hne
      refine ⟨bc.addBack iob, ?_, ?_, ?_⟩
      · simp only [appendBody, h0, ne_eq, not_false_eq_true, if_true, hiob, Except.ok_bind]
        rfl
      · rwa [BufferChain.addBack, IOBuffer.dataLen, hholds.remaining]
      · rw [BufferChain.addBack, IOBuffer.dataLen, hholds.remaining, hd]
        rfl
    · have hnil : b.data = [] := by
        have hsize : (b.data.length : ℤ) = 0 := hb.size_eq.symm.trans (not_not.mp h0)
        exact List.length_eq_zero_iff.mp (Int.natCast_eq_zero.mp hsize)
      exact ⟨bc, by simp only [appendBody, h0, if_false], h, by simp [hnil]⟩

/-- **`Message_serialize`.** When the first line can be formatted and the body is sound, the bytes
written are the first line, the header lines, the empty line and the body. -/
theorem serialize_spec {m : Message} {line : List UInt8} (hline : m.firstLine = .ok line)
    (hbody : ∀ bc, m.body = some bc → bc.Sound) (junk : ByteMemory) :
    ∃ iob, m.serialize junk = .ok iob ∧
      iob.Holds (line ++ m.headers.flatMap headerLine ++ ascii "\r\n" ++ m.bodyBytes) := by
  obtain ⟨bc₁, h₁, hv₁, hd₁⟩ := appendCstr_spec junk BufferChain.new_valid (firstLine_clean hline)
  obtain ⟨bc₂, h₂, hv₂, hd₂⟩ := appendHeaders_spec junk hv₁ m.headers
  obtain ⟨bc₃, h₃, hv₃, hd₃⟩ := appendCstr_spec junk hv₂ (s := ascii "\r\n") (by decide)
  obtain ⟨bc₄, h₄, hv₄, hd₄⟩ := appendBody_spec junk hv₃ hbody
  obtain ⟨iob, h₅, hholds, -⟩ := hv₄.sound.compact_spec junk
  refine ⟨iob, ?_, ?_⟩
  · simp only [serialize, hline, Except.ok_bind, h₁, h₂, h₃, h₄, h₅]
  · rw [hd₄, hd₃, hd₂, hd₁] at hholds
    exact hholds

/-- `Message_dump` returns whenever `Message_serialize` does. -/
theorem dump_spec {m : Message} {line : List UInt8} (hline : m.firstLine = .ok line)
    (hbody : ∀ bc, m.body = some bc → bc.Sound) (junk : ByteMemory) :
    ∃ iob, m.dump junk = .ok iob := by
  obtain ⟨bc₁, h₁, hv₁, -⟩ := appendCstr_spec junk BufferChain.new_valid (firstLine_clean hline)
  obtain ⟨bc₂, h₂, hv₂, -⟩ := appendHeaders_spec junk hv₁ m.headers
  obtain ⟨bc₃, h₃, hv₃, -⟩ := appendCstr_spec junk hv₂ (s := ascii "\r\n") (by decide)
  obtain ⟨bc₄, h₄, hv₄, -⟩ := appendCstr_spec junk hv₃ (s := ascii "body begin " ++ dumpBar)
    (by decide)
  obtain ⟨bc₅, h₅, hv₅, -⟩ := appendBody_spec junk hv₄ hbody
  obtain ⟨bc₆, h₆, hv₆, -⟩ := appendCstr_spec junk hv₅ (s := ascii "body end " ++ dumpBar)
    (by decide)
  obtain ⟨iob, h₇, -⟩ := hv₆.sound.compact_spec junk
  exact ⟨iob, by simp only [dump, hline, Except.ok_bind, h₁, h₂, h₃, h₄, h₅, h₆, h₇]⟩

/-! ### Requests -/

/-- `%s` of a text buffer. -/
theorem formatCbuffer_eq {cbuf : Cbuffer} {s : List UInt8} (h : cbuf.HoldsCstr s) (h0 : 0 ∉ s)
    (hcap : s.length ≤ cbuf.mCapacity) : formatCbuffer cbuf = .ok s := by
  have hle : s.length ≤ cbuf.mCapacity + 1 := by omega
  have hmem : 0 ∈ cbuf.mem.read 0 (cbuf.mCapacity + 1) := by
    rw [ByteMemory.read, List.mem_map]
    exact ⟨s.length, List.mem_range.mpr (by omega), by simpa using h.nul_length⟩
  rw [formatCbuffer, if_pos hmem, ByteMemory.cstr_eq_takeWhile _ h.nul_length hle, h.read]
  exact congrArg Except.ok (cString_eq_self.mpr h0)

/-- The first line of a request whose method is known and whose target has text. -/
theorem firstLine_request {m : Message} (hm : m.Sound) (hreq : m.isRequest = true)
    (htarget : m.target.data ≠ []) {meth : List UInt8}
    (hmeth : llhttpMethodName m.method = .ok meth) :
    m.firstLine = .ok (meth ++ [Http1.sp] ++ m.target.data ++ [Http1.sp] ++
      Http1.encodeVersion (1, m.minorVers) ++ Http1.crlf) := by
  obtain ⟨hcstr, h0, hcap⟩ := hm.target.holdsCstr htarget
  have hformat := formatCbuffer_eq hcstr h0 hcap
  simp only [firstLine, hreq, if_true, hmeth, hformat, Except.ok_bind, formatVersion, hm.majorVers]
  rfl

/-- A header line is the field's, when neither half has a NUL in it. -/
theorem headerLine_eq {item : KVPair} (hlabel : 0 ∉ item.label) (hvalue : 0 ∉ item.value) :
    headerLine item = Http1.encodeField (item.label, item.value) := by
  rw [headerLine, cString_eq_self.mpr hlabel, cString_eq_self.mpr hvalue]
  rfl

/-- The reference grammar can carry the header list. -/
def HeadersOk (m : Message) : Prop :=
  ∀ item ∈ m.headers, Http1.Token item.label ∧ OneLine item.value

instance (m : Message) : Decidable m.HeadersOk :=
  inferInstanceAs (Decidable (∀ item ∈ m.headers, _ ∧ _))

private theorem HeadersOk.fieldOk {m : Message} (h : m.HeadersOk) :
    ∀ f ∈ m.fields, Http1.FieldOk f := by
  intro f hf
  obtain ⟨item, hi, rfl⟩ := List.mem_map.mp hf
  exact ⟨(h item hi).1, fun hcr => ((h item hi).2 _ hcr).1 rfl⟩

private theorem HeadersOk.flatMap_headerLine {m : Message} (h : m.HeadersOk) :
    m.headers.flatMap headerLine ++ ascii "\r\n" = Http1.encodeFields m.fields := by
  have hlines : m.headers.flatMap headerLine = m.fields.flatMap Http1.encodeField := by
    rw [fields, List.flatMap_map]
    refine List.flatMap_congr fun item hi => headerLine_eq ((h item hi).1.notMem (by decide)) ?_
    exact fun h0 => ((h item hi).2 0 h0).2.2 rfl
  rw [hlines]
  rfl

/-- A request that the reference grammar can carry. -/
structure Sendable (m : Message) : Prop where
  isRequest : m.isRequest = true
  method : m.method < methodNames.length
  target_ne_nil : m.target.data ≠ []
  target : Visible m.target.data
  headers : m.HeadersOk

instance (m : Message) : Decidable m.Sendable :=
  decidable_of_iff (m.isRequest = true ∧ m.method < methodNames.length ∧ m.target.data ≠ [] ∧
      Visible m.target.data ∧ m.HeadersOk)
    ⟨fun ⟨h₁, h₂, h₃, h₄, h₅⟩ => ⟨h₁, h₂, h₃, h₄, h₅⟩,
      fun ⟨h₁, h₂, h₃, h₄, h₅⟩ => ⟨h₁, h₂, h₃, h₄, h₅⟩⟩

/-- The method names are tokens, and no two are the same. -/
theorem exists_llhttpMethodName {method : ℕ} (h : method < methodNames.length) :
    ∃ meth, llhttpMethodName method = .ok meth ∧ Http1.Token meth ∧
      ∀ method', llhttpMethodName method' = .ok meth → method' = method := by
  have htokens : ∀ s ∈ methodNames, Http1.Token (ascii s) := by decide +kernel
  have hnodup : (methodNames.map ascii).Nodup := by decide +kernel
  have hget : methodNames[method]? = some methodNames[method] := List.getElem?_eq_getElem h
  refine ⟨ascii methodNames[method], ?_, htokens _ (List.getElem_mem h), fun method' h' => ?_⟩
  · rw [llhttpMethodName, hget]
  · unfold llhttpMethodName at h'
    split at h'
    · rename_i s hs
      obtain ⟨hlt, hs'⟩ := List.getElem?_eq_some_iff.mp hs
      injection h' with h'
      have hlt' : method' < (methodNames.map ascii).length := by rwa [List.length_map]
      have hlt'' : method < (methodNames.map ascii).length := by rwa [List.length_map]
      have heq : (methodNames.map ascii)[method'] = (methodNames.map ascii)[method] := by
        rw [List.getElem_map, List.getElem_map, hs', h']
      exact (List.getElem_inj hnodup).mp heq
    · cases h'

/-- What is written for a request, and how it is read back: `head` and then the body. -/
theorem serialize_request {m : Message} (hb : m.Sound) (hm : m.Sendable) {meth : List UInt8}
    (hmeth : llhttpMethodName m.method = .ok meth) (junk : ByteMemory) :
    ∃ iob, m.serialize junk = .ok iob ∧ iob.data = Http1.encodeRequestHead
      ⟨meth, m.target.data, (1, m.minorVers), m.fields⟩ ++ m.bodyBytes := by
  obtain ⟨iob, hiob, hholds⟩ := serialize_spec
    (firstLine_request hb hm.isRequest hm.target_ne_nil hmeth) (fun bc h => (hb.body bc h).sound) junk
  refine ⟨iob, hiob, hholds.data_eq.trans ?_⟩
  rw [List.append_assoc _ (m.headers.flatMap headerLine), hm.headers.flatMap_headerLine]
  rfl

theorem Sendable.headOk {m : Message} (hm : m.Sendable) {meth : List UInt8}
    (hmeth : Http1.Token meth) :
    Http1.RequestHeadOk ⟨meth, m.target.data, (1, m.minorVers), m.fields⟩ where
  method := hmeth
  target_ne_nil := hm.target_ne_nil
  target := ⟨fun h => absurd (hm.target _ h).1 (by decide),
    fun h => absurd (hm.target _ h).1 (by decide)⟩
  headers := hm.headers.fieldOk

/-- **Requests.** For every request built through the interface that the grammar can carry, with
any body, `Message_serialize` returns exactly the request line, the header lines with their labels
in upper case, the empty line and the body; the reference grammar reads method, target, header
list and body back; and serialising again, into other memory, gives the same bytes. -/
theorem request_serialize_decodes {m : Message} (hb : m.Built) (hm : m.Sendable)
    (junk junk' : ByteMemory) :
    ∃ meth iob iob', llhttpMethodName m.method = .ok meth ∧
      (∀ method, llhttpMethodName method = .ok meth → method = m.method) ∧
      m.serialize junk = .ok iob ∧
      iob.data = meth ++ ascii " " ++ m.target.data ++ ascii " HTTP/1." ++ formatNat m.minorVers ++
        ascii "\r\n" ++ m.headers.flatMap (fun item =>
          item.label.map toUpper ++ ascii ": " ++ item.value ++ ascii "\r\n") ++
        ascii "\r\n" ++ m.bodyBytes ∧
      Http1.requestHead iob.data =
        some (⟨meth, m.target.data, (1, m.minorVers), m.fields⟩, m.bodyBytes) ∧
      m.serialize junk' = .ok iob' ∧ iob'.data = iob.data := by
  have hs := hb.sound
  obtain ⟨meth, hmeth, htoken, hinj⟩ := exists_llhttpMethodName hm.method
  obtain ⟨iob, hiob, hdata⟩ := serialize_request hs hm hmeth junk
  obtain ⟨iob', hiob', hdata'⟩ := serialize_request hs hm hmeth junk'
  refine ⟨meth, iob, iob', hmeth, hinj, hiob, ?_, ?_, hiob', hdata'.trans hdata.symm⟩
  · have hlines : m.fields.flatMap Http1.encodeField = m.headers.flatMap (fun item =>
        item.label.map toUpper ++ ascii ": " ++ item.value ++ ascii "\r\n") := by
      rw [fields, List.flatMap_map]
      refine List.flatMap_congr fun item hi => ?_
      rw [hs.labels item hi]
      rfl
    have hversion : Http1.encodeVersion (1, m.minorVers) =
        ascii "HTTP/1." ++ formatNat m.minorVers := by
      rw [Http1.encodeVersion, Http1.decimal_of_lt (by decide : 1 < 10)]
      rfl
    rw [hdata, Http1.encodeRequestHead, Http1.encodeFields, hlines, hversion]
    simp [ascii, Http1.sp, Http1.crlf, Http1.cr, Http1.lf]
  · rw [hdata]
    exact Http1.requestHead_encode (hm.headOk htoken) _

/-- `POST /a` with a header line and a body that has a NUL in it. -/
theorem request_serialize_decodes_post :
    ∃ m bc, ((newRequest .zeros).setMethod 3).setTarget (ascii "/a") = .ok m ∧
      BufferChain.new.append (fun _ => 7) [1, 0, 2] = .ok bc ∧
      ((m.addHeaderCstring (ascii "Key") (ascii "v")).setBody bc).Built ∧
      ((m.addHeaderCstring (ascii "Key") (ascii "v")).setBody bc).Sendable ∧
      ∃ iob, ((m.addHeaderCstring (ascii "Key") (ascii "v")).setBody bc).serialize (fun _ => 0) =
          .ok iob ∧
        Http1.requestHead iob.data =
          some (⟨ascii "POST", ascii "/a", (1, 1), [(ascii "KEY", ascii "v")]⟩, [1, 0, 2]) := by
  refine ⟨_, _, rfl, rfl, ?_⟩
  have hb := Built.setBody _ (.addHeaderCstring (ascii "Key") (ascii "v")
    (.setTarget (ascii "/a") (.setMethod 3 (.newRequest .zeros)) rfl))
    (.append (fun _ => 7) [1, 0, 2] .new rfl)
  refine ⟨hb, by decide +kernel, ?_⟩
  obtain ⟨meth, iob, -, hmeth, -, hiob, -, hhead, -⟩ :=
    request_serialize_decodes hb (by decide +kernel) (fun _ => 0) fun _ => 0
  cases hmeth
  exact ⟨iob, hiob, hhead⟩

/-! ### Responses -/

/-- What is asked of a response: that it is serialised, and that the reference grammar reads
status, reason, header list and body back. -/
def ReadBack (junk : ByteMemory) (m : Message) : Prop :=
  ∃ iob, m.serialize junk = .ok iob ∧ Http1.responseHead iob.data =
    some (⟨(m.majorVers, m.minorVers), m.statusCode, m.reason.data, m.fields⟩, m.bodyBytes)

/-- What is serialised starts with the first line, whatever the body. -/
theorem firstLine_prefix {m : Message} {junk : ByteMemory} {iob : IOBuffer}
    (h : m.serialize junk = .ok iob) : ∃ line, m.firstLine = .ok line ∧ line <+: iob.data := by
  simp only [serialize, Except.bind_eq_ok] at h
  obtain ⟨line, hline, bc₁, h₁, bc₂, h₂, bc₃, h₃, bc₄, h₄, h₅⟩ := h
  refine ⟨line, hline, ?_⟩
  obtain ⟨bc, hbc, hv₁, hd₁⟩ := appendCstr_spec junk BufferChain.new_valid (firstLine_clean hline)
  cases hbc.symm.trans h₁
  obtain ⟨bc, hbc, hv₂, hd₂⟩ := appendHeaders_spec junk hv₁ m.headers
  cases hbc.symm.trans h₂
  obtain ⟨bc, hbc, -, hd₃⟩ := appendCstr_spec junk hv₂ (s := ascii "\r\n") (by decide)
  cases hbc.symm.trans h₃
  have hprefix : line <+: bc₃.data := by
    rw [hd₃, hd₂, hd₁, List.append_assoc, List.append_assoc]
    exact List.prefix_append _ _
  rw [(BufferChain.holds_of_compact h₅).data_eq]
  exact hprefix.trans (data_of_appendBody h₄)

/-- **Responses.** No response is read back: whatever its status, reason, header list and body,
two spaces stand where the grammar has one, so what was serialised has no status. -/
theorem response_serialize_never_decodes {m : Message} (hm : m.isRequest = false)
    (junk : ByteMemory) : ¬ m.ReadBack junk := by
  rintro ⟨iob, hiob, hhead⟩
  obtain ⟨line, hline, tail, htail⟩ := firstLine_prefix hiob
  simp only [firstLine, hm, Bool.false_eq_true, if_false, Except.bind_eq_ok] at hline
  obtain ⟨reason, -, heq⟩ := hline
  cases heq
  have hdata : iob.data = Http1.encodeVersion (m.majorVers, m.minorVers) ++ Http1.sp :: Http1.sp ::
      (formatNat m.statusCode ++ ascii " " ++ reason ++ ascii "\r\n" ++ tail) := by
    rw [← htail]
    simp [formatVersion, Http1.encodeVersion, ascii, Http1.sp, Http1.httpSlash, Http1.dot, formatNat,
      Http1.decimal]
  rw [hdata, Http1.responseHead_double_space (Http1.notMem_encodeVersion (by decide) (by decide) _)
    (Http1.notMem_encodeVersion (by decide) (by decide) _)] at hhead
  cases hhead

/-- A response without headers or body. -/
theorem response_serialize_never_decodes_bare :
    ∃ m, ((newResponse .zeros).setStatus 203).setReason (ascii "AREASON") = .ok m ∧
      m.isRequest = false ∧ ¬ m.ReadBack fun _ => 0 :=
  ⟨_, rfl, rfl, response_serialize_never_decodes rfl _⟩

/-- The response of `test_serialize`, `203 AREASON`, with one header line: a status of three
digits, a reason set through `Message_set_reason`, and a header name that is a token. -/
theorem response_203_not_read_back :
    ∃ m iob, ((newResponse .zeros).setStatus 203).setReason (ascii "AREASON") = .ok m ∧
      (m.setHeadersArr [(ascii "Key1", ascii "value1")]).HeadersOk ∧
      (m.setHeadersArr [(ascii "Key1", ascii "value1")]).serialize (fun _ => 0) = .ok iob ∧
      iob.data = ascii "HTTP/1.1  203 AREASON\r\nKEY1: value1\r\n\r\n" ∧
      Http1.responseHead iob.data = none ∧
      ¬ (m.setHeadersArr [(ascii "Key1", ascii "value1")]).ReadBack fun _ => 0 := by
  have hnone : Http1.responseHead
      (ascii "HTTP/1.1  203 AREASON\r\nKEY1: value1\r\n\r\n") = none := by decide +kernel
  refine ⟨_, _, rfl, by decide +kernel, rfl, by decide +kernel, hnone, ?_⟩
  rintro ⟨iob, hiob, hhead⟩
  cases hiob
  cases hnone.symm.trans hhead

end Message

end CHttp
