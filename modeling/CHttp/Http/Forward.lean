import CHttp.Http.Serialize

/-!
# Serialising a message that was received

What a proxy does: a request comes in through the parser and goes out through
`Message_serialize`. The parser stores the body without its framing and the header list with the
framing fields in it, and `Message_set_version` stores the minor version only. So the next hop
reads the request that was received exactly when its major version is 1 and its body was counted,
not chunked (`received_forwarded_iff`).

The parser makes its messages with the functions of `message.h`, so what `Http.Serialize` says of
messages that were built holds of those it delivers (`delivered_built`).
-/

namespace CHttp

/-! ### The parser builds its messages -/

namespace HttpParser

/-- The message being read, and those delivered, were built through the interface. -/
structure AllBuilt (s : HttpParser × List Message) : Prop where
  current : ∀ m, s.1.currentMessage = some m → m.Built
  delivered : ∀ m ∈ s.2, m.Built

private theorem built_newMessage (p : HttpParser) :
    ∀ m, p.newMessage.currentMessage = some m → m.Built := by
  intro m hm
  cases hm
  exact .new _

section
variable {p p' : HttpParser} (h : ∀ m, p.currentMessage = some m → m.Built)
include h

private theorem built_of_current {func : String} {m : Message} (hm : p.current func = .ok m) :
    m.Built := by
  unfold current at hm
  split at hm
  · cases hm
    exact h _ ‹_›
  · cases hm

private theorem built_urlData {data : List UInt8} (hp : p.urlDataCb data = .ok p') :
    ∀ m, p'.currentMessage = some m → m.Built := by
  simp only [urlDataCb, Except.bind_eq_ok] at hp
  obtain ⟨m, hm, buf, -, heq⟩ := hp
  cases heq
  intro m' hm'
  cases hm'
  exact .setIsRequest true (built_of_current h hm)

private theorem built_statusData {code : ℕ} {data : List UInt8}
    (hp : p.statusDataCb code data = .ok p') :
    ∀ m, p'.currentMessage = some m → m.Built := by
  simp only [statusDataCb, Except.bind_eq_ok] at hp
  obtain ⟨m, hm, buf, -, m₁, hm₁, heq⟩ := hp
  cases heq
  intro m' hm'
  cases hm'
  have hb := Message.Built.setIsRequest false (built_of_current h hm)
  exact .setReasonCbuffer _ (.setStatus code hb) hm₁

private theorem built_flushHeader {func : String} (hp : p.flushHeader func = .ok p') :
    ∀ m, p'.currentMessage = some m → m.Built := by
  unfold flushHeader at hp
  split at hp
  · rw [Except.bind_eq_ok] at hp
    obtain ⟨m, hm, heq⟩ := hp
    cases heq
    intro m' hm'
    cases hm'
    exact .addHeaderCbuf _ _ (built_of_current h hm)
  · cases hp
    exact h

private theorem built_startField (hp : p.startField = .ok p') :
    ∀ m, p'.currentMessage = some m → m.Built := by
  unfold startField at hp
  split at hp
  · exact built_flushHeader h hp
  · exact built_flushHeader h hp
  · cases hp
    exact h

private theorem built_headerFieldData {data : List UInt8} (hp : p.headerFieldDataCb data = .ok p') :
    ∀ m, p'.currentMessage = some m → m.Built := by
  simp only [headerFieldDataCb, Except.bind_eq_ok] at hp
  obtain ⟨p₁, h₁, buf, -, heq⟩ := hp
  have hb := built_startField h h₁
  cases heq
  exact hb

private theorem built_headerValueData {data : List UInt8} (hp : p.headerValueDataCb data = .ok p') :
    ∀ m, p'.currentMessage = some m → m.Built := by
  unfold headerValueDataCb at hp
  split at hp
  · rw [Except.bind_eq_ok] at hp
    obtain ⟨buf, -, heq⟩ := hp
    cases heq
    exact h
  · rw [Except.bind_eq_ok] at hp
    obtain ⟨buf, -, heq⟩ := hp
    cases heq
    exact h
  · cases hp

private theorem built_headersComplete {major minor method : ℕ}
    (hp : p.headersCompleteCb major minor method = .ok p') :
    ∀ m, p'.currentMessage = some m → m.Built := by
  simp only [headersCompleteCb, Except.bind_eq_ok] at hp
  obtain ⟨p₁, h₁, m, hm, m', hm', heq⟩ := hp
  cases heq
  intro m'' hm''
  cases hm''
  have hb := Message.Built.setVersion major minor (built_of_current (built_flushHeader h h₁) hm)
  unfold setRequestLine at hm'
  split at hm'
  · cases hm'
    exact hb
  · exact .setTargetCbuffer _ (.setMethod method hb) hm'

private theorem built_bodyData {data : List UInt8} (hp : p.bodyDataCb data = .ok p') :
    ∀ m, p'.currentMessage = some m → m.Built := by
  simp only [bodyDataCb, Except.bind_eq_ok] at hp
  obtain ⟨m, hm, chain, hchain, heq⟩ := hp
  cases heq
  intro m' hm'
  cases hm'
  have hb := built_of_current h hm
  have hold : (m.body.getD BufferChain.new).Built := by
    cases hbody : m.body with
    | none => exact .new
    | some bc => exact hb.sound.body bc hbody
  exact .setBody _ hb (.append _ _ hold hchain)

end

/-- A callback that delivers nothing. -/
theorem AllBuilt.of_bind {s s' : HttpParser × List Message} (h : AllBuilt s)
    {x : Except Abort HttpParser} (hx : ∀ p, x = .ok p → ∀ m, p.currentMessage = some m → m.Built)
    (hs : (do return (← x, s.2)) = .ok s') : AllBuilt s' := by
  rw [Except.bind_eq_ok] at hs
  obtain ⟨p, hp, heq⟩ := hs
  cases heq
  exact ⟨hx p hp, h.delivered⟩

/-- One callback keeps to the interface. -/
theorem callback_built {s s' : HttpParser × List Message} (h : AllBuilt s) {ev : LlEvent}
    (hs : callback collect s ev = .ok s') : AllBuilt s' := by
  cases ev with
  | messageBegin =>
    cases hs
    exact ⟨built_newMessage _, h.delivered⟩
  | url => exact h.of_bind (fun _ => built_urlData h.current) hs
  | status => exact h.of_bind (fun _ => built_statusData h.current) hs
  | headerField => exact h.of_bind (fun _ => built_headerFieldData h.current) hs
  | headerValue => exact h.of_bind (fun _ => built_headerValueData h.current) hs
  | headersComplete => exact h.of_bind (fun _ => built_headersComplete h.current) hs
  | body => exact h.of_bind (fun _ => built_bodyData h.current) hs
  | messageComplete =>
    simp only [callback, messageCompleteCb, Except.bind_eq_ok] at hs
    obtain ⟨m, hm, heq⟩ := hs
    cases heq
    refine ⟨built_newMessage _, fun m' hm' => ?_⟩
    rcases List.mem_append.mp hm' with hm' | hm'
    · exact h.delivered m' hm'
    · rw [List.mem_singleton.mp hm']
      exact built_of_current h.current hm

/-- Every message the parser delivers was built through the interface. -/
theorem delivered_built {heap : Heap} {buf : ByteMemory} {evs : List LlEvent} {ds : List Message}
    (h : delivered heap buf evs = .ok ds) : ∀ m ∈ ds, m.Built := by
  simp only [delivered, Except.bind_eq_ok] at h
  obtain ⟨s, hs, heq⟩ := h
  cases heq
  have hstart : AllBuilt (new heap buf, []) := ⟨fun m hm => (by cases hm), by simp⟩
  generalize (new heap buf, ([] : List Message)) = s₀ at hs hstart
  suffices AllBuilt s from this.delivered
  induction evs generalizing s₀ with
  | nil =>
    cases hs
    exact hstart
  | cons ev evs ih =>
    simp only [callbacks, List.foldlM_cons, Except.bind_eq_ok] at hs
    obtain ⟨s₁, h₁, h₂⟩ := hs
    exact ih s₁ h₂ (callback_built hstart h₁)

end HttpParser

/-! ### Requests received -/

/-- `HTTP_CONNECT`. -/
def httpConnect : ℕ := 5

/-- The report of a well-formed request. Names are tokens, the other texts have no byte in them
that ends a word or a line, and none is too long for its buffer. The version is one of those that
`llhttp` lets through. The body is as the header fields announce it, but for a `CONNECT` request,
which `llhttp` reports without one; only a chunked message has trailers. -/
structure ReceivedRequest where
  method : ℕ
  httpMajor : ℕ
  httpMinor : ℕ
  url : List (List UInt8)
  headers : List HeaderFragments
  body : List (List UInt8)
  trailers : List HeaderFragments
  method_lt : method < Message.methodNames.length
  version : (httpMajor, httpMinor) ∈ [(0, 9), (1, 0), (1, 1), (2, 0)]
  url_ne_nil : url.flatten ≠ []
  url_clean : url.flatten.length ≤ Cbuffer.maxSize ∧ Visible url.flatten
  fields_clean : ∀ h ∈ headers ++ trailers, Http1.Token h.name ∧ OneLine h.text ∧ h.Fits
  body_ne_nil : ∀ data ∈ body, data ≠ []
  framed : if method = httpConnect then body = [] ∧ trailers = []
    else match Http1.framing (headers.map fun h => (h.name, h.text)) with
      | some (.length n) => body.flatten.length = n ∧ trailers = []
      | some .chunked => True
      | none => False

namespace ReceivedRequest

def toEvents (r : ReceivedRequest) : MessageEvents where
  start := .request r.url
  httpMajor := r.httpMajor
  httpMinor := r.httpMinor
  method := r.method
  headers := r.headers
  body := r.body
  trailers := r.trailers
  body_ne_nil := r.body_ne_nil

/-- How the end of the body is announced. -/
def framing (r : ReceivedRequest) : Option Http1.Framing :=
  Http1.framing (r.headers.map fun h => (h.name, h.text))

/-- The header list, labels in upper case. -/
def fields (r : ReceivedRequest) : List Http1.Field :=
  r.headers.map fun h => (h.name.map toUpper, h.text)

/-- The request is of major version 1 and its body is counted; and a `CONNECT` request, whose body
`llhttp` does not report, announces none. -/
def Forwardable (r : ReceivedRequest) : Prop :=
  r.httpMajor = 1 ∧ r.framing ≠ some .chunked ∧
    (r.method = httpConnect → r.framing = some (.length 0))

instance (r : ReceivedRequest) : Decidable r.Forwardable := inferInstanceAs (Decidable (_ ∧ _))

theorem accepted (r : ReceivedRequest) : r.toEvents.Accepted where
  start := r.url_clean.1
  headers h hh := (r.fields_clean h (List.mem_append_left _ hh)).2.2
  trailers h hh := (r.fields_clean h (List.mem_append_right _ hh)).2.2

end ReceivedRequest

/-- The message, serialised and decoded by the framing rules of HTTP/1.1, is the request that was
received, and nothing is left over. -/
def Message.Survives (junk : ByteMemory) (m : Message) (r : ReceivedRequest) : Prop :=
  ∃ iob meth, m.serialize junk = .ok iob ∧ Message.llhttpMethodName r.method = .ok meth ∧
    Http1.request iob.data = some
      (⟨meth, r.url.flatten, (r.httpMajor, r.httpMinor), r.fields⟩, r.body.flatten, [])

/-! ### Framing and letter case -/

private theorem lower_toUpper (b : UInt8) : Http1.lower (toUpper b) = Http1.lower b := by
  by_cases h : 97 ≤ b ∧ b ≤ 122
  · obtain ⟨heq, hge, hle⟩ := toUpper_of_lower h
    have hb : ¬ (65 ≤ b ∧ b ≤ 90) := fun h' => absurd (UInt8.le_trans h.1 h'.2) (by decide)
    rw [heq, Http1.lower, Http1.lower, if_pos ⟨hge, hle⟩, if_neg hb, UInt8.sub_add_cancel]
  · rw [toUpper_of_not_lower h]

private theorem isTchar_toUpper {b : UInt8} (h : Http1.isTchar b) : Http1.isTchar (toUpper b) := by
  by_cases hb : 97 ≤ b ∧ b ≤ 122
  · obtain ⟨heq, hge, hle⟩ := toUpper_of_lower hb
    rw [heq, Http1.isTchar, decide_eq_true_eq]
    exact Or.inr (Or.inl ⟨hge, hle⟩)
  · rwa [toUpper_of_not_lower hb]

private theorem token_map_toUpper {s : List UInt8} (h : Http1.Token s) :
    Http1.Token (s.map toUpper) := by
  refine ⟨by simpa using h.1, fun b hb => ?_⟩
  obtain ⟨c, hc, rfl⟩ := List.mem_map.mp hb
  exact isTchar_toUpper (h.2 c hc)

/-- Upper-casing the labels changes no decision about the body. -/
theorem framing_map_toUpper (hs : List HeaderFragments) :
    Http1.framing (hs.map fun h => (h.name.map toUpper, h.text)) =
      Http1.framing (hs.map fun h => (h.name, h.text)) := by
  have hvalues : ∀ name, Http1.valuesOf name (hs.map fun h => (h.name.map toUpper, h.text)) =
      Http1.valuesOf name (hs.map fun h => (h.name, h.text)) := by
    intro name
    induction hs with
    | nil => rfl
    | cons h hs ih =>
      have hlower : (h.name.map toUpper).map Http1.lower = h.name.map Http1.lower := by
        rw [List.map_map]
        exact List.map_congr_left fun b _ => lower_toUpper b
      simp only [Http1.valuesOf] at ih
      simp only [Http1.valuesOf, List.map_cons, List.filter_cons, hlower]
      split
      · rw [List.map_cons, List.map_cons, ih]
      · exact ih
  simp only [Http1.framing, hvalues]

theorem ReceivedRequest.framing_fields (r : ReceivedRequest) :
    Http1.framing r.fields = r.framing := framing_map_toUpper r.headers

/-- A body that is not chunked is counted, and comes without trailers. -/
theorem ReceivedRequest.Forwardable.counted {r : ReceivedRequest} (h : r.Forwardable) :
    r.framing = some (.length r.body.flatten.length) ∧ r.trailers = [] := by
  obtain ⟨-, hchunked, hconnect⟩ := h
  have hframed := r.framed
  by_cases hc : r.method = httpConnect
  · rw [if_pos hc] at hframed
    exact ⟨by rw [hconnect hc, hframed.1]; rfl, hframed.2⟩
  · rw [if_neg hc] at hframed
    change match r.framing with
      | some (.length n) => r.body.flatten.length = n ∧ r.trailers = []
      | some .chunked => True
      | none => False at hframed
    split at hframed
    · rename_i n hn
      exact ⟨by rw [hn, hframed.1], hframed.2⟩
    · exact absurd ‹_› hchunked
    · exact hframed.elim

/-! ### One message -/

/-- The message says what the request said; the trailers but the last have joined its header
list. -/
structure Message.Received (m : Message) (r : ReceivedRequest) : Prop where
  sendable : m.Sendable
  method : m.method = r.method
  target : m.target.data = r.url.flatten
  minorVers : m.minorVers = r.httpMinor
  fields : m.fields = r.fields ++ (r.trailers.dropLast.map fun h => (h.name.map toUpper, h.text))
  body : m.bodyBytes = r.body.flatten

/-- No header line is dropped for want of a name. -/
theorem kept_of_tokens {hs : List HeaderFragments} (h : ∀ f ∈ hs, Http1.Token f.name) :
    Decoder.kept hs = hs.map HeaderFragments.pair :=
  (Decoder.kept_eq_iff hs).mpr fun f hf => (h f hf).1

/-- What the parser delivers for a request. -/
theorem received_of_view {m : Message} {r : ReceivedRequest} {j : Message.Junk}
    (hv : m.view = r.toEvents.deliver j) : m.Received r := by
  have hne : r.url ≠ [] := fun h0 => r.url_ne_nil (by rw [h0]; rfl)
  have htokens := fun h hh => (r.fields_clean h hh).1
  have hkept : Decoder.kept r.headers = r.headers.map HeaderFragments.pair :=
    kept_of_tokens fun f hf => htokens f (List.mem_append_left _ hf)
  have hkept' : Decoder.kept r.trailers.dropLast = r.trailers.dropLast.map HeaderFragments.pair :=
    kept_of_tokens fun f hf =>
      htokens f (List.mem_append_right _ ((List.dropLast_sublist _).subset hf))
  have hheaders : m.headers = (r.headers ++ r.trailers.dropLast).map HeaderFragments.pair := by
    have := congrArg MessageView.headers hv
    rw [List.map_append, ← hkept, ← hkept']
    exact this
  have htarget : m.target.data = r.url.flatten := by
    have h0 : 0 ∉ r.url.flatten := fun h0 => absurd (r.url_clean.2 0 h0).1 (by decide)
    exact (congrArg MessageView.target hv).trans (cString_eq_self.mpr h0)
  have hmethod : m.method = r.method :=
    (congrArg MessageView.method hv).trans (if_neg r.url_ne_nil)
  refine ⟨⟨?_, hmethod ▸ r.method_lt, htarget ▸ r.url_ne_nil, htarget ▸ r.url_clean.2, ?_⟩,
    hmethod, htarget, congrArg MessageView.minorVers hv, ?_, congrArg MessageView.body hv⟩
  · refine (congrArg MessageView.isRequest hv).trans ?_
    simp [MessageEvents.deliver, ReceivedRequest.toEvents, StartLine.view, hne]
  · intro item hi
    rw [hheaders] at hi
    obtain ⟨f, hf, rfl⟩ := List.mem_map.mp hi
    have hmem : f ∈ r.headers ++ r.trailers := by
      rcases List.mem_append.mp hf with hf | hf
      · exact List.mem_append_left _ hf
      · exact List.mem_append_right _ ((List.dropLast_sublist _).subset hf)
    exact ⟨token_map_toUpper (htokens f hmem), (r.fields_clean f hmem).2.1⟩
  · rw [Message.fields, hheaders, List.map_map, List.map_append]
    rfl

/-- What the next hop reads: the head with its version changed to `1.x`, then whatever the header
fields delimit. -/
theorem request_of_serialize {m : Message} {r : ReceivedRequest} (hb : m.Built)
    (hr : m.Received r) (junk : ByteMemory) :
    ∃ iob meth, m.serialize junk = .ok iob ∧ Message.llhttpMethodName r.method = .ok meth ∧
      Http1.request iob.data = (Http1.framing m.fields).bind fun f =>
        (Http1.body r.body.flatten f).map fun p =>
          (⟨meth, r.url.flatten, (1, r.httpMinor), m.fields⟩, p.1, p.2) := by
  obtain ⟨meth, hmeth, htoken, -⟩ := Message.exists_llhttpMethodName hr.sendable.method
  obtain ⟨iob, hiob, hdata⟩ := Message.serialize_request hb.sound hr.sendable hmeth junk
  refine ⟨iob, meth, hiob, hr.method ▸ hmeth, ?_⟩
  rw [hdata, Http1.request_encode (hr.sendable.headOk htoken), hr.target, hr.minorVers, hr.body]

/-- **One message.** It survives exactly if the request can be forwarded. -/
theorem Message.Received.survives_iff {m : Message} {r : ReceivedRequest} (hb : m.Built)
    (hr : m.Received r) (junk : ByteMemory) : m.Survives junk r ↔ r.Forwardable := by
  obtain ⟨iob, meth, hiob, hmeth, hreq⟩ := request_of_serialize hb hr junk
  constructor
  · rintro ⟨iob', meth', hiob', hmeth', hsurvives⟩
    cases hiob.symm.trans hiob'
    cases hmeth.symm.trans hmeth'
    rw [hreq, Option.bind_eq_some_iff] at hsurvives
    obtain ⟨f, hf, hbody⟩ := hsurvives
    rw [Option.map_eq_some_iff] at hbody
    obtain ⟨⟨content, rest⟩, hcontent, heq⟩ := hbody
    simp only [Prod.mk.injEq, Http1.RequestHead.mk.injEq] at heq
    obtain ⟨⟨-, -, ⟨hmajor, -⟩, -⟩, rfl, rfl⟩ := heq
    -- the body was read back as it stands, so the fields announce its length
    have hlength := Http1.length_of_body_self hcontent
    rw [hlength, hr.fields] at hf
    refine ⟨hmajor.symm, fun hchunked => ?_, fun hconnect => ?_⟩
    · rw [← r.framing_fields] at hchunked
      exact Http1.framing_append_ne_length hchunked _ _ hf
    · have hframed := r.framed
      rw [if_pos hconnect] at hframed
      rw [hframed.2, List.dropLast_nil, List.map_nil, List.append_nil, r.framing_fields,
        hframed.1] at hf
      exact hf
  · intro h
    obtain ⟨hframing, htrailers⟩ := h.counted
    have hfields : m.fields = r.fields := by
      rw [hr.fields, htrailers]
      exact List.append_nil _
    refine ⟨iob, meth, hiob, hmeth, ?_⟩
    rw [hreq, hfields, r.framing_fields, hframing, Option.bind_some, Http1.body_length_self, h.1]
    rfl

/-! ### Whole streams -/

/-- From the views of the messages to the messages, one by one. -/
theorem forall₂_survives {ds : List Message} {msgs : List ReceivedRequest} {n : ℕ}
    {blocks : ℕ → Message.Junk} (junk : ByteMemory) (hb : ∀ m ∈ ds, m.Built)
    (hv : ds.map Message.view =
      MessageEvents.deliverAll blocks n (msgs.map ReceivedRequest.toEvents)) :
    List.Forall₂ (fun m r => m.Survives junk r ↔ r.Forwardable) ds msgs := by
  induction msgs generalizing ds n with
  | nil =>
    rw [List.map_eq_nil_iff.mp hv]
    exact .nil
  | cons r msgs ih =>
    obtain ⟨m, ds', rfl, hhead, htail⟩ := List.map_eq_cons_iff.mp hv
    obtain ⟨hm, hds⟩ := List.forall_mem_cons.mp hb
    exact .cons ((received_of_view hhead).survives_iff hm junk) (ih hds htail)

/-- **Forwarding, exactly.** For every stream of well-formed requests, cut in any way and whatever
memory held before: the parser delivers them all, and each message delivered, serialised again and
decoded by the framing rules, is the request received if and only if that request is of major
version 1 and its body, if any, was counted and not chunked. -/
theorem received_forwarded_iff (msgs : List ReceivedRequest) (heap : Heap) (buf junk : ByteMemory) :
    ∃ ds, HttpParser.delivered heap buf (msgs.flatMap fun r => r.toEvents.events) = .ok ds ∧
      List.Forall₂ (fun m r => m.Survives junk r ↔ r.Forwardable) ds msgs := by
  have hevs : (msgs.flatMap fun r => r.toEvents.events) =
      (msgs.map ReceivedRequest.toEvents).flatMap MessageEvents.events :=
    (List.flatMap_map ..).symm
  have hacc : ∀ m ∈ msgs.map ReceivedRequest.toEvents, m.Accepted := by
    intro m hm
    obtain ⟨r, -, rfl⟩ := List.mem_map.mp hm
    exact r.accepted
  obtain ⟨ds, hds, hview⟩ := HttpParser.delivered_ok heap buf hacc
  rw [hevs]
  exact ⟨ds, hds, forall₂_survives junk (HttpParser.delivered_built hds) hview⟩

theorem post_lt : 3 < Message.methodNames.length := by decide

theorem version_one_one : ((1, 1) : ℕ × ℕ) ∈ [(0, 9), (1, 0), (1, 1), (2, 0)] := by decide

/-- `POST / HTTP/1.1` with the body `hi` in one chunk. -/
def chunkedPost : ReceivedRequest where
  method := 3
  httpMajor := 1
  httpMinor := 1
  url := [ascii "/"]
  headers := [⟨[ascii "Transfer-", ascii "Encoding"], [ascii "chun", ascii "ked"], by simp, by simp⟩]
  body := [ascii "hi"]
  trailers := []
  method_lt := post_lt
  version := version_one_one
  url_ne_nil := by decide
  url_clean := by decide +kernel
  fields_clean := by decide +kernel
  body_ne_nil := by decide
  framed := trivial

/-- The body goes out without its chunk, under a header field that announces chunks: the next hop
can make nothing of it. -/
theorem chunked_post_garbled :
    ∃ heap buf m iob, HttpParser.delivered heap buf chunkedPost.toEvents.events = .ok [m] ∧
      m.serialize (fun _ => 0) = .ok iob ∧
      iob.data = ascii "POST / HTTP/1.1\r\nTRANSFER-ENCODING: chunked\r\n\r\nhi" ∧
      Http1.request iob.data = none ∧ ¬ m.Survives (fun _ => 0) chunkedPost := by
  have hnone : Http1.request
      (ascii "POST / HTTP/1.1\r\nTRANSFER-ENCODING: chunked\r\n\r\nhi") = none := by decide +kernel
  refine ⟨Heap.const .zeros, fun _ => 0, _, _, rfl, rfl, by decide +kernel, hnone, ?_⟩
  rintro ⟨iob, meth, hiob, -, hreq⟩
  cases hiob
  cases hnone.symm.trans hreq

end CHttp
