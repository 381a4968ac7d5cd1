import CHttp.Http.Decoder

/-!
# The events of whole messages

`llhttp` reports a message as `message_begin`, the pieces of the url or of the reason phrase, the
pieces of each header field and value, `headers_complete`, the pieces of the body, the trailer
fields of a chunked message (through the same two callbacks as header fields) and
`message_complete`. `MessageEvents` is such a report. `MessageEvents.callbacks_eq` and
`MessageEvents.callbacks_error` compute what the decoder makes of one, from any state in which a
message may begin: it delivers `deliver`, or it aborts, according to `Accepted`.
-/

namespace CHttp

/-- The callbacks for one header line: at least one for the field and one for the value, which
may be empty. -/
structure HeaderFragments where
  field : List (List UInt8)
  value : List (List UInt8)
  field_ne_nil : field ≠ []
  value_ne_nil : value ≠ []

namespace HeaderFragments

/-- The field, put together. -/
def name (h : HeaderFragments) : List UInt8 := h.field.flatten

/-- The value, put together. -/
def text (h : HeaderFragments) : List UInt8 := h.value.flatten

/-- The pair a header line stands for. -/
def pair (h : HeaderFragments) : KVPair := KVPair.new h.name h.text

/-- Both halves are within the limit of the buffers. -/
def Fits (h : HeaderFragments) : Prop :=
  h.name.length ≤ Cbuffer.maxSize ∧ h.text.length ≤ Cbuffer.maxSize

instance (h : HeaderFragments) : Decidable h.Fits := inferInstanceAs (Decidable (_ ∧ _))

def events (h : HeaderFragments) : List LlEvent :=
  h.field.map .headerField ++ h.value.map .headerValue

end HeaderFragments

/-- The callbacks for the first line. -/
inductive StartLine
  | request (url : List (List UInt8))
  | response (statusCode : ℕ) (reason : List (List UInt8))

namespace StartLine

def events : StartLine → List LlEvent
  | request url => url.map .url
  | response code reason => reason.map (.status code)

end StartLine

/-- The callbacks for one message, with the version and method `llhttp` has when the headers are
complete. Pieces of a body are never empty. -/
structure MessageEvents where
  start : StartLine
  httpMajor : ℕ
  httpMinor : ℕ
  method : ℕ
  headers : List HeaderFragments
  body : List (List UInt8)
  trailers : List HeaderFragments
  body_ne_nil : ∀ data ∈ body, data ≠ []

namespace MessageEvents

/-- A message without a body. -/
theorem noBody : ∀ data ∈ ([] : List (List UInt8)), data ≠ [] := List.forall_mem_nil _

def events (m : MessageEvents) : List LlEvent :=
  .messageBegin :: (m.start.events ++ (m.headers.flatMap HeaderFragments.events ++
    (.headersComplete m.httpMajor m.httpMinor m.method :: (m.body.map .body ++
      (m.trailers.flatMap HeaderFragments.events ++ [.messageComplete])))))

end MessageEvents

namespace Decoder

variable (junk : ℕ → Message.Junk)

theorem callbacks_append (s : Decoder × List MessageView) (a b : List LlEvent) :
    callbacks junk s (a ++ b) = callbacks junk s a >>= fun s' => callbacks junk s' b :=
  List.foldlM_append

theorem callbacks_cons (s : Decoder × List MessageView) (ev : LlEvent) (evs : List LlEvent) :
    callbacks junk s (ev :: evs) = callback junk s ev >>= fun s' => callbacks junk s' evs :=
  List.foldlM_cons

private theorem callbacks_nil (s : Decoder × List MessageView) : callbacks junk s [] = .ok s := rfl

/-! ### Pieces -/

/-- Appending piece after piece. -/
def appendAll (s : List UInt8) (pieces : List (List UInt8)) : Except Abort (List UInt8) :=
  pieces.foldlM Cbuffer.appendBytes s

/-- However a text is cut, appending its pieces gives the text, or goes past the limit. -/
theorem appendAll_eq {s : List UInt8} (hs : s.length ≤ Cbuffer.maxSize)
    (pieces : List (List UInt8)) :
    appendAll s pieces =
      if (s ++ pieces.flatten).length ≤ Cbuffer.maxSize then .ok (s ++ pieces.flatten)
      else .error ⟨"BufferStrategy_reallocate_size", "0"⟩ := by
  induction pieces generalizing s with
  | nil =>
    rw [List.flatten_nil, List.append_nil, if_pos hs]
    rfl
  | cons p ps ih =>
    rw [appendAll, List.foldlM_cons, List.flatten_cons]
    by_cases hfit : (s ++ p).length ≤ Cbuffer.maxSize
    · rw [Cbuffer.appendBytes_ok hfit, ← List.append_assoc]
      exact ih hfit
    · rw [Cbuffer.appendBytes_error hs hfit, if_neg]
      · rfl
      · rw [← List.append_assoc, List.length_append]
        omega

private theorem appendAll_nil_ok {pieces : List (List UInt8)}
    (h : pieces.flatten.length ≤ Cbuffer.maxSize) : appendAll [] pieces = .ok pieces.flatten := by
  rw [appendAll_eq (Nat.zero_le _), List.nil_append, if_pos h]

theorem appendAll_nil_error {pieces : List (List UInt8)}
    (h : ¬ pieces.flatten.length ≤ Cbuffer.maxSize) :
    appendAll [] pieces = .error ⟨"BufferStrategy_reallocate_size", "0"⟩ := by
  rw [appendAll_eq (Nat.zero_le _), List.nil_append, if_neg h]

variable {d : Decoder} {v : MessageView} (ds : List MessageView)

/-- The pieces of a url. -/
theorem callbacks_url (hd : d.current = some v) (pieces : List (List UInt8)) :
    callbacks junk (d, ds) (pieces.map .url) = do
      let url ← appendAll d.url pieces
      return ({ d with
        url
        current := some (if pieces = [] then v else { v with isRequest := true }) }, ds) := by
  induction pieces generalizing d v with
  | nil =>
    rw [if_pos rfl, ← hd]
    rfl
  | cons p ps ih =>
    rw [List.map_cons, callbacks_cons, appendAll, List.foldlM_cons, if_neg (List.cons_ne_nil p ps)]
    simp only [callback, urlData, getCurrent, hd]
    cases happ : Cbuffer.appendBytes d.url p with
    | error e => rfl
    | ok url =>
      change callbacks junk (_, ds) (ps.map .url) = _
      rw [ih rfl]
      cases ps <;> rfl

/-- The pieces of a header field after the first one. -/
theorem callbacks_headerField (hd : d.headerState = .field) (pieces : List (List UInt8)) :
    callbacks junk (d, ds) (pieces.map .headerField) = do
      let name ← appendAll d.name pieces
      return ({ d with name }, ds) := by
  induction pieces generalizing d with
  | nil => rfl
  | cons p ps ih =>
    rw [List.map_cons, callbacks_cons, appendAll, List.foldlM_cons]
    simp only [callback, headerFieldData, startField, hd, Except.ok_bind]
    cases happ : Cbuffer.appendBytes d.name p with
    | error e => rfl
    | ok name =>
      simp only [Except.ok_bind, Except.pure_eq_ok]
      rw [ih rfl]
      rfl

/-- The pieces of a header value after the first one. -/
theorem callbacks_headerValue (hd : d.headerState = .value) (pieces : List (List UInt8)) :
    callbacks junk (d, ds) (pieces.map .headerValue) = do
      let value ← appendAll d.value pieces
      return ({ d with value }, ds) := by
  induction pieces generalizing d with
  | nil => rfl
  | cons p ps ih =>
    rw [List.map_cons, callbacks_cons, appendAll, List.foldlM_cons]
    simp only [callback, headerValueData, hd]
    cases happ : Cbuffer.appendBytes d.value p with
    | error e => rfl
    | ok value =>
      simp only [Except.ok_bind, Except.pure_eq_ok]
      rw [ih rfl]
      rfl

/-! ### Header lines -/

/-- The pair waiting in the two buffers: none without a name. -/
def pending (d : Decoder) : HdrList := if d.name = [] then [] else [KVPair.new d.name d.value]

/-- The state after a flush. -/
def flushed (d : Decoder) (v : MessageView) : Decoder :=
  { d with
    current := some { v with headers := v.headers ++ d.pending }
    name := []
    value := if d.name = [] then d.value else [] }

private theorem flushHeader_eq (hd : d.current = some v) (func : String) :
    d.flushHeader func = .ok (d.flushed v) := by
  unfold flushHeader flushed pending
  by_cases hn : d.name = []
  · cases d
    simp_all
  · have hlen : d.name.length ≠ 0 := fun h0 => hn (List.length_eq_zero_iff.mp h0)
    simp only [hlen, ne_eq, not_false_eq_true, if_true, getCurrent, hd, hn, if_false]
    rfl

/-- The first piece of a field flushes the pair before it, whichever message it belongs to. -/
theorem startField_eq (hd : d.current = some v) (hs : d.headerState ≠ .field) :
    d.startField = .ok (d.flushed v) := by
  unfold startField
  cases hst : d.headerState with
  | nothing => exact flushHeader_eq hd _
  | field => exact absurd hst hs
  | value => exact flushHeader_eq hd _

/-- One header line: the pair before it goes to the message, and its own pair waits. -/
theorem callbacks_header (hd : d.current = some v) (hs : d.headerState ≠ .field)
    (h : HeaderFragments) :
    callbacks junk (d, ds) h.events = do
      let name ← appendAll [] h.field
      let value ← appendAll [] h.value
      return ({ d.flushed v with name, value, headerState := .value }, ds) := by
  obtain ⟨f, fs, hf⟩ := List.exists_cons_of_ne_nil h.field_ne_nil
  obtain ⟨g, gs, hg⟩ := List.exists_cons_of_ne_nil h.value_ne_nil
  rw [HeaderFragments.events, callbacks_append, hf, hg, List.map_cons, callbacks_cons]
  simp only [callback, headerFieldData, startField_eq hd hs, Except.ok_bind]
  rw [appendAll, List.foldlM_cons]
  cases happ : Cbuffer.appendBytes (d.flushed v).name f with
  | error e =>
    change Cbuffer.appendBytes [] f = _ at happ
    rw [happ]
    rfl
  | ok n =>
    change Cbuffer.appendBytes [] f = _ at happ
    simp only [happ, Except.ok_bind, Except.pure_eq_ok]
    rw [callbacks_headerField junk ds rfl]
    change (appendAll n fs >>= _) >>= _ = appendAll n fs >>= _
    cases appendAll n fs with
    | error e => rfl
    | ok name =>
      -- the value buffer is cleared by the first piece of a value
      simp only [Except.ok_bind, Except.pure_eq_ok, List.map_cons, callbacks_cons, callback,
        headerValueData]
      rw [appendAll, List.foldlM_cons]
      cases Cbuffer.appendBytes [] g with
      | error e => rfl
      | ok t =>
        simp only [Except.ok_bind]
        rw [callbacks_headerValue junk ds rfl]
        rfl

/-- The pairs of header lines that have a name. -/
def kept (hs : List HeaderFragments) : HdrList :=
  (hs.filter fun h => h.name ≠ []).map HeaderFragments.pair

private theorem kept_append (hs hs' : List HeaderFragments) :
    kept (hs ++ hs') = kept hs ++ kept hs' := by
  simp [kept]

/-- `d'` is `d` after header lines: `hdrs` is in the message, and the rest of the state that a
message carries along is the same. -/
structure HeadersRead (d : Decoder) (v : MessageView) (hdrs : HdrList) (d' : Decoder) : Prop where
  current : d'.current = some { v with headers := hdrs }
  headerState : d'.headerState ≠ .field
  url : d'.url = d.url
  status : d'.status = d.status
  allocated : d'.allocated = d.allocated

/-- One header line that fits. -/
theorem callbacks_header_ok (hd : d.current = some v) (hs : d.headerState ≠ .field)
    {h : HeaderFragments} (hfit : h.Fits) :
    ∃ d', callbacks junk (d, ds) h.events = .ok (d', ds) ∧
      HeadersRead d v (v.headers ++ d.pending) d' ∧ d'.pending = kept [h] := by
  refine ⟨{ d.flushed v with name := h.name, value := h.text, headerState := .value }, ?_,
    ⟨rfl, by simp, rfl, rfl, rfl⟩, ?_⟩
  · rw [callbacks_header junk ds hd hs, appendAll_nil_ok hfit.1, appendAll_nil_ok hfit.2]
    rfl
  · by_cases hn : h.name = []
    · simp [pending, kept, hn]
    · simp [pending, kept, hn, HeaderFragments.pair]

/-- One header line that does not fit. -/
theorem callbacks_header_error (hd : d.current = some v) (hs : d.headerState ≠ .field)
    {h : HeaderFragments} (hfit : ¬ h.Fits) : ∃ e, callbacks junk (d, ds) h.events = .error e := by
  rw [callbacks_header junk ds hd hs]
  by_cases hn : h.name.length ≤ Cbuffer.maxSize
  · have ht : ¬ h.text.length ≤ Cbuffer.maxSize := fun ht => hfit ⟨hn, ht⟩
    exact ⟨_, by rw [appendAll_nil_ok hn, appendAll_nil_error ht]; rfl⟩
  · exact ⟨_, by rw [appendAll_nil_error hn]; rfl⟩

/-- A run of header lines: every pair with a name is in the message or waiting. -/
theorem callbacks_headers_ok (hd : d.current = some v) (hs : d.headerState ≠ .field)
    {hdrs : List HeaderFragments} (hfit : ∀ h ∈ hdrs, h.Fits) :
    ∃ d' l, callbacks junk (d, ds) (hdrs.flatMap HeaderFragments.events) = .ok (d', ds) ∧
      HeadersRead d v l d' ∧ l ++ d'.pending = v.headers ++ d.pending ++ kept hdrs := by
  induction hdrs generalizing d v with
  | nil => exact ⟨d, v.headers, rfl, ⟨hd, hs, rfl, rfl, rfl⟩, by simp [kept]⟩
  | cons h hdrs ih =>
    obtain ⟨d₁, h₁, hr₁, hp₁⟩ :=
      callbacks_header_ok junk ds hd hs (hfit h List.mem_cons_self)
    obtain ⟨d₂, l, h₂, hr₂, hp₂⟩ :=
      ih hr₁.current hr₁.headerState fun h' hh => hfit h' (List.mem_cons_of_mem _ hh)
    refine ⟨d₂, l, ?_, ⟨hr₂.current, hr₂.headerState, hr₂.url.trans hr₁.url,
      hr₂.status.trans hr₁.status, hr₂.allocated.trans hr₁.allocated⟩, ?_⟩
    · rw [List.flatMap_cons, callbacks_append, h₁]
      exact h₂
    · have hkept : kept (h :: hdrs) = kept [h] ++ kept hdrs := kept_append [h] hdrs
      rw [hp₂, hp₁, hkept, List.append_assoc]

/-- A header line past the limit, somewhere in a run of them. -/
theorem callbacks_headers_error (hd : d.current = some v) (hs : d.headerState ≠ .field)
    {hdrs : List HeaderFragments} (hfit : ¬ ∀ h ∈ hdrs, h.Fits) :
    ∃ e, callbacks junk (d, ds) (hdrs.flatMap HeaderFragments.events) = .error e := by
  induction hdrs generalizing d v with
  | nil => exact absurd (by simp) hfit
  | cons h hdrs ih =>
    rw [List.flatMap_cons, callbacks_append]
    by_cases hh : h.Fits
    · obtain ⟨d₁, h₁, hr₁, -⟩ := callbacks_header_ok junk ds hd hs hh
      rw [h₁]
      refine ih hr₁.current hr₁.headerState fun hall => hfit ?_
      intro h' hmem
      rcases List.mem_cons.mp hmem with rfl | hmem
      · exact hh
      · exact hall h' hmem
    · obtain ⟨e, he⟩ := callbacks_header_error junk ds hd hs hh
      exact ⟨e, by rw [he]; rfl⟩

/-- Header lines with nothing waiting before them, as trailers are: the last pair stays behind
in the buffers. -/
theorem callbacks_trailers_ok (hd : d.current = some v) (hs : d.headerState ≠ .field)
    (hp : d.pending = []) {hdrs : List HeaderFragments} (hfit : ∀ h ∈ hdrs, h.Fits) :
    ∃ d', callbacks junk (d, ds) (hdrs.flatMap HeaderFragments.events) = .ok (d', ds) ∧
      HeadersRead d v (v.headers ++ kept hdrs.dropLast) d' := by
  rcases List.eq_nil_or_concat' hdrs with rfl | ⟨init, h, rfl⟩
  · exact ⟨d, rfl, by simp [kept, hd], hs, rfl, rfl, rfl⟩
  · obtain ⟨d₁, l, h₁, hr₁, hl₁⟩ := callbacks_headers_ok junk ds hd hs
      fun h' hh => hfit h' (List.mem_append_left _ hh)
    obtain ⟨d₂, h₂, hr₂, -⟩ := callbacks_header_ok junk ds hr₁.current
      hr₁.headerState (hfit h (by simp))
    refine ⟨d₂, ?_, ⟨?_, hr₂.headerState, hr₂.url.trans hr₁.url, hr₂.status.trans hr₁.status,
      hr₂.allocated.trans hr₁.allocated⟩⟩
    · rw [List.flatMap_append, callbacks_append, h₁, List.flatMap_singleton]
      exact h₂
    · rw [hr₂.current, List.dropLast_concat, hl₁, hp, List.append_nil]

/-! ### First lines, bodies -/

/-- The pieces of a reason phrase after `s`, as `status_data_cb` can take them: each total is
within the limit, and no piece comes after the text (up to a NUL) has become non-empty. -/
def ReasonAccepted (s : List UInt8) : List (List UInt8) → Prop
  | [] => True
  | p :: ps => (s ++ p).length ≤ Cbuffer.maxSize ∧ (ps ≠ [] → cString (s ++ p) = []) ∧
      ReasonAccepted (s ++ p) ps

private theorem length_cString_le (s : List UInt8) : (cString s).length ≤ s.length :=
  (List.takeWhile_prefix _).length_le

/-- The text of a buffer copied to an empty one. -/
theorem appendBytes_cString {s : List UInt8} (hs : s.length ≤ Cbuffer.maxSize) :
    Cbuffer.appendBytes [] (cString s) = .ok (cString s) :=
  Cbuffer.appendBytes_ok (by simpa using (length_cString_le s).trans hs)

theorem setReason_ok (hv : v.reason = []) {s : List UInt8} (hs : s.length ≤ Cbuffer.maxSize) :
    setReason v s = .ok { v with reason := cString s } := by
  simp only [setReason, hv, List.length_nil, decide_true, assertThat_true,
    appendBytes_cString hs]
  rfl

private theorem setTarget_ok (hv : v.target = []) {s : List UInt8}
    (hs : s.length ≤ Cbuffer.maxSize) :
    setTarget v s = .ok { v with target := cString s } := by
  simp only [setTarget, hv, List.length_nil, decide_true, assertThat_true,
    appendBytes_cString hs]
  rfl

/-- The message after the pieces of a reason phrase. -/
def withReason (v : MessageView) (code : ℕ) (s : List UInt8) (pieces : List (List UInt8)) :
    MessageView :=
  if pieces = [] then v
  else { v with isRequest := false, statusCode := code, reason := cString (s ++ pieces.flatten) }

/-- One piece of a reason phrase. -/
theorem statusData_ok (hd : d.current = some v) (hv : v.reason = []) (code : ℕ)
    {p : List UInt8} (hfit : (d.status ++ p).length ≤ Cbuffer.maxSize) :
    d.statusData code p = .ok { d with
      status := d.status ++ p
      current := some { v with
        isRequest := false, statusCode := code, reason := cString (d.status ++ p) } } := by
  have hset := setReason_ok (v := { v with isRequest := false, statusCode := code }) hv hfit
  simp only [statusData, getCurrent, hd, Except.ok_bind, Cbuffer.appendBytes_ok hfit, hset,
    Except.pure_eq_ok]

/-- A piece of a reason phrase on top of one that is set already. -/
theorem statusData_error (hd : d.current = some v) (hv : v.reason ≠ []) (code : ℕ)
    (p : List UInt8) : ∃ e, d.statusData code p = .error e := by
  have hlen : v.reason.length ≠ 0 := fun h0 => hv (List.length_eq_zero_iff.mp h0)
  simp only [statusData, getCurrent, hd, Except.ok_bind]
  cases Cbuffer.appendBytes d.status p with
  | error e => exact ⟨e, rfl⟩
  | ok s => exact ⟨_, by simp only [setReason, hlen, decide_false, assertThat_false]; rfl⟩

/-- The pieces of a reason phrase, taken. -/
theorem callbacks_status_ok (hd : d.current = some v) (hv : v.reason = []) (code : ℕ)
    {pieces : List (List UInt8)} (hacc : ReasonAccepted d.status pieces) :
    callbacks junk (d, ds) (pieces.map (.status code)) = .ok ({ d with
      status := d.status ++ pieces.flatten
      current := some (withReason v code d.status pieces) }, ds) := by
  induction pieces generalizing d v with
  | nil =>
    rw [List.flatten_nil, List.append_nil, withReason, if_pos rfl, ← hd]
    rfl
  | cons p ps ih =>
    obtain ⟨hfit, hempty, hrest⟩ := hacc
    rw [List.map_cons, callbacks_cons]
    simp only [callback, statusData_ok hd hv code hfit, Except.ok_bind, Except.pure_eq_ok]
    rcases List.eq_nil_or_concat' ps with rfl | hps
    · simp [callbacks_nil, withReason]
    · have hne : ps ≠ [] := by
        obtain ⟨l, x, rfl⟩ := hps
        simp
      rw [ih rfl (hempty hne) hrest]
      simp [withReason, hne]

/-- A piece too many, or past the limit. -/
theorem callbacks_status_error (hd : d.current = some v) (hv : v.reason = []) (code : ℕ)
    {pieces : List (List UInt8)} (hs : d.status.length ≤ Cbuffer.maxSize)
    (hacc : ¬ ReasonAccepted d.status pieces) :
    ∃ e, callbacks junk (d, ds) (pieces.map (.status code)) = .error e := by
  induction pieces generalizing d v with
  | nil => exact absurd trivial hacc
  | cons p ps ih =>
    rw [List.map_cons, callbacks_cons]
    by_cases hfit : (d.status ++ p).length ≤ Cbuffer.maxSize
    · simp only [callback, statusData_ok hd hv code hfit, Except.ok_bind, Except.pure_eq_ok]
      by_cases hempty : cString (d.status ++ p) = []
      · refine ih rfl hempty hfit fun hrest => hacc ⟨hfit, fun _ => hempty, hrest⟩
      · cases ps with
        | nil => exact absurd ⟨hfit, by simp, trivial⟩ hacc
        | cons q qs =>
          obtain ⟨e, he⟩ := statusData_error (d := { d with
            status := d.status ++ p
            current := some { v with
              isRequest := false, statusCode := code, reason := cString (d.status ++ p) } })
            rfl hempty code q
          refine ⟨e, ?_⟩
          rw [List.map_cons, callbacks_cons]
          simp only [callback, he, Except.error_bind]
    · refine ⟨⟨"BufferStrategy_reallocate_size", "0"⟩, ?_⟩
      simp only [callback, statusData, getCurrent, hd, Except.ok_bind,
        Cbuffer.appendBytes_error hs hfit, Except.error_bind]

/-- `headers_complete`: the waiting pair is flushed, and a message with a url gets its method and
target. -/
theorem headersComplete_ok (hd : d.current = some v) (hv : v.target = [])
    (hurl : d.url.length ≤ Cbuffer.maxSize) (minor method : ℕ) :
    d.headersComplete minor method = .ok { d.flushed v with
      current := some { v with
        headers := v.headers ++ d.pending
        minorVers := minor
        method := if d.url = [] then v.method else method
        target := cString d.url } } := by
  simp only [headersComplete, flushHeader_eq hd, Except.ok_bind, getCurrent, flushed,
    setRequestLine]
  by_cases hu : d.url = []
  · simp only [hu, List.length_nil, if_true, Except.ok_bind, Except.pure_eq_ok, hv]
    rfl
  · have hlen : d.url.length ≠ 0 := fun h0 => hu (List.length_eq_zero_iff.mp h0)
    have hset := setTarget_ok (v := { v with
      headers := v.headers ++ d.pending, minorVers := minor, method := method }) hv hurl
    rw [if_neg hlen, if_neg hu, hset]
    rfl

/-- The pieces of a body. -/
theorem callbacks_body (hd : d.current = some v) {pieces : List (List UInt8)}
    (hne : ∀ data ∈ pieces, data ≠ []) :
    callbacks junk (d, ds) (pieces.map .body) =
      .ok ({ d with current := some { v with body := v.body ++ pieces.flatten } }, ds) := by
  induction pieces generalizing d v with
  | nil =>
    rw [List.flatten_nil, List.append_nil, ← hd]
    rfl
  | cons p ps ih =>
    rw [List.map_cons, callbacks_cons]
    simp only [callback, bodyData, getCurrent, hd, extendBody, hne p List.mem_cons_self, ne_eq,
      not_false_eq_true, decide_true, assertThat_true, Except.ok_bind, Except.pure_eq_ok]
    rw [ih rfl fun q hq => hne q (List.mem_cons_of_mem _ hq)]
    simp

end Decoder

/-! ### A whole message -/

namespace StartLine

/-- The url, put together; a response has none. -/
def url : StartLine → List UInt8
  | request url => url.flatten
  | response _ _ => []

/-- The first line goes through: a url is within the limit, and no piece of a reason phrase comes
after one with text in it. -/
def Accepted : StartLine → Prop
  | request url => url.flatten.length ≤ Cbuffer.maxSize
  | response _ reason => Decoder.ReasonAccepted [] reason

/-- A fresh message after its first line. -/
def view (j : Message.Junk) : StartLine → MessageView
  | request url =>
    if url = [] then Decoder.freshView j else { Decoder.freshView j with isRequest := true }
  | response code reason => Decoder.withReason (Decoder.freshView j) code [] reason

theorem url_length_le {start : StartLine} (h : start.Accepted) :
    start.url.length ≤ Cbuffer.maxSize := by
  cases start with
  | request url => exact h
  | response code reason => exact Nat.zero_le _

/-- What the first line does not touch is as in a fresh message. -/
theorem view_unset (j : Message.Junk) (start : StartLine) :
    (start.view j).target = [] ∧ (start.view j).headers = [] ∧ (start.view j).body = [] ∧
      (start.view j).method = j.method := by
  cases start with
  | request url =>
    simp only [view]
    split <;> exact ⟨rfl, rfl, rfl, rfl⟩
  | response code reason =>
    simp only [view, Decoder.withReason]
    split <;> exact ⟨rfl, rfl, rfl, rfl⟩

variable (junk : ℕ → Message.Junk) {d : Decoder} {j : Message.Junk} (ds : List MessageView)

/-- A first line that goes through. -/
theorem callbacks_ok (hd : d.current = some (Decoder.freshView j)) (hu : d.url = [])
    (hst : d.status = []) {start : StartLine} (h : start.Accepted) :
    ∃ d', Decoder.callbacks junk (d, ds) start.events = .ok (d', ds) ∧
      d'.current = some (start.view j) ∧ d'.url = start.url ∧ d'.headerState = d.headerState ∧
      d'.name = d.name ∧ d'.allocated = d.allocated := by
  cases start with
  | request url =>
    refine ⟨{ d with url := url.flatten, current := some ((request url).view j) }, ?_, rfl, rfl,
      rfl, rfl, rfl⟩
    rw [events, Decoder.callbacks_url junk ds hd, hu, Decoder.appendAll_nil_ok h]
    rfl
  | response code reason =>
    have hacc : Decoder.ReasonAccepted d.status reason := hst ▸ h
    refine ⟨_, Decoder.callbacks_status_ok junk ds hd rfl code hacc, ?_, hu, rfl, rfl, rfl⟩
    rw [hst]
    rfl

/-- A first line that does not. -/
theorem callbacks_error (hd : d.current = some (Decoder.freshView j)) (hu : d.url = [])
    (hst : d.status = []) {start : StartLine} (h : ¬ start.Accepted) :
    ∃ e, Decoder.callbacks junk (d, ds) start.events = .error e := by
  cases start with
  | request url =>
    rw [events, Decoder.callbacks_url junk ds hd, hu, Decoder.appendAll_nil_error h]
    exact ⟨_, rfl⟩
  | response code reason =>
    exact Decoder.callbacks_status_error junk ds hd rfl code (by simp [hst]) (hst ▸ h)

end StartLine

namespace MessageEvents

/-- The message goes through the callbacks: its first line does, and every header and trailer
line is within the limit. -/
structure Accepted (m : MessageEvents) : Prop where
  start : m.start.Accepted
  headers : ∀ h ∈ m.headers, h.Fits
  trailers : ∀ h ∈ m.trailers, h.Fits

/-- The message delivered for it, when `Message_new` found `j` in the block. A header line
without a name is dropped, and so is the last trailer. -/
def deliver (m : MessageEvents) (j : Message.Junk) : MessageView :=
  { m.start.view j with
    headers := Decoder.kept m.headers ++ Decoder.kept m.trailers.dropLast
    minorVers := m.httpMinor
    method := if m.start.url = [] then j.method else m.method
    target := cString m.start.url
    body := m.body.flatten }

variable (junk : ℕ → Message.Junk) {d : Decoder} (ds : List MessageView)

/-- The state after `message_begin`. -/
theorem callbacks_begin (evs : List LlEvent) :
    Decoder.callbacks junk (d, ds) (.messageBegin :: evs) =
      Decoder.callbacks junk (d.messageBegin junk, ds) evs := rfl

/-- The state before the trailers of `m`, when its first line and headers left `d` with the
message `v`. -/
def completed (m : MessageEvents) (d : Decoder) (v : MessageView) : Decoder :=
  { d.flushed v with
    current := some { v with
      headers := v.headers ++ d.pending
      minorVers := m.httpMinor
      method := if d.url = [] then v.method else m.method
      target := cString d.url
      body := v.body ++ m.body.flatten } }

/-- `headers_complete` and the body. -/
theorem callbacks_rest (m : MessageEvents) {v : MessageView} (hd : d.current = some v)
    (hv : v.target = []) (hu : d.url.length ≤ Cbuffer.maxSize) (evs : List LlEvent) :
    Decoder.callbacks junk (d, ds)
        (.headersComplete m.httpMajor m.httpMinor m.method :: (m.body.map .body ++ evs)) =
      Decoder.callbacks junk (m.completed d v, ds) evs := by
  rw [Decoder.callbacks_cons]
  simp only [Decoder.callback, Decoder.headersComplete_ok hd hv hu, Except.ok_bind,
    Except.pure_eq_ok]
  rw [Decoder.callbacks_append, Decoder.callbacks_body junk ds rfl m.body_ne_nil]
  rfl

/-- **A message that goes through**, from any state in which no field is being read. -/
theorem callbacks_ok (hs : d.headerState ≠ .field) {m : MessageEvents} (h : m.Accepted) :
    ∃ d', Decoder.callbacks junk (d, ds) m.events =
        .ok (d', ds ++ [m.deliver (junk d.allocated)]) ∧
      d'.headerState ≠ .field ∧ d'.allocated = d.allocated + 2 := by
  obtain ⟨htarget, hheaders, hbody, hmethod⟩ := m.start.view_unset (junk d.allocated)
  obtain ⟨d₁, h₁, hc₁, hu₁, hs₁, hn₁, ha₁⟩ := StartLine.callbacks_ok junk ds
    (d := d.messageBegin junk) rfl rfl rfl h.start
  have hp₁ : d₁.pending = [] := if_pos hn₁
  obtain ⟨d₂, l, h₂, hr₂, hl₂⟩ :=
    Decoder.callbacks_headers_ok junk ds hc₁ (hs₁ ▸ hs) h.headers
  rw [hheaders, hp₁, List.nil_append, List.nil_append] at hl₂
  have hu₂ : d₂.url = m.start.url := hr₂.url.trans hu₁
  have hle : d₂.url.length ≤ Cbuffer.maxSize := hu₂ ▸ StartLine.url_length_le h.start
  obtain ⟨d₃, h₃, hr₃⟩ := Decoder.callbacks_trailers_ok junk ds
    (d := m.completed d₂ { m.start.view (junk d.allocated) with headers := l }) rfl
    hr₂.headerState (if_pos rfl) h.trailers
  refine ⟨d₃.newMessage junk, ?_, hr₃.headerState, ?_⟩
  · rw [events, callbacks_begin, Decoder.callbacks_append, h₁, Except.ok_bind,
      Decoder.callbacks_append, h₂, Except.ok_bind,
      callbacks_rest junk ds m hr₂.current htarget hle, Decoder.callbacks_append, h₃,
      Except.ok_bind]
    simp only [Decoder.callbacks_cons, Decoder.callback, Decoder.messageComplete,
      Decoder.getCurrent, hr₃.current, Except.ok_bind, Except.pure_eq_ok, Decoder.callbacks_nil]
    rw [deliver, hl₂, hu₂, hbody, hmethod]
    rfl
  · change d₃.allocated + 1 = _
    rw [hr₃.allocated]
    change d₂.allocated + 1 = _
    rw [hr₂.allocated, ha₁]
    rfl

/-- A message that does not. -/
theorem callbacks_error (hs : d.headerState ≠ .field) {m : MessageEvents} (h : ¬ m.Accepted) :
    ∃ e, Decoder.callbacks junk (d, ds) m.events = .error e := by
  rw [events, callbacks_begin, Decoder.callbacks_append]
  by_cases hstart : m.start.Accepted
  · obtain ⟨d₁, h₁, hc₁, hu₁, hs₁, -⟩ := StartLine.callbacks_ok junk ds
      (d := d.messageBegin junk) rfl rfl rfl hstart
    rw [h₁, Except.ok_bind, Decoder.callbacks_append]
    by_cases hheaders : ∀ h ∈ m.headers, h.Fits
    · obtain ⟨d₂, l, h₂, hr₂, -⟩ :=
        Decoder.callbacks_headers_ok junk ds hc₁ (hs₁ ▸ hs) hheaders
      have hle : d₂.url.length ≤ Cbuffer.maxSize :=
        (hr₂.url.trans hu₁) ▸ StartLine.url_length_le hstart
      rw [h₂, Except.ok_bind,
        callbacks_rest junk ds m hr₂.current (m.start.view_unset _).1 hle,
        Decoder.callbacks_append]
      obtain ⟨e, he⟩ := Decoder.callbacks_headers_error junk ds
        (d := m.completed d₂ { m.start.view (junk d.allocated) with headers := l }) rfl
        hr₂.headerState fun htrailers => h ⟨hstart, hheaders, htrailers⟩
      exact ⟨e, by rw [he]; rfl⟩
    · obtain ⟨e, he⟩ := Decoder.callbacks_headers_error junk ds hc₁ (hs₁ ▸ hs) hheaders
      exact ⟨e, by rw [he]; rfl⟩
  · obtain ⟨e, he⟩ := StartLine.callbacks_error junk ds (d := d.messageBegin junk) rfl rfl rfl
      hstart
    exact ⟨e, by rw [he]; rfl⟩

end MessageEvents

end CHttp
