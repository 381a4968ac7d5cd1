import CHttp.Http.Events

/-!
# Parsing does not depend on fragmentation, and where it does

Whole streams of messages through the parser. The stream is a list of messages with every text cut
into pieces in any way; the reference for a message is put together from the texts alone, so a
stream whose messages equal their references is parsed the same however it is cut. Each of the three
main results is an equivalence: the parser delivers the reference, whatever its memory held before,
exactly for the streams described on the right.

* `requests_reference_iff`: requests need a non-empty url and non-empty field names.
* `responses_reference_iff`: responses need their reason phrase in one non-empty piece besides.
* `headers_complete_iff`: no header line is lost exactly when there are no trailers (the last one
  is never flushed) and no line without a name, and the message goes through at all.
-/

namespace CHttp

namespace MessageEvents

/-- The messages delivered for a stream, the first one's block being number `n`. Every message
takes two blocks: one when it begins and one when it is complete. -/
def deliverAll (junk : ℕ → Message.Junk) : ℕ → List MessageEvents → List MessageView
  | _, [] => []
  | n, m :: ms => m.deliver (junk n) :: deliverAll junk (n + 2) ms

variable (junk : ℕ → Message.Junk)

/-- A stream that goes through. -/
theorem callbacks_all_ok {d : Decoder} (hs : d.headerState ≠ .field) (ds : List MessageView)
    {msgs : List MessageEvents} (h : ∀ m ∈ msgs, m.Accepted) :
    ∃ d', Decoder.callbacks junk (d, ds) (msgs.flatMap events) =
      .ok (d', ds ++ deliverAll junk d.allocated msgs) := by
  induction msgs generalizing d ds with
  | nil => exact ⟨d, by rw [deliverAll, List.append_nil]; rfl⟩
  | cons m ms ih =>
    obtain ⟨d₁, h₁, hs₁, ha₁⟩ := callbacks_ok junk ds hs (h m List.mem_cons_self)
    obtain ⟨d₂, h₂⟩ := ih hs₁ (ds ++ [m.deliver (junk d.allocated)])
      fun m' hm => h m' (List.mem_cons_of_mem _ hm)
    refine ⟨d₂, ?_⟩
    rw [List.flatMap_cons, Decoder.callbacks_append, h₁, Except.ok_bind, h₂, ha₁, deliverAll,
      List.append_assoc, List.singleton_append]

/-- A stream with a message that does not. -/
theorem callbacks_all_error {d : Decoder} (hs : d.headerState ≠ .field) (ds : List MessageView)
    {msgs : List MessageEvents} (h : ¬ ∀ m ∈ msgs, m.Accepted) :
    ∃ e, Decoder.callbacks junk (d, ds) (msgs.flatMap events) = .error e := by
  induction msgs generalizing d ds with
  | nil => exact absurd (by simp) h
  | cons m ms ih =>
    rw [List.flatMap_cons, Decoder.callbacks_append]
    by_cases hm : m.Accepted
    · obtain ⟨d₁, h₁, hs₁, -⟩ := callbacks_ok junk ds hs hm
      rw [h₁, Except.ok_bind]
      exact ih hs₁ _ fun hall => h (List.forall_mem_cons.mpr ⟨hm, hall⟩)
    · obtain ⟨e, he⟩ := callbacks_error junk ds hs hm
      exact ⟨e, by rw [he]; rfl⟩

end MessageEvents

namespace HttpParser

/-- The messages a new parser hands to its handler for a sequence of events. -/
def delivered (heap : Heap) (buf : ByteMemory) (evs : List LlEvent) :
    Except Abort (List Message) := do
  return (← callbacks collect (new heap buf, []) evs).2

/-- The code, on a stream that goes through. -/
theorem delivered_ok (heap : Heap) (buf : ByteMemory) {msgs : List MessageEvents}
    (h : ∀ m ∈ msgs, m.Accepted) :
    ∃ ds, delivered heap buf (msgs.flatMap MessageEvents.events) = .ok ds ∧
      ds.map Message.view = MessageEvents.deliverAll heap.message 1 msgs := by
  obtain ⟨d, hd⟩ := MessageEvents.callbacks_all_ok heap.message (d := Decoder.new) (by decide) [] h
  have hrel := callbacks_rel (s := (new heap buf, [])) (t := (Decoder.new, []))
    ⟨new_rep heap buf, rfl⟩ (msgs.flatMap MessageEvents.events)
  obtain ⟨⟨p, ds⟩, hp, -, hview⟩ := hrel.exists_ok hd
  exact ⟨ds, by rw [delivered, hp]; rfl, hview⟩

/-- The code, on a stream that does not. -/
theorem delivered_error (heap : Heap) (buf : ByteMemory) {msgs : List MessageEvents}
    (h : ¬ ∀ m ∈ msgs, m.Accepted) :
    ∃ e, delivered heap buf (msgs.flatMap MessageEvents.events) = .error e := by
  obtain ⟨e, he⟩ :=
    MessageEvents.callbacks_all_error heap.message (d := Decoder.new) (by decide) [] h
  have hrel := callbacks_rel (s := (new heap buf, [])) (t := (Decoder.new, []))
    ⟨new_rep heap buf, rfl⟩ (msgs.flatMap MessageEvents.events)
  exact ⟨e, by rw [delivered, hrel.eq_error he]; rfl⟩

private theorem deliverAll_const (j : Message.Junk) (n : ℕ) (msgs : List MessageEvents) :
    MessageEvents.deliverAll (fun _ => j) n msgs = msgs.map (·.deliver j) := by
  induction msgs generalizing n with
  | nil => rfl
  | cons m ms ih => rw [MessageEvents.deliverAll, ih, List.map_cons]

private theorem map_deliverAll {ι β : Type} {ev : ι → MessageEvents} {f : MessageView → β}
    {r : ι → β}
    {msgs : List ι} (h : ∀ m ∈ msgs, ∀ j, f ((ev m).deliver j) = r m)
    (junk : ℕ → Message.Junk) (n : ℕ) :
    (MessageEvents.deliverAll junk n (msgs.map ev)).map f = msgs.map r := by
  induction msgs generalizing n with
  | nil => rfl
  | cons m ms ih =>
    rw [List.map_cons, MessageEvents.deliverAll, List.map_cons, List.map_cons,
      h m List.mem_cons_self, ih fun m' hm => h m' (List.mem_cons_of_mem _ hm)]

/-- **From messages to streams.** Whatever memory held before, the stream goes through and what
readers see of the messages (`f`) is the reference, exactly if each message goes through and is
delivered as its reference from every block. -/
theorem delivered_iff {ι β : Type} (ev : ι → MessageEvents) (f : MessageView → β) (r : ι → β)
    (msgs : List ι) :
    (∀ heap buf, ∃ ds, delivered heap buf (msgs.flatMap fun m => (ev m).events) = .ok ds ∧
        ds.map (fun m => f m.view) = msgs.map r) ↔
      ∀ m ∈ msgs, (ev m).Accepted ∧ ∀ j, f ((ev m).deliver j) = r m := by
  have hevs : (msgs.flatMap fun m => (ev m).events) = (msgs.map ev).flatMap MessageEvents.events :=
    (List.flatMap_map ..).symm
  rw [hevs]
  constructor
  · intro h
    have hacc : ∀ m ∈ msgs.map ev, m.Accepted := by
      by_contra hno
      let j := Message.Junk.zeros
      obtain ⟨ds, hds, -⟩ := h (Heap.const j) fun _ => 0
      obtain ⟨e, he⟩ := delivered_error (Heap.const j) (fun _ => 0) hno
      rw [hds] at he
      cases he
    intro m hm
    refine ⟨hacc (ev m) (List.mem_map_of_mem hm), fun j => ?_⟩
    -- a heap that holds `j` everywhere delivers every message from `j`
    obtain ⟨ds, hds, hf⟩ := h (Heap.const j) fun _ => 0
    obtain ⟨ds', hds', hview⟩ := delivered_ok (Heap.const j) (fun _ => 0) hacc
    rw [hds] at hds'
    cases hds'
    rw [Heap.const, deliverAll_const, List.map_map] at hview
    have hmap : msgs.map (fun m => f ((ev m).deliver j)) = msgs.map r := by
      have := congrArg (List.map f) hview
      rw [List.map_map, List.map_map] at this
      exact this.symm.trans hf
    exact List.map_inj_left.mp hmap m hm
  · intro h heap buf
    have hacc : ∀ m ∈ msgs.map ev, m.Accepted := by
      intro m' hm'
      obtain ⟨m, hm, rfl⟩ := List.mem_map.mp hm'
      exact (h m hm).1
    obtain ⟨ds, hds, hview⟩ := delivered_ok heap buf hacc
    refine ⟨ds, hds, ?_⟩
    have hmap := map_deliverAll (fun m hm => (h m hm).2) heap.message 1
    rw [← hmap, ← hview, List.map_map]
    rfl

end HttpParser

/-! ### Requests -/

/-- A text `llhttp` may report: shorter than the limit, without a NUL. -/
def Clean (s : List UInt8) : Prop := s.length < Cbuffer.maxSize ∧ 0 ∉ s

instance (s : List UInt8) : Decidable (Clean s) := inferInstanceAs (Decidable (_ ∧ _))

/-- The report of a request. -/
structure RequestEvents where
  method : ℕ
  httpMajor : ℕ
  httpMinor : ℕ
  url : List (List UInt8)
  headers : List HeaderFragments
  body : List (List UInt8)
  url_clean : Clean url.flatten
  headers_clean : ∀ h ∈ headers, Clean h.name ∧ Clean h.text
  body_ne_nil : ∀ data ∈ body, data ≠ []

/-- What is specified of a request. -/
structure RequestView where
  isRequest : Bool
  method : ℕ
  target : List UInt8
  minorVers : ℕ
  headers : HdrList
  body : List UInt8
  deriving DecidableEq, Repr

def MessageView.asRequest (v : MessageView) : RequestView :=
  ⟨v.isRequest, v.method, v.target, v.minorVers, v.headers, v.body⟩

namespace RequestEvents

def toEvents (m : RequestEvents) : MessageEvents where
  start := .request m.url
  httpMajor := m.httpMajor
  httpMinor := m.httpMinor
  method := m.method
  headers := m.headers
  body := m.body
  trailers := []
  body_ne_nil := m.body_ne_nil

def events (m : RequestEvents) : List LlEvent := m.toEvents.events

/-- The reference: it knows the texts, not the pieces. -/
def reference (m : RequestEvents) : RequestView where
  isRequest := true
  method := m.method
  target := m.url.flatten
  minorVers := m.httpMinor
  headers := m.headers.map HeaderFragments.pair
  body := m.body.flatten

theorem accepted (m : RequestEvents) : m.toEvents.Accepted where
  start := m.url_clean.1.le
  headers h hh := ⟨(m.headers_clean h hh).1.1.le, (m.headers_clean h hh).2.1.le⟩
  trailers := by simp [toEvents]

end RequestEvents

@[simp]
theorem Decoder.kept_nil : Decoder.kept [] = [] := rfl

/-- No header line is dropped exactly when every one has a name. -/
theorem Decoder.kept_eq_iff (hs : List HeaderFragments) :
    Decoder.kept hs = hs.map HeaderFragments.pair ↔ ∀ h ∈ hs, h.name ≠ [] := by
  constructor
  · intro heq h hh
    have hlen := congrArg List.length heq
    rw [Decoder.kept, List.length_map, List.length_map] at hlen
    simpa using List.length_filter_eq_length_iff.mp hlen h hh
  · intro hall
    rw [Decoder.kept, List.filter_eq_self.mpr fun h hh => by simpa using hall h hh]

/-- One request is delivered as its reference, from every block, exactly if it has a url and
all its field names have text. -/
theorem RequestEvents.deliver_eq_iff (m : RequestEvents) :
    (∀ j, (m.toEvents.deliver j).asRequest = m.reference) ↔
      m.url.flatten ≠ [] ∧ ∀ h ∈ m.headers, h.name ≠ [] := by
  have htarget : cString m.url.flatten = m.url.flatten := cString_eq_self.mpr m.url_clean.2
  constructor
  · intro h
    constructor
    · intro hurl
      -- without a url the method is the one the block held
      have := congrArg RequestView.method
        (h ⟨false, 0, m.method + 1, fun _ => 0, fun _ => 0⟩)
      simp [MessageEvents.deliver, MessageView.asRequest, reference, toEvents, StartLine.url,
        hurl] at this
    · have := congrArg RequestView.headers (h .zeros)
      rw [← Decoder.kept_eq_iff]
      simpa [MessageEvents.deliver, MessageView.asRequest, reference, toEvents] using this
  · rintro ⟨hurl, hnames⟩ j
    have hne : m.url ≠ [] := fun h0 => hurl (by simp [h0])
    have hkept := (Decoder.kept_eq_iff m.headers).mpr hnames
    simp [MessageEvents.deliver, MessageView.asRequest, reference, toEvents, StartLine.url,
      StartLine.view, hurl, hne, hkept, htarget]

/-- **Requests.** For every stream of requests cut in any way: whatever memory held before, the
parser does not abort and delivers the references in order, exactly if every request has a
non-empty url and no header line has an empty field name. -/
theorem requests_reference_iff (msgs : List RequestEvents) :
    (∀ heap buf, ∃ ds, HttpParser.delivered heap buf (msgs.flatMap (·.events)) = .ok ds ∧
        ds.map (fun m => m.view.asRequest) = msgs.map (·.reference)) ↔
      ∀ m ∈ msgs, m.url.flatten ≠ [] ∧ ∀ h ∈ m.headers, h.name ≠ [] := by
  refine (HttpParser.delivered_iff RequestEvents.toEvents MessageView.asRequest
    RequestEvents.reference msgs).trans (forall₂_congr fun m _ => ?_)
  rw [m.deliver_eq_iff, and_iff_right m.accepted]

/-- `GET / HTTP/1.1` with the header line `: x`, which has a value and an empty name. -/
def namelessHeader : RequestEvents where
  method := 1
  httpMajor := 1
  httpMinor := 1
  url := [ascii "/"]
  headers := [⟨[[]], [ascii "x"], by simp, by simp⟩]
  body := []
  url_clean := by decide
  headers_clean := by
    intro h hh
    rw [List.mem_singleton.mp hh]
    decide
  body_ne_nil := MessageEvents.noBody

/-- The header line without a name is not in the message delivered. -/
theorem nameless_header_dropped :
    ∃ heap buf ds, HttpParser.delivered heap buf namelessHeader.events = .ok ds ∧
      ds.map (fun m => m.view.headers) = [[]] ∧
      ds.map (fun m => m.view.asRequest) ≠ [namelessHeader.reference] := by
  refine ⟨Heap.const .zeros, fun _ => 0, _, rfl, by decide,
    by decide⟩

/-! ### Responses -/

/-- The report of a response. -/
structure ResponseEvents where
  statusCode : ℕ
  httpMajor : ℕ
  httpMinor : ℕ
  method : ℕ
  reason : List (List UInt8)
  headers : List HeaderFragments
  body : List (List UInt8)
  body_ne_nil : ∀ data ∈ body, data ≠ []

/-- What is specified of a response. -/
structure ResponseView where
  isRequest : Bool
  statusCode : ℕ
  reason : List UInt8
  minorVers : ℕ
  headers : HdrList
  body : List UInt8
  deriving DecidableEq, Repr

def MessageView.asResponse (v : MessageView) : ResponseView :=
  ⟨v.isRequest, v.statusCode, v.reason, v.minorVers, v.headers, v.body⟩

namespace ResponseEvents

def toEvents (m : ResponseEvents) : MessageEvents where
  start := .response m.statusCode m.reason
  httpMajor := m.httpMajor
  httpMinor := m.httpMinor
  method := m.method
  headers := m.headers
  body := m.body
  trailers := []
  body_ne_nil := m.body_ne_nil

def events (m : ResponseEvents) : List LlEvent := m.toEvents.events

/-- The reference: it knows the texts, not the pieces. -/
def reference (m : ResponseEvents) : ResponseView where
  isRequest := false
  statusCode := m.statusCode
  reason := m.reason.flatten
  minorVers := m.httpMinor
  headers := m.headers.map HeaderFragments.pair
  body := m.body.flatten

/-- The reason phrase is reported, all of it in the last of its callbacks, without a NUL and
within the limit. -/
structure WholeReason (m : ResponseEvents) : Prop where
  reported : m.reason ≠ []
  last : ∀ p ∈ m.reason.dropLast, p = []
  clean : 0 ∉ m.reason.flatten
  fits : m.reason.flatten.length ≤ Cbuffer.maxSize

end ResponseEvents

/-- A text without a NUL is empty when its C string is. -/
theorem eq_nil_of_cString {s : List UInt8} (h0 : 0 ∉ s) (h : cString s = []) : s = [] := by
  rw [← cString_eq_self.mpr h0, h]

/-- Pieces of a reason phrase without a NUL go through exactly if all the text is in the last
one and within the limit. -/
theorem Decoder.reasonAccepted_iff {pieces : List (List UInt8)} (h0 : 0 ∉ pieces.flatten) :
    Decoder.ReasonAccepted [] pieces ↔
      (∀ p ∈ pieces.dropLast, p = []) ∧ pieces.flatten.length ≤ Cbuffer.maxSize := by
  induction pieces with
  | nil => simp [Decoder.ReasonAccepted]
  | cons p ps ih =>
    rw [List.flatten_cons, List.mem_append, not_or] at h0
    rcases List.eq_nil_or_concat' ps with rfl | ⟨init, q, hps⟩
    · simp [Decoder.ReasonAccepted]
    · have hne : ps ≠ [] := by simp [hps]
      rw [List.dropLast_cons_of_ne_nil hne, List.forall_mem_cons, List.flatten_cons]
      simp only [Decoder.ReasonAccepted, List.nil_append]
      constructor
      · rintro ⟨-, hempty, hrest⟩
        obtain rfl := eq_nil_of_cString h0.1 (hempty hne)
        obtain ⟨hall, hlen⟩ := (ih h0.2).mp hrest
        exact ⟨⟨rfl, hall⟩, by simpa using hlen⟩
      · rintro ⟨⟨rfl, hall⟩, hlen⟩
        exact ⟨by simp, fun _ => rfl, (ih h0.2).mpr ⟨hall, by simpa using hlen⟩⟩

namespace ResponseEvents

private theorem accepted_iff (m : ResponseEvents) :
    m.toEvents.Accepted ↔ Decoder.ReasonAccepted [] m.reason ∧ ∀ h ∈ m.headers, h.Fits :=
  ⟨fun h => ⟨h.start, h.headers⟩, fun h => ⟨h.1, h.2, by simp [toEvents]⟩⟩

/-- One response goes through and is delivered as its reference, from every block, exactly if its
reason phrase is whole and its header lines have names and are within the limit. -/
theorem deliver_eq_iff (m : ResponseEvents) :
    (m.toEvents.Accepted ∧ ∀ j, (m.toEvents.deliver j).asResponse = m.reference) ↔
      m.WholeReason ∧ ∀ h ∈ m.headers, h.name ≠ [] ∧ h.Fits := by
  rw [accepted_iff]
  constructor
  · rintro ⟨⟨hreason, hfits⟩, h⟩
    have hrep : m.reason ≠ [] := by
      intro h0
      -- without a status callback `is_request` is what the block held
      have := congrArg ResponseView.isRequest (h ⟨true, 0, 0, fun _ => 0, fun _ => 0⟩)
      simp [MessageEvents.deliver, MessageView.asResponse, reference, toEvents, StartLine.view,
        Decoder.withReason, h0, Decoder.freshView] at this
    have hj := h .zeros
    have hclean : 0 ∉ m.reason.flatten := by
      have := congrArg ResponseView.reason hj
      simp only [MessageEvents.deliver, MessageView.asResponse, reference, toEvents,
        StartLine.view, Decoder.withReason, hrep, if_false, List.nil_append] at this
      exact cString_eq_self.mp this
    have hnames : ∀ h ∈ m.headers, h.name ≠ [] := by
      have := congrArg ResponseView.headers hj
      rw [← Decoder.kept_eq_iff]
      simpa [MessageEvents.deliver, MessageView.asResponse, reference, toEvents] using this
    obtain ⟨hlast, hlen⟩ := (Decoder.reasonAccepted_iff hclean).mp hreason
    exact ⟨⟨hrep, hlast, hclean, hlen⟩, fun h hh => ⟨hnames h hh, hfits h hh⟩⟩
  · rintro ⟨hw, hh⟩
    refine ⟨⟨(Decoder.reasonAccepted_iff hw.clean).mpr ⟨hw.last, hw.fits⟩,
      fun h hm => (hh h hm).2⟩, fun j => ?_⟩
    have hkept := (Decoder.kept_eq_iff m.headers).mpr fun h hm => (hh h hm).1
    have hstr : cString m.reason.flatten = m.reason.flatten := cString_eq_self.mpr hw.clean
    simp [MessageEvents.deliver, MessageView.asResponse, reference, toEvents, StartLine.view,
      Decoder.withReason, hw.reported, hkept, hstr]

end ResponseEvents

/-- **Responses.** For every stream of responses cut in any way: whatever memory held before, the
parser does not abort and delivers the references in order, exactly if every response has its
reason phrase reported whole, and header lines with a name and within the limit. -/
theorem responses_reference_iff (msgs : List ResponseEvents) :
    (∀ heap buf, ∃ ds, HttpParser.delivered heap buf (msgs.flatMap (·.events)) = .ok ds ∧
        ds.map (fun m => m.view.asResponse) = msgs.map (·.reference)) ↔
      ∀ m ∈ msgs, m.WholeReason ∧ ∀ h ∈ m.headers, h.name ≠ [] ∧ h.Fits :=
  (HttpParser.delivered_iff ResponseEvents.toEvents MessageView.asResponse
    ResponseEvents.reference msgs).trans (forall₂_congr fun m _ => m.deliver_eq_iff)

/-- `HTTP/1.1 200 OK` with the reason phrase cut in two. -/
def splitReason : ResponseEvents where
  statusCode := 200
  httpMajor := 1
  httpMinor := 1
  method := 0
  reason := [ascii "O", ascii "K"]
  headers := []
  body := []
  body_ne_nil := MessageEvents.noBody

/-- `HTTP/1.1 200` without a reason phrase, for which there is no status callback. -/
def missingReason : ResponseEvents := { splitReason with reason := [] }

/-- A reason phrase in two pieces aborts the process; without one, a message whose block held
`true` is delivered as a request. -/
theorem reason_split_aborts :
    (∀ heap buf, HttpParser.delivered heap buf splitReason.events =
      .error ⟨"Message_set_reason_cbuffer",
        "(this->reason != NULL) && (Cbuffer_size(this->reason) == 0)"⟩) ∧
    ∃ heap buf ds, HttpParser.delivered heap buf missingReason.events = .ok ds ∧
      ds.map (fun m => m.view.isRequest) = [true] := by
  refine ⟨fun heap buf => rfl, Heap.const ⟨true, 0, 0, fun _ => 0, fun _ => 0⟩,
    fun _ => 0, _, rfl, rfl⟩

/-! ### Header lines and trailers -/

namespace MessageEvents

/-- Every pair reported between `message_begin` and `message_complete`, in order of arrival. -/
def pairs (m : MessageEvents) : HdrList := (m.headers ++ m.trailers).map HeaderFragments.pair

private theorem length_kept_le (hs : List HeaderFragments) :
    (Decoder.kept hs).length ≤ hs.length := by
  rw [Decoder.kept, List.length_map]
  exact List.length_filter_le _ _

/-- One message is delivered with all its pairs exactly if it has no trailers and no line without
a name. -/
theorem deliver_headers_iff (m : MessageEvents) (j : Message.Junk) :
    (m.deliver j).headers = m.pairs ↔ m.trailers = [] ∧ ∀ h ∈ m.headers, h.name ≠ [] := by
  constructor
  · intro h
    have hlen := congrArg List.length h
    simp only [deliver, pairs, List.length_append, List.length_map] at hlen
    have h1 := length_kept_le m.headers
    have h2 := length_kept_le m.trailers.dropLast
    rw [List.length_dropLast] at h2
    have ht : m.trailers = [] := List.length_eq_zero_iff.mp (by omega)
    refine ⟨ht, (Decoder.kept_eq_iff m.headers).mp ?_⟩
    simpa [deliver, pairs, ht] using h
  · rintro ⟨ht, hn⟩
    simp [deliver, pairs, ht, (Decoder.kept_eq_iff m.headers).mpr hn]

end MessageEvents

/-- **Header lines.** For every stream of messages cut in any way: whatever memory held before,
the parser does not abort and every message delivered has all its pairs, once and in order, exactly
if no message has trailers or a header line without a name, and all go through the callbacks. -/
theorem headers_complete_iff (msgs : List MessageEvents) :
    (∀ heap buf, ∃ ds, HttpParser.delivered heap buf (msgs.flatMap (·.events)) = .ok ds ∧
        ds.map (fun m => m.view.headers) = msgs.map (·.pairs)) ↔
      ∀ m ∈ msgs, m.trailers = [] ∧ (∀ h ∈ m.headers, h.name ≠ []) ∧ m.Accepted := by
  refine (HttpParser.delivered_iff id MessageView.headers MessageEvents.pairs msgs).trans
    (forall₂_congr fun m _ => ?_)
  constructor
  · rintro ⟨hacc, h⟩
    obtain ⟨ht, hn⟩ := (m.deliver_headers_iff _).mp (h .zeros)
    exact ⟨ht, hn, hacc⟩
  · rintro ⟨ht, hn, hacc⟩
    exact ⟨hacc, fun j => (m.deliver_headers_iff j).mpr ⟨ht, hn⟩⟩

/-- A chunked request with one trailer field. -/
def withTrailer : MessageEvents where
  start := .request [ascii "/"]
  httpMajor := 1
  httpMinor := 1
  method := 3
  headers := [⟨[ascii "Transfer-Encoding"], [ascii "chunked"], by simp, by simp⟩]
  body := [ascii "x"]
  trailers := [⟨[ascii "Digest"], [ascii "y"], by simp, by simp⟩]
  body_ne_nil := by decide

/-- The last trailer never reaches the message. -/
theorem trailer_lost :
    ∃ heap buf ds, HttpParser.delivered heap buf withTrailer.events = .ok ds ∧
      ds.map (fun m => m.view.headers) = [[⟨ascii "TRANSFER-ENCODING", ascii "chunked"⟩]] ∧
      ds.map (fun m => m.view.headers) ≠ [withTrailer.pairs] :=
  ⟨Heap.const .zeros, fun _ => 0, _, rfl, by decide,
    by decide⟩

end CHttp
