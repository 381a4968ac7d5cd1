import CHttp.Http.Fragmentation
import Mathlib.Data.List.Induction
import Mathlib.Data.List.Infix

/-!
# Texts past the limit

The parser collects each text of a request in a `Cbuffer`, and a `Cbuffer` does not grow past 1 MiB:
`BufferStrategy_reallocate_size` asserts. `llhttp` puts no limit on the texts it reports, and no
callback looks at the total before it appends, so a peer that sends a longer target, header name or
header value ends the process. `callbacks_ok_iff_withinLimit` says that nothing else in a stream of
requests does, wherever the stream breaks off.

A stream of requests is followed with a `Phase`, which knows what `llhttp` may report next.
-/

namespace CHttp

namespace LlEvent

/-- A piece of a url. -/
def urlText : LlEvent → Option (List UInt8)
  | url data => some data
  | _ => none

/-- A piece of a header name. -/
def fieldText : LlEvent → Option (List UInt8)
  | headerField data => some data
  | _ => none

/-- A piece of a header value. -/
def valueText : LlEvent → Option (List UInt8)
  | headerValue data => some data
  | _ => none

/-- The text that is being reported at the end of `evs`: the pieces that `text` picks, since the
last event that is none. -/
def run (text : LlEvent → Option (List UInt8)) (evs : List LlEvent) : List UInt8 :=
  evs.foldl (fun run ev => (text ev).elim [] (run ++ ·)) []

/-- The text that is being reported at the end of `evs` is not longer than a `Cbuffer` can be. -/
def RunFits (evs : List LlEvent) : Prop :=
  (run urlText evs).length ≤ Cbuffer.maxSize ∧ (run fieldText evs).length ≤ Cbuffer.maxSize ∧
    (run valueText evs).length ≤ Cbuffer.maxSize

instance (evs : List LlEvent) : Decidable (RunFits evs) := inferInstanceAs (Decidable (_ ∧ _))

/-- At no point is a text too long. -/
def WithinLimit (evs : List LlEvent) : Prop := ∀ l, l <+: evs → RunFits l

private theorem run_concat (text : LlEvent → Option (List UInt8)) (evs : List LlEvent)
    (ev : LlEvent) :
    run text (evs ++ [ev]) = (text ev).elim [] (run text evs ++ ·) := by
  simp [run]

private theorem withinLimit_concat {evs : List LlEvent} {ev : LlEvent} :
    WithinLimit (evs ++ [ev]) ↔ WithinLimit evs ∧ RunFits (evs ++ [ev]) := by
  constructor
  · intro h
    exact ⟨fun l hl => h l (hl.trans (List.prefix_append _ _)), h _ (List.prefix_refl _)⟩
  · rintro ⟨hevs, hlast⟩ l hl
    rcases List.prefix_concat_iff.mp hl with rfl | hl
    · exact hlast
    · exact hevs l hl

/-- Of the texts, the last event extends at most one. -/
theorem runFits_concat (evs : List LlEvent) (ev : LlEvent) :
    RunFits (evs ++ [ev]) ↔ match ev with
      | .url data => (run urlText evs ++ data).length ≤ Cbuffer.maxSize
      | .headerField data => (run fieldText evs ++ data).length ≤ Cbuffer.maxSize
      | .headerValue data => (run valueText evs ++ data).length ≤ Cbuffer.maxSize
      | _ => True := by
  simp only [RunFits, run_concat]
  cases ev <;> simp [urlText, fieldText, valueText]

end LlEvent

namespace Decoder

variable {d : Decoder} {v : MessageView}

/-- The first piece of a name. -/
theorem headerFieldData_first (hd : d.current = some v) (hs : d.headerState ≠ .field)
    (data : List UInt8) :
    d.headerFieldData data = do
      return { d.flushed v with name := ← Cbuffer.appendBytes [] data, headerState := .field } := by
  rw [headerFieldData, startField_eq hd hs]
  rfl

/-- A further piece of a name. -/
theorem headerFieldData_more (hs : d.headerState = .field) (data : List UInt8) :
    d.headerFieldData data = do
      return { d with name := ← Cbuffer.appendBytes d.name data, headerState := .field } := by
  rw [headerFieldData, startField, hs]
  rfl

end Decoder

/-- Where `llhttp` is in a request: between two, in the request line, in the name or the value of a
header or trailer line, or past the headers. -/
inductive Phase
  | idle
  | line
  | field (trailer : Bool)
  | value (trailer : Bool)
  | body
  deriving DecidableEq

namespace Phase

open LlEvent

/-- What may be reported next, and where that leads. -/
def next : Phase → LlEvent → Option Phase
  | idle, .messageBegin => some line
  | line, .url _ => some line
  | line, .headerField _ => some (field false)
  | line, .headersComplete _ _ _ => some body
  | field trailer, .headerField _ => some (field trailer)
  | field trailer, .headerValue _ => some (value trailer)
  | value trailer, .headerValue _ => some (value trailer)
  | value trailer, .headerField _ => some (field trailer)
  | value false, .headersComplete _ _ _ => some body
  | value true, .messageComplete => some idle
  | body, .body data => if data = [] then none else some body
  | body, .headerField _ => some (field true)
  | body, .messageComplete => some idle
  | _, _ => none

/-- The phase after some events. -/
def after (ph : Phase) (evs : List LlEvent) : Option Phase := evs.foldlM next ph

private theorem after_append (ph : Phase) (evs evs' : List LlEvent) :
    ph.after (evs ++ evs') = (ph.after evs).bind (·.after evs') :=
  List.foldlM_append

private theorem after_cons {ph ph' : Phase} {ev : LlEvent} (h : ph.next ev = some ph')
    (evs : List LlEvent) : ph.after (ev :: evs) = ph'.after evs := by
  simp [after, h]

/-- A header line may begin here, of the headers or of the trailers. -/
def Opens (ph : Phase) (trailer : Bool) : Prop :=
  ∀ data, ph.next (.headerField data) = some (field trailer)

private theorem after_map {ph : Phase} {mk : List UInt8 → LlEvent}
    (h : ∀ data, ph.next (mk data) = some ph)
    (pieces : List (List UInt8)) : ph.after (pieces.map mk) = some ph := by
  induction pieces with
  | nil => rfl
  | cons p ps ih => rw [List.map_cons, after_cons (h p), ih]

/-- One header line. -/
theorem after_header {ph : Phase} {trailer : Bool} (h : ph.Opens trailer) (hf : HeaderFragments) :
    ph.after hf.events = some (value trailer) := by
  obtain ⟨f, fs, hfield⟩ := List.exists_cons_of_ne_nil hf.field_ne_nil
  obtain ⟨g, gs, hvalue⟩ := List.exists_cons_of_ne_nil hf.value_ne_nil
  have hfs : (field trailer).after (fs.map .headerField) = some (field trailer) :=
    after_map (fun _ => rfl) fs
  have hgs : (value trailer).after (gs.map .headerValue) = some (value trailer) :=
    after_map (fun _ => rfl) gs
  rw [HeaderFragments.events, hfield, hvalue, List.map_cons, List.map_cons, List.cons_append,
    after_cons (h f), after_append, hfs, Option.bind_some, after_cons rfl, hgs]

/-- Header lines: none, or the last one's value is the last thing reported. -/
theorem after_headers {ph : Phase} {trailer : Bool} (h : ph.Opens trailer)
    (hdrs : List HeaderFragments) :
    ph.after (hdrs.flatMap HeaderFragments.events) = some ph ∨
      ph.after (hdrs.flatMap HeaderFragments.events) = some (value trailer) := by
  induction hdrs generalizing ph with
  | nil => exact Or.inl rfl
  | cons hf hdrs ih =>
    refine Or.inr ?_
    rw [List.flatMap_cons, after_append, after_header h, Option.bind_some]
    rcases ih (show (value trailer).Opens trailer from fun _ => rfl) with heq | heq
    · exact heq
    · exact heq

/-- A whole request. -/
theorem after_request {m : MessageEvents} {url : List (List UInt8)}
    (hm : m.start = .request url) : idle.after m.events = some idle := by
  have hurl : line.after (url.map .url) = some line := after_map (fun _ => rfl) url
  have hbody : body.after (m.body.map .body) = some body := by
    have hne := m.body_ne_nil
    generalize m.body = pieces at hne
    induction pieces with
    | nil => rfl
    | cons p ps ih =>
      obtain ⟨hp, hps⟩ := List.forall_mem_cons.mp hne
      have hnext : body.next (.body p) = some body := if_neg hp
      rw [List.map_cons, after_cons hnext, ih hps]
  -- the trailers, and the end of the message
  have htail : body.after (m.trailers.flatMap HeaderFragments.events ++ [.messageComplete]) =
      some idle := by
    rw [after_append]
    rcases after_headers (show body.Opens true from fun _ => rfl) m.trailers with heq | heq
    · rw [heq]
      rfl
    · rw [heq]
      rfl
  have hrest : ∀ ph, ph = line ∨ ph = value false →
      ph.after (.headersComplete m.httpMajor m.httpMinor m.method :: (m.body.map .body ++
        (m.trailers.flatMap HeaderFragments.events ++ [.messageComplete]))) = some idle := by
    rintro ph (rfl | rfl)
    · rw [after_cons rfl, after_append, hbody, Option.bind_some, htail]
    · rw [after_cons rfl, after_append, hbody, Option.bind_some, htail]
  rw [MessageEvents.events, hm, StartLine.events, after_cons rfl, after_append, hurl,
    Option.bind_some, after_append]
  rcases after_headers (show line.Opens false from fun _ => rfl) m.headers with heq | heq
  · rw [heq, Option.bind_some, hrest _ (Or.inl rfl)]
  · rw [heq, Option.bind_some, hrest _ (Or.inr rfl)]

/-- Part of a stream of requests. -/
theorem exists_after {rs : List MessageEvents} (hrs : ∀ r ∈ rs, ∃ url, r.start = .request url)
    {evs : List LlEvent} (h : evs <+: rs.flatMap MessageEvents.events) :
    ∃ ph, idle.after evs = some ph := by
  have hwhole : idle.after (rs.flatMap MessageEvents.events) = some idle := by
    clear h
    induction rs with
    | nil => rfl
    | cons r rs ih =>
      obtain ⟨⟨url, hr⟩, hrs⟩ := List.forall_mem_cons.mp hrs
      rw [List.flatMap_cons, after_append, after_request hr, Option.bind_some, ih hrs]
  obtain ⟨tail, htail⟩ := h
  rw [← htail, after_append, Option.bind_eq_some_iff] at hwhole
  obtain ⟨ph, hph, -⟩ := hwhole
  exact ⟨ph, hph⟩

/-! ### What the decoder holds in a phase -/

/-- In the decoder's state `d` after `evs`: there is a message being read, without a target before
the headers are complete, and the text being reported is in its buffer. -/
def Holds (evs : List LlEvent) (d : Decoder) : Phase → Prop
  | idle => d.headerState ≠ .field
  | line => d.headerState ≠ .field ∧ (∃ v, d.current = some v ∧ v.target = []) ∧
      d.url = run urlText evs
  | field trailer => d.headerState = .field ∧
      (∃ v, d.current = some v ∧ (trailer = false → v.target = [])) ∧ d.name = run fieldText evs
  | value trailer => d.headerState = .value ∧
      (∃ v, d.current = some v ∧ (trailer = false → v.target = [])) ∧ d.value = run valueText evs
  | body => d.headerState ≠ .field ∧ ∃ v, d.current = some v

/-- A text is over once something else is reported. -/
theorem run_eq_nil {text : LlEvent → Option (List UInt8)} {evs : List LlEvent} {ph : Phase}
    (h : idle.after evs = some ph) (htext : ∀ ph' ev, next ph' ev = some ph → text ev = none) :
    run text evs = [] := by
  rcases List.eq_nil_or_concat' evs with rfl | ⟨evs, ev, rfl⟩
  · rfl
  · rw [after_append, Option.bind_eq_some_iff] at h
    obtain ⟨ph', -, hlast⟩ := h
    have hnext : ph'.next ev = some ph := by simpa [after] using hlast
    rw [run_concat, htext ph' ev hnext]
    rfl

/-- A name is being reported only in its phase. -/
theorem run_fieldText_eq_nil {evs : List LlEvent} {ph : Phase} (h : idle.after evs = some ph)
    (hne : ∀ trailer, ph ≠ field trailer) : run fieldText evs = [] := by
  refine run_eq_nil h fun ph' ev hnext => ?_
  cases ev with
  | headerField data =>
    cases ph' with
    | idle => cases hnext
    | _ =>
      cases hnext
      exact absurd rfl (hne _)
  | _ => rfl

/-- A value is being reported only in its phase. -/
theorem run_valueText_eq_nil {evs : List LlEvent} {ph : Phase} (h : idle.after evs = some ph)
    (hne : ∀ trailer, ph ≠ value trailer) : run valueText evs = [] := by
  refine run_eq_nil h fun ph' ev hnext => ?_
  cases ev with
  | headerValue data =>
    cases ph' with
    | field trailer | value trailer =>
      cases hnext
      exact absurd rfl (hne _)
    | _ => cases hnext
  | _ => rfl

variable (junk : ℕ → Message.Junk) (ds : List MessageView) {evs : List LlEvent} {d : Decoder}

/-- What a callback is to do: go through, to a state that its phase describes, when the text it
extends still fits, and abort when it does not. -/
def Exact (ph : Phase) (evs : List LlEvent) (ev : LlEvent) (d : Decoder) : Prop :=
  (RunFits (evs ++ [ev]) → ∃ d' ds', Decoder.callback junk (d, ds) ev = .ok (d', ds') ∧
      ph.Holds (evs ++ [ev]) d' ∧ d'.url.length ≤ Cbuffer.maxSize) ∧
    (¬ RunFits (evs ++ [ev]) → ∃ e, Decoder.callback junk (d, ds) ev = .error e)

/-- An event that reports no text goes through. -/
theorem exact_of_ok {ph : Phase} {ev : LlEvent} {d' : Decoder} {ds' : List MessageView}
    (hfits : RunFits (evs ++ [ev])) (hok : Decoder.callback junk (d, ds) ev = .ok (d', ds'))
    (hholds : ph.Holds (evs ++ [ev]) d') (hurl : d'.url.length ≤ Cbuffer.maxSize) :
    Exact junk ds ph evs ev d :=
  ⟨fun _ => ⟨d', ds', hok, hholds, hurl⟩, fun h => absurd hfits h⟩

/-- An event that extends the text `s` goes through exactly if the longer text fits. -/
theorem exact_of_append {ph : Phase} {ev : LlEvent} (s data : List UInt8)
    (mk : List UInt8 → Decoder) (hs : s.length ≤ Cbuffer.maxSize)
    (hfits : RunFits (evs ++ [ev]) ↔ (s ++ data).length ≤ Cbuffer.maxSize)
    (hcb : Decoder.callback junk (d, ds) ev = do
      return (mk (← Cbuffer.appendBytes s data), ds))
    (hholds : ph.Holds (evs ++ [ev]) (mk (s ++ data)))
    (hurl : (s ++ data).length ≤ Cbuffer.maxSize →
      (mk (s ++ data)).url.length ≤ Cbuffer.maxSize) : Exact junk ds ph evs ev d := by
  rw [Exact, hcb, hfits]
  constructor
  · intro h
    rw [Cbuffer.appendBytes_ok h]
    exact ⟨_, _, rfl, hholds, hurl h⟩
  · intro h
    rw [Cbuffer.appendBytes_error hs h]
    exact ⟨_, rfl⟩

private theorem exact_url (data : List UInt8) (hd : line.Holds evs d)
    (hurl : d.url.length ≤ Cbuffer.maxSize) : Exact junk ds line evs (.url data) d := by
  obtain ⟨hstate, ⟨v, hv, htarget⟩, hrun⟩ := hd
  refine exact_of_append junk ds d.url data
    (fun url => { d with url, current := some { v with isRequest := true } }) hurl ?_ ?_ ?_ id
  · rw [runFits_concat, hrun]
  · simp only [Decoder.callback, Decoder.urlData, Decoder.getCurrent, hv, Except.ok_bind,
      bind_assoc, pure_bind]
  · refine ⟨hstate, ⟨_, rfl, htarget⟩, ?_⟩
    simp [run_concat, urlText, hrun]

/-- The first piece of a name, in a phase that may begin a header line. -/
theorem exact_field_first (data : List UInt8) {trailer : Bool} {v : MessageView}
    (hv : d.current = some v) (htarget : trailer = false → v.target = [])
    (hstate : d.headerState ≠ .field) (hrun : run fieldText evs = [])
    (hurl : d.url.length ≤ Cbuffer.maxSize) :
    Exact junk ds (field trailer) evs (.headerField data) d := by
  refine exact_of_append junk ds [] data
    (fun name => { d.flushed v with name, headerState := .field }) (Nat.zero_le _) ?_ ?_ ?_
    fun _ => hurl
  · rw [runFits_concat, hrun]
  · simp only [Decoder.callback, Decoder.headerFieldData_first hv hstate, bind_assoc, pure_bind]
  · refine ⟨rfl, ⟨_, rfl, htarget⟩, ?_⟩
    simp [run_concat, fieldText, hrun]

/-- A further piece of a name. -/
theorem exact_field_more (data : List UInt8) {trailer : Bool} (hd : (field trailer).Holds evs d)
    (hfit : RunFits evs) (hurl : d.url.length ≤ Cbuffer.maxSize) :
    Exact junk ds (field trailer) evs (.headerField data) d := by
  obtain ⟨hstate, ⟨v, hv, htarget⟩, hrun⟩ := hd
  refine exact_of_append junk ds d.name data
    (fun name => { d with name, headerState := .field }) (hrun ▸ hfit.2.1) ?_ ?_ ?_
    fun _ => hurl
  · rw [runFits_concat, hrun]
  · simp only [Decoder.callback, Decoder.headerFieldData_more hstate, bind_assoc, pure_bind]
  · refine ⟨rfl, ⟨v, hv, htarget⟩, ?_⟩
    simp [run_concat, fieldText, hrun]

/-- A piece of a value: the first one finds the buffer cleared. -/
theorem exact_value (data : List UInt8) {trailer : Bool} {v : MessageView}
    (hv : d.current = some v) (htarget : trailer = false → v.target = [])
    (hstate : d.headerState = .field ∧ run valueText evs = [] ∨
      d.headerState = .value ∧ d.value = run valueText evs)
    (hfit : RunFits evs) (hurl : d.url.length ≤ Cbuffer.maxSize) :
    Exact junk ds (value trailer) evs (.headerValue data) d := by
  refine exact_of_append junk ds (run valueText evs) data
    (fun value => { d with value, headerState := .value }) hfit.2.2 ?_ ?_ ?_ fun _ => hurl
  · rw [runFits_concat]
  · rcases hstate with ⟨hstate, hrun⟩ | ⟨hstate, hrun⟩
    · simp only [Decoder.callback, Decoder.headerValueData, hstate, hrun, bind_assoc,
        pure_bind]
    · simp only [Decoder.callback, Decoder.headerValueData, hstate, ← hrun, bind_assoc,
        pure_bind]
  · refine ⟨rfl, ⟨v, hv, htarget⟩, ?_⟩
    simp [run_concat, valueText]

/-- The end of the headers. -/
theorem exact_headersComplete (major minor method : ℕ) {v : MessageView}
    (hv : d.current = some v) (htarget : v.target = []) (hstate : d.headerState ≠ .field)
    (hurl : d.url.length ≤ Cbuffer.maxSize) :
    Exact junk ds body evs (.headersComplete major minor method) d := by
  have hcb : Decoder.callback junk (d, ds) (.headersComplete major minor method) =
      .ok ({ d.flushed v with current := some { v with
        headers := v.headers ++ d.pending
        minorVers := minor
        method := if d.url = [] then v.method else method
        target := cString d.url } }, ds) := by
    simp only [Decoder.callback, Decoder.headersComplete_ok hv htarget hurl]
    rfl
  exact exact_of_ok junk ds ((runFits_concat ..).mpr trivial) hcb ⟨hstate, _, rfl⟩ hurl

/-- A piece of a body. -/
theorem exact_body {data : List UInt8} (hdata : data ≠ []) (hd : body.Holds evs d)
    (hurl : d.url.length ≤ Cbuffer.maxSize) : Exact junk ds body evs (.body data) d := by
  obtain ⟨hstate, v, hv⟩ := hd
  have hcb : Decoder.callback junk (d, ds) (.body data) =
      .ok ({ d with current := some { v with body := v.body ++ data } }, ds) := by
    simp only [Decoder.callback, Decoder.bodyData, Decoder.getCurrent, hv, Decoder.extendBody,
      hdata, ne_eq, not_false_eq_true, decide_true, assertThat_true]
    rfl
  exact exact_of_ok junk ds ((runFits_concat ..).mpr trivial) hcb ⟨hstate, _, rfl⟩ hurl

/-- The end of a message. -/
theorem exact_messageComplete {v : MessageView} (hv : d.current = some v)
    (hstate : d.headerState ≠ .field) (hurl : d.url.length ≤ Cbuffer.maxSize) :
    Exact junk ds idle evs .messageComplete d := by
  have hcb : Decoder.callback junk (d, ds) .messageComplete =
      .ok (d.newMessage junk, ds ++ [v]) := by
    simp only [Decoder.callback, Decoder.messageComplete, Decoder.getCurrent, hv]
    rfl
  exact exact_of_ok junk ds ((runFits_concat ..).mpr trivial) hcb hstate hurl

/-- The beginning of a message. -/
theorem exact_messageBegin (hd : idle.Holds evs d) :
    Exact junk ds line evs .messageBegin d := by
  refine exact_of_ok junk ds ((runFits_concat ..).mpr trivial) rfl
    ⟨hd, ⟨_, rfl, rfl⟩, ?_⟩ (Nat.zero_le _)
  simp [run_concat, urlText]
  rfl

/-- **One event.** In every phase, whatever may be reported next goes through exactly if the text it
extends still fits. -/
theorem exact_next {ph ph' : Phase} {ev : LlEvent} (hafter : idle.after evs = some ph)
    (hnext : ph.next ev = some ph') (hd : ph.Holds evs d) (hfit : RunFits evs)
    (hurl : d.url.length ≤ Cbuffer.maxSize) : Exact junk ds ph' evs ev d := by
  cases ph with
  | idle =>
    cases ev with
    | messageBegin =>
      cases hnext
      exact exact_messageBegin junk ds hd
    | _ => cases hnext
  | line =>
    have hnone : run fieldText evs = [] := run_fieldText_eq_nil hafter (by simp)
    cases ev with
    | url data =>
      cases hnext
      exact exact_url junk ds _ hd hurl
    | headerField data =>
      cases hnext
      obtain ⟨hstate, ⟨v, hv, htarget⟩, -⟩ := hd
      exact exact_field_first junk ds _ hv (fun _ => htarget) hstate hnone hurl
    | headersComplete major minor method =>
      cases hnext
      obtain ⟨hstate, ⟨v, hv, htarget⟩, -⟩ := hd
      exact exact_headersComplete junk ds _ _ _ hv htarget hstate hurl
    | _ => cases hnext
  | field trailer =>
    have hnone : run valueText evs = [] := run_valueText_eq_nil hafter (by simp)
    cases ev with
    | headerField data =>
      cases hnext
      exact exact_field_more junk ds _ hd hfit hurl
    | headerValue data =>
      cases hnext
      obtain ⟨hstate, ⟨v, hv, htarget⟩, -⟩ := hd
      exact exact_value junk ds _ hv htarget (Or.inl ⟨hstate, hnone⟩) hfit hurl
    | _ => cases hnext
  | value trailer =>
    have hnone : run fieldText evs = [] := run_fieldText_eq_nil hafter (by simp)
    obtain ⟨hstate, ⟨v, hv, htarget⟩, hrun⟩ := hd
    have hne : d.headerState ≠ .field := by simp [hstate]
    cases ev with
    | headerField data =>
      cases hnext
      exact exact_field_first junk ds _ hv htarget hne hnone hurl
    | headerValue data =>
      cases hnext
      exact exact_value junk ds _ hv htarget (Or.inr ⟨hstate, hrun⟩) hfit hurl
    | headersComplete major minor method =>
      cases trailer <;> cases hnext
      exact exact_headersComplete junk ds _ _ _ hv (htarget rfl) hne hurl
    | messageComplete =>
      cases trailer <;> cases hnext
      exact exact_messageComplete junk ds hv hne hurl
    | _ => cases hnext
  | body =>
    have hnone : run fieldText evs = [] := run_fieldText_eq_nil hafter (by simp)
    cases ev with
    | headerField data =>
      cases hnext
      obtain ⟨hstate, v, hv⟩ := hd
      exact exact_field_first junk ds _ hv (by simp) hstate hnone hurl
    | body data =>
      simp only [next] at hnext
      split at hnext
      · cases hnext
      · cases hnext
        exact exact_body junk ds ‹_› hd hurl
    | messageComplete =>
      cases hnext
      obtain ⟨hstate, v, hv⟩ := hd
      exact exact_messageComplete junk ds hv hstate hurl
    | _ => cases hnext

/-- **A stream.** The decoder takes the events of requests exactly if no text gets too long. -/
theorem callbacks_exact {evs : List LlEvent} {ph : Phase} (h : idle.after evs = some ph) :
    (WithinLimit evs → ∃ d ds, Decoder.callbacks junk (Decoder.new, []) evs = .ok (d, ds) ∧
        ph.Holds evs d ∧ d.url.length ≤ Cbuffer.maxSize) ∧
      (¬ WithinLimit evs → ∃ e, Decoder.callbacks junk (Decoder.new, []) evs = .error e) := by
  induction evs using List.reverseRecOn generalizing ph with
  | nil =>
    cases h
    refine ⟨fun _ => ⟨Decoder.new, [], rfl, by simp [Holds, Decoder.new], Nat.zero_le _⟩,
      fun hlong => absurd (fun l hl => ?_) hlong⟩
    rw [List.prefix_nil.mp hl]
    exact ⟨Nat.zero_le _, Nat.zero_le _, Nat.zero_le _⟩
  | append_singleton evs ev ih =>
    rw [after_append, Option.bind_eq_some_iff] at h
    obtain ⟨ph₀, hafter, hlast⟩ := h
    have hnext : ph₀.next ev = some ph := by simpa [after] using hlast
    rw [withinLimit_concat, Decoder.callbacks_append]
    by_cases hfits : WithinLimit evs
    · obtain ⟨d, ds, hcb, hd, hurl⟩ := (ih hafter).1 hfits
      rw [hcb, Except.ok_bind, Decoder.callbacks_cons]
      have hone := exact_next junk ds hafter hnext hd (hfits evs (List.prefix_refl _)) hurl
      constructor
      · rintro ⟨-, hrun⟩
        obtain ⟨d', ds', heq, hrest⟩ := hone.1 hrun
        exact ⟨d', ds', by rw [heq]; rfl, hrest⟩
      · intro hlong
        obtain ⟨e, he⟩ := hone.2 fun hrun => hlong ⟨hfits, hrun⟩
        exact ⟨e, by rw [he]; rfl⟩
    · obtain ⟨e, he⟩ := (ih hafter).2 hfits
      rw [he]
      exact ⟨fun h => absurd h.1 hfits, fun _ => ⟨e, rfl⟩⟩

end Phase

namespace HttpParser

/-- Wherever a stream of requests breaks off, the callbacks have gone through exactly if no target,
header name or header value was reported that is longer than a `Cbuffer` can be. -/
theorem callbacks_ok_iff_withinLimit (heap : Heap) (memory : ByteMemory) (rs : List MessageEvents)
    (hrs : ∀ r ∈ rs, ∃ url, r.start = .request url) (evs : List LlEvent)
    (h : evs <+: rs.flatMap MessageEvents.events) :
    (∃ s, callbacks collect (new heap memory, []) evs = .ok s) ↔ LlEvent.WithinLimit evs := by
  obtain ⟨ph, hph⟩ := Phase.exists_after hrs h
  have hrel := callbacks_rel (s := (new heap memory, [])) (t := (Decoder.new, []))
    ⟨new_rep heap memory, rfl⟩ evs
  obtain ⟨hok, herr⟩ := Phase.callbacks_exact heap.message hph
  constructor
  · rintro ⟨s, hs⟩
    by_contra hlong
    obtain ⟨e, he⟩ := herr hlong
    cases hs.symm.trans (hrel.eq_error he)
  · intro hfits
    obtain ⟨d, ds, hcb, -⟩ := hok hfits
    obtain ⟨s, hs, -⟩ := hrel.exists_ok hcb
    exact ⟨s, hs⟩

/-- A request whose target and header come in pieces. -/
def shortRequest : MessageEvents where
  start := .request [[47], [97]]
  httpMajor := 1
  httpMinor := 1
  method := 1
  headers := [⟨[[72], [111]], [[97], []], List.cons_ne_nil _ _, List.cons_ne_nil _ _⟩]
  body := []
  trailers := []
  body_ne_nil := MessageEvents.noBody

theorem callbacks_ok_shortRequest :
    ∃ s, callbacks collect (new (.const .zeros) fun _ => 0, []) shortRequest.events = .ok s := by
  have hall : ∀ l ∈ shortRequest.events.inits, LlEvent.RunFits l := by decide +kernel
  exact (callbacks_ok_iff_withinLimit _ _ [shortRequest] (by simp [shortRequest]) _ (by simp)).mpr
    fun l hl => hall l ((List.mem_inits l _).mpr hl)

/-- A target of one byte more than the limit, in two pieces. -/
def longRequest : MessageEvents where
  start := .request [List.replicate Cbuffer.maxSize 97, [97]]
  httpMajor := 1
  httpMinor := 1
  method := 1
  headers := []
  body := []
  trailers := []
  body_ne_nil := MessageEvents.noBody

/-- No error is returned for it: the assertion of the growth strategy fails. -/
theorem longRequest_aborts :
    callbacks collect (new (.const .zeros) fun _ => 0, []) longRequest.events =
      .error ⟨"BufferStrategy_reallocate_size", "0"⟩ := by
  have hlong : ¬ ([List.replicate Cbuffer.maxSize 97, [(97 : UInt8)]].flatten).length ≤
      Cbuffer.maxSize := by
    simp
  have hrel := callbacks_rel (s := (new (.const .zeros) fun _ => 0, [])) (t := (Decoder.new, []))
    ⟨new_rep _ _, rfl⟩ longRequest.events
  refine hrel.eq_error ?_
  rw [MessageEvents.events, MessageEvents.callbacks_begin, Decoder.callbacks_append, longRequest,
    StartLine.events, Decoder.callbacks_url _ _ rfl]
  change (Decoder.appendAll [] _ >>= _) >>= _ = _
  rw [Decoder.appendAll_nil_error hlong]
  rfl

end HttpParser

end CHttp
