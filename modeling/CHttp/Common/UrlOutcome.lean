import CHttp.Common.UrlSpans

/-!
# What the URL parser does

`c_http_parser_parse_url` has eight ways to end, and `parseUrl_outcome` lists them with what they
leave in the caller's structure. No assertion fails on the way: both passes only store positions
inside the text, and reducing a number to 16 bits does not make it larger. `Url_new` always returns
a URL, with the bytes at the stored positions.
-/

namespace CHttp

open RankedRun

/-- The states of the first automaton over a URL, up to the first byte it refuses. -/
def urlStates (isConnect : Bool) (url : List UInt8) : List UrlState :=
  states parseUrlChar .dead (.start isConnect) url

/-- The first automaton reads the whole URL. -/
def UrlLive (isConnect : Bool) (url : List UInt8) : Prop :=
  Live parseUrlChar .dead (.start isConnect) url

/-- How many bytes the first automaton reads as a field, the authority counting as the host. -/
def urlLen (isConnect : Bool) (url : List UInt8) (uf : UrlField) : ℕ :=
  occ UrlState.rank (urlStates isConnect url) uf.rank

/-- Where these bytes start. -/
def urlOff (isConnect : Bool) (url : List UInt8) (uf : UrlField) : ℕ :=
  before UrlState.rank (urlStates isConnect url) uf.rank

/-- The states of the second automaton over an authority. -/
def hostStates (foundAt : Bool) (bs : List UInt8) : List HostState :=
  states parseHostChar .dead (.start foundAt) bs

/-- The second automaton reads an authority to its end, and may stop there. -/
def HostAccepts (foundAt : Bool) (bs : List UInt8) : Prop :=
  Live parseHostChar .dead (.start foundAt) bs ∧
    ((hostStates foundAt bs).getLastD (.start foundAt)).final = true

/-- The bytes that `c_http_parse_host` scans. -/
def scanned (url : List UInt8) (u : ParserUrl) : List UInt8 :=
  slice url (u.fieldData .host).off (u.fieldData .host).len

/-- The first pass left the loop's variables `l`, all bytes read. -/
structure UrlRead (url : List UInt8) (isConnect : Bool) (u₀ : ParserUrl) (l : UrlLoop) : Prop where
  after : l.After u₀ (urlStates isConnect url)
  live : UrlLive isConnect url

/-- The first pass found an authority and left `l`, the host pass then left `u`. -/
structure HostRead (url : List UInt8) (isConnect : Bool) (u₀ : ParserUrl) (l : UrlLoop)
    (u : ParserUrl) : Prop extends UrlRead url isConnect u₀ l where
  pos : 0 < urlLen isConnect url .host
  afterHost : ∃ t, (l.u.setLen .host 0).AfterHost (l.u.fieldData .host).off
    (hostStates l.foundAt (scanned url l.u)) t u

/-- The ways in which `c_http_parser_parse_url` ends: what it returns and leaves. -/
inductive UrlOutcome (url : List UInt8) (isConnect : Bool) (u₀ : ParserUrl) : ℕ → ParserUrl → Prop
  | empty (h : url = []) : UrlOutcome url isConnect u₀ 1 u₀
  | refused {l : UrlLoop} (hl : l.After u₀ (urlStates isConnect url))
      (h : ¬ UrlLive isConnect url) : UrlOutcome url isConnect u₀ 1 l.u
  | noHost {l : UrlLoop} (hl : UrlRead url isConnect u₀ l) (hhost : urlLen isConnect url .host = 0)
      (h : 0 < urlLen isConnect url .schema ∨ isConnect = true) : UrlOutcome url isConnect u₀ 1 l.u
  | hostRefused {l : UrlLoop} {u : ParserUrl} (hu : HostRead url isConnect u₀ l u)
      (h : ¬ HostAccepts l.foundAt (scanned url l.u)) : UrlOutcome url isConnect u₀ 1 u
  | notConnect {l : UrlLoop} {u : ParserUrl} (hu : HostRead url isConnect u₀ l u)
      (hacc : HostAccepts l.foundAt (scanned url l.u)) (hconn : isConnect = true) :
      UrlOutcome url isConnect u₀ 1 u
  | portRefused {l : UrlLoop} {u : ParserUrl} (hu : HostRead url isConnect u₀ l u)
      (hacc : HostAccepts l.foundAt (scanned url l.u)) (hport : u.fieldSet .port = true)
      (h : portLoop (slice url (u.fieldData .port).off (u.fieldData .port).len) 0 = none) :
      UrlOutcome url isConnect u₀ 1 u
  | path {l : UrlLoop} (hl : UrlRead url isConnect u₀ l) (hhost : urlLen isConnect url .host = 0)
      (hschema : urlLen isConnect url .schema = 0) (hne : url ≠ []) :
      UrlOutcome url isConnect u₀ 0 l.u
  | host {l : UrlLoop} {u : ParserUrl} (hu : HostRead url isConnect u₀ l u)
      (hacc : HostAccepts l.foundAt (scanned url l.u)) (hport : u.fieldSet .port = false) :
      UrlOutcome url isConnect u₀ 0 u
  | hostPort {l : UrlLoop} {u : ParserUrl} {v : ℕ} (hu : HostRead url isConnect u₀ l u)
      (hacc : HostAccepts l.foundAt (scanned url l.u)) (hport : u.fieldSet .port = true)
      (h : portLoop (slice url (u.fieldData .port).off (u.fieldData .port).len) 0 = some v) :
      UrlOutcome url isConnect u₀ 0 { u with port := u16 v }

variable {url : List UInt8} {isConnect : Bool} {u₀ u : ParserUrl} {l : UrlLoop}

theorem UrlRead.fieldSet (h : UrlRead url isConnect u₀ l) (uf : UrlField) :
    l.u.fieldSet uf = decide (0 < urlLen isConnect url uf) := h.after.fieldSet uf

/-- The first automaton has no states for a port or user information. -/
theorem urlLen_eq_zero {uf : UrlField} (huf : uf = .port ∨ uf = .userinfo) :
    urlLen isConnect url uf = 0 := by
  refine occ_eq_zero_iff.mpr fun s _ => ?_
  obtain rfl | rfl := huf <;> cases s <;> decide

theorem length_slice (buf : List UInt8) (off n : ℕ) :
    (slice buf off n).length = min n (buf.length - off) := by
  rw [slice, List.length_take, List.length_drop]

/-- The scan does not leave the text. -/
theorem add_length_hostStates_le (foundAt : Bool) {buf : List UInt8} {off n : ℕ}
    (h : 0 < (hostStates foundAt (slice buf off n)).length) :
    off + (hostStates foundAt (slice buf off n)).length ≤ buf.length := by
  have hle : (hostStates foundAt (slice buf off n)).length ≤ (slice buf off n).length :=
    length_states_le
  rw [length_slice] at hle
  omega

/-- The port that is stored lies inside the text. -/
theorem HostRead.port_le (h : HostRead url isConnect u₀ l u) (hport : u.fieldSet .port = true) :
    (u.fieldData .port).off + (u.fieldData .port).len ≤ url.length := by
  obtain ⟨t, hu⟩ := h.afterHost
  have hocc : 0 < occ HostState.rank (hostStates l.foundAt (scanned url l.u))
      UrlField.port.hostRank := by
    have hset := hu.fieldSet .port
    rw [hport, ParserUrl.fieldSet_setLen, h.fieldSet, urlLen_eq_zero (Or.inl rfl)] at hset
    simpa using hset.symm
  rw [hu.fieldData .port]
  refine (storedPart_le hocc).trans (add_length_hostStates_le _ ?_)
  exact hocc.trans_le List.countP_le_length

theorem urlLoop_outcome (url : List UInt8) (isConnect : Bool) (u₀ : ParserUrl) :
    ∃ rc l, urlLoop url 0 (.init isConnect u₀) = .ok (rc, l) ∧
      l.After u₀ (urlStates isConnect url) ∧ (rc = 0 ↔ UrlLive isConnect url) :=
  urlLoop_spec (UrlLoop.after_init isConnect u₀) url

/-- The host pass, after a first pass that found an authority. -/
theorem parseHost_outcome (h : UrlRead url isConnect u₀ l) (hpos : 0 < urlLen isConnect url .host) :
    ∃ rc u, parseHost url l.u l.foundAt = .ok (rc, u) ∧ HostRead url isConnect u₀ l u ∧
      (rc = 0 ↔ HostAccepts l.foundAt (scanned url l.u)) := by
  have hset : l.u.fieldSet .host = true := by
    rw [h.fieldSet]
    exact decide_eq_true hpos
  have hreset : (l.u.setLen .host 0).HostReset := ⟨hset, by simp [u16]⟩
  obtain ⟨s, t, u, hrun, hu, hlive, hnot⟩ :=
    hostLoop_spec (ParserUrl.afterHost_start _ (l.u.fieldData .host).off l.foundAt) hreset
      (scanned url l.u)
  refine ⟨if s.final then 0 else 1, u, ?_, ⟨h, hpos, t, hu⟩, ?_⟩
  · rw [List.length_nil, Nat.add_zero, scanned] at hrun
    rw [parseHost, hset, assertThat_true, Except.ok_bind]
    dsimp only
    rw [hrun]
    rfl
  · by_cases hl : Live parseHostChar .dead (.start l.foundAt) (scanned url l.u)
    · simp [HostAccepts, hl, hlive hl, hostStates]
    · simp [HostAccepts, hl, hnot hl, HostState.final]

private theorem hostAndPortOnly_eq_false (h : u.fieldSet .host = false) :
    u.hostAndPortOnly = false := by
  simp [ParserUrl.hostAndPortOnly, h]

/-- The port, after a host pass that accepted. -/
theorem parsePort_outcome (hu : HostRead url isConnect u₀ l u)
    (hacc : HostAccepts l.foundAt (scanned url l.u)) :
    ∃ rc u', parsePort url u = .ok (rc, u') ∧ UrlOutcome url isConnect u₀ rc u' := by
  cases hport : u.fieldSet .port with
  | false =>
    refine ⟨0, u, ?_, UrlOutcome.host hu hacc hport⟩
    rw [parsePort, hport]
    rfl
  | true =>
    have hle := hu.port_le hport
    cases hv : portLoop (slice url (u.fieldData .port).off (u.fieldData .port).len) 0 with
    | none =>
      refine ⟨1, u, ?_, UrlOutcome.portRefused hu hacc hport hv⟩
      simp [parsePort, hport, hle, hv]
    | some v =>
      refine ⟨0, _, ?_, UrlOutcome.hostPort hu hacc hport hv⟩
      simp [parsePort, hport, hle, hv]

private theorem parseAfterLoop_outcome (hl : UrlRead url isConnect u₀ l) (hne : url ≠ []) :
    ∃ rc u, parseAfterLoop url isConnect l = .ok (rc, u) ∧ UrlOutcome url isConnect u₀ rc u := by
  by_cases hhost : urlLen isConnect url .host = 0
  · have hset : l.u.fieldSet .host = false := by simp [hl.fieldSet, hhost]
    by_cases hschema : urlLen isConnect url .schema = 0
    · have hset' : l.u.fieldSet .schema = false := by simp [hl.fieldSet, hschema]
      have hport : l.u.fieldSet .port = false := by
        simp [hl.fieldSet, urlLen_eq_zero]
      cases isConnect with
      | false =>
        refine ⟨0, l.u, ?_, UrlOutcome.path hl hhost hschema hne⟩
        simp [parseAfterLoop, parseAfterHost, parsePort, hset, hset', hport]
      | true =>
        refine ⟨1, l.u, ?_, UrlOutcome.noHost hl hhost (Or.inr rfl)⟩
        simp [parseAfterLoop, parseAfterHost, hset, hset', hostAndPortOnly_eq_false hset]
    · have hpos := Nat.pos_of_ne_zero hschema
      refine ⟨1, l.u, ?_, UrlOutcome.noHost hl hhost (Or.inl hpos)⟩
      simp [parseAfterLoop, hset, hl.fieldSet .schema, hpos]
  · have hpos := Nat.pos_of_ne_zero hhost
    have hset : l.u.fieldSet .host = true := by simp [hl.fieldSet, hpos]
    obtain ⟨rc, u, hrun, hu, hrc⟩ := parseHost_outcome hl hpos
    have heq : parseAfterLoop url isConnect l =
        if rc ≠ 0 then .ok (1, u) else parseAfterHost url isConnect u := by
      simp only [parseAfterLoop, hset, Bool.not_true, Bool.and_false, Bool.false_eq_true, if_false,
        if_true, hrun, Except.ok_bind]
      rfl
    by_cases hacc : HostAccepts l.foundAt (scanned url l.u)
    · rw [heq, if_neg (not_not_intro (hrc.mpr hacc)), parseAfterHost]
      split
      · next hconn =>
        rw [Bool.and_eq_true] at hconn
        exact ⟨1, u, rfl, UrlOutcome.notConnect hu hacc hconn.1⟩
      · exact parsePort_outcome hu hacc
    · rw [heq, if_pos (mt hrc.mp hacc)]
      exact ⟨1, u, rfl, UrlOutcome.hostRefused hu hacc⟩

/-- `c_http_parser_parse_url` returns, in one of the ways listed. -/
theorem parseUrl_outcome (url : List UInt8) (isConnect : Bool) (u₀ : ParserUrl) :
    ∃ rc u, parseUrl url isConnect u₀ = .ok (rc, u) ∧ UrlOutcome url isConnect u₀ rc u := by
  by_cases hne : url = []
  · subst hne
    exact ⟨1, u₀, rfl, UrlOutcome.empty rfl⟩
  · have hlen : url.length ≠ 0 := fun h => hne (List.length_eq_zero_iff.mp h)
    obtain ⟨rc, l, hrun, hl, hrc⟩ := urlLoop_outcome url isConnect u₀
    have heq : parseUrl url isConnect u₀ =
        if rc ≠ 0 then .ok (1, l.u) else parseAfterLoop url isConnect l := by
      rw [parseUrl, if_neg hlen, hrun, Except.ok_bind]
      rfl
    by_cases hlive : UrlLive isConnect url
    · rw [heq, if_neg (not_not_intro (hrc.mpr hlive))]
      exact parseAfterLoop_outcome ⟨hl, hlive⟩ hne
    · rw [heq, if_pos (mt hrc.mp hlive)]
      exact ⟨1, l.u, rfl, UrlOutcome.refused hl hlive⟩

theorem outcome_of_parseUrl {rc : ℕ} (h : parseUrl url isConnect u₀ = .ok (rc, u)) :
    UrlOutcome url isConnect u₀ rc u := by
  obtain ⟨rc', u', heq, hout⟩ := parseUrl_outcome url isConnect u₀
  cases h.symm.trans heq
  exact hout

/-! ### `Url_new` -/

theorem UrlLoop.After.len_lt {ss : List UrlState} (h : l.After ParserUrl.init ss) (uf : UrlField) :
    (l.u.fieldData uf).len < 65536 := by
  rw [h.fieldData uf]
  exact len_storedPart_lt (show 0 < 65536 by decide)

theorem HostRead.len_lt (h : HostRead url isConnect ParserUrl.init l u) (uf : UrlField) :
    (u.fieldData uf).len < 65536 := by
  obtain ⟨t, hu⟩ := h.afterHost
  rw [hu.fieldData uf]
  refine len_storedPart_lt ?_
  by_cases huf : uf = .host
  · subst huf
    rw [ParserUrl.fieldData_setLen_self]
    exact u16_lt _
  · rw [ParserUrl.fieldData_setLen_of_ne _ _ huf]
    exact h.after.len_lt uf

/-- Positions are left by the first pass, or by both, if there is any text. -/
theorem UrlOutcome.fieldData_cases {rc : ℕ} (h : UrlOutcome url isConnect u₀ rc u) :
    u = u₀ ∨ (∃ l : UrlLoop, l.After u₀ (urlStates isConnect url) ∧ u = l.u) ∨
      ∃ l u', HostRead url isConnect u₀ l u' ∧ u.fieldData = u'.fieldData := by
  cases h with
  | empty => exact Or.inl rfl
  | refused hl => exact Or.inr (Or.inl ⟨_, hl, rfl⟩)
  | noHost hl => exact Or.inr (Or.inl ⟨_, hl.after, rfl⟩)
  | path hl => exact Or.inr (Or.inl ⟨_, hl.after, rfl⟩)
  | hostRefused hu => exact Or.inr (Or.inr ⟨_, _, hu, rfl⟩)
  | notConnect hu => exact Or.inr (Or.inr ⟨_, _, hu, rfl⟩)
  | portRefused hu => exact Or.inr (Or.inr ⟨_, _, hu, rfl⟩)
  | host hu => exact Or.inr (Or.inr ⟨_, _, hu, rfl⟩)
  | hostPort hu => exact Or.inr (Or.inr ⟨_, _, hu, rfl⟩)

/-- Lengths of fields are less than 65536. -/
theorem UrlOutcome.len_lt {rc : ℕ} (h : UrlOutcome url isConnect ParserUrl.init rc u)
    (uf : UrlField) : (u.fieldData uf).len < 65536 := by
  rcases h.fieldData_cases with rfl | ⟨l, hl, rfl⟩ | ⟨l, u', hu, heq⟩
  · exact show 0 < 65536 by decide
  · exact hl.len_lt uf
  · rw [heq]
    exact hu.len_lt uf

namespace Url

/-- A buffer of `Url_new` gets the bytes at the stored position; they fit. -/
theorem fieldBuffer_spec (url : List UInt8) {u : ParserUrl} (junk : UrlField → ByteMemory)
    {uf : UrlField} (hlt : (u.fieldData uf).len < 65536) :
    ∃ cbuf, fieldBuffer url u junk uf = .ok cbuf ∧
      cbuf.data = slice url (u.fieldData uf).off (u.fieldData uf).len := by
  have hnew := Cbuffer.new_holds (junk uf)
  by_cases hlen : (u.fieldData uf).len = 0
  · refine ⟨_, if_neg (not_not_intro hlen), ?_⟩
    rw [hnew.data_eq, hlen, slice, List.take_zero]
  · rw [fieldBuffer, if_pos hlen]
    by_cases hnil : slice url (u.fieldData uf).off (u.fieldData uf).len = []
    · refine ⟨_, by rw [hnil]; rfl, ?_⟩
      rw [hnil, hnew.data_eq]
    · have hfit : ([] : List UInt8).length +
          (slice url (u.fieldData uf).off (u.fieldData uf).len).length ≤ Cbuffer.maxSize := by
        rw [length_slice, List.length_nil, Cbuffer.maxSize]
        omega
      obtain ⟨cbuf, happ, hholds⟩ := Cbuffer.append_holdsCstr hnew hnil hfit
      exact ⟨cbuf, happ, hholds.data_eq⟩

/-- `Url_new` returns a URL with the bytes at the positions that the parser left. -/
theorem new_spec (junk : UrlField → ByteMemory) {url : List UInt8} {rc : ℕ} {u : ParserUrl}
    (h : parseUrl (cString url) false ParserUrl.init = .ok (rc, u)) :
    ∃ this : Url, new junk url = .ok this ∧
      ∀ uf, (this.get uf).data = slice url (u.fieldData uf).off (u.fieldData uf).len := by
  have hlt := (outcome_of_parseUrl h).len_lt
  obtain ⟨scheme, h1, d1⟩ := fieldBuffer_spec url junk (hlt .schema)
  obtain ⟨userInfo, h2, d2⟩ := fieldBuffer_spec url junk (hlt .userinfo)
  obtain ⟨host, h3, d3⟩ := fieldBuffer_spec url junk (hlt .host)
  obtain ⟨path, h4, d4⟩ := fieldBuffer_spec url junk (hlt .path)
  obtain ⟨port, h5, d5⟩ := fieldBuffer_spec url junk (hlt .port)
  obtain ⟨fragement, h6, d6⟩ := fieldBuffer_spec url junk (hlt .fragment)
  obtain ⟨query, h7, d7⟩ := fieldBuffer_spec url junk (hlt .query)
  refine ⟨⟨scheme, host, path, port, fragement, query, userInfo⟩, ?_, fun uf => ?_⟩
  · simp only [new, h, Except.ok_bind, h1, h2, h3, h4, h5, h6, h7]
    rfl
  · cases uf <;> assumption

end Url

end CHttp
