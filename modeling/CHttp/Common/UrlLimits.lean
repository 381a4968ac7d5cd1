import CHttp.Common.UrlParts

/-!
# Long URLs

Positions are stored in 16 bits and nothing checks that they fit. `Exact` says that an accepted URL
is described as it is, and `Fits` when that is so: the parts, and the authority as a whole, start
before byte 65536 and are shorter than that. Otherwise the URL is accepted all the same, with wrong
positions, and the host pass may scan other bytes than the authority.
-/

namespace CHttp

open RankedRun

variable {url : List UInt8} {isConnect : Bool} {u₀ u : ParserUrl} {l : UrlLoop}

/-! ### Exact positions -/

/-- Whether the first automaton meets an at sign in the authority. -/
def hasAt (isConnect : Bool) (url : List UInt8) : Bool :=
  .serverWithAt ∈ urlStates isConnect url

/-- The authority, as the first automaton reads it. -/
def authority (isConnect : Bool) (url : List UInt8) : List UInt8 :=
  slice url (urlOff isConnect url .host) (urlLen isConnect url .host)

/-- Where a field is, in numbers of any size. -/
def trueField (isConnect : Bool) (url : List UInt8) (uf : UrlField) : FieldData :=
  let hosts := hostStates (hasAt isConnect url) (authority isConnect url)
  if uf.InAuthority then
    ⟨urlOff isConnect url .host + before HostState.rank hosts uf.hostRank,
      occ HostState.rank hosts uf.hostRank⟩
  else ⟨urlOff isConnect url uf, urlLen isConnect url uf⟩

/-- A position that 16 bits can hold. -/
def FieldData.Fits (d : FieldData) : Prop := d.off < 65536 ∧ d.len < 65536

/-- The authority and the fields of the URL have positions that 16 bits can hold. -/
structure Fits (isConnect : Bool) (url : List UInt8) : Prop where
  authority : 0 < urlLen isConnect url .host →
    FieldData.Fits ⟨urlOff isConnect url .host, urlLen isConnect url .host⟩
  fields : ∀ uf, 0 < (trueField isConnect url uf).len → (trueField isConnect url uf).Fits

/-- The structure `u` that `c_http_parser_parse_url` left describes the URL. -/
structure Exact (url : List UInt8) (isConnect : Bool) (u₀ u : ParserUrl) : Prop where
  /-- The fields in `field_set` are those of the URL. -/
  set : ∀ uf, u.fieldSet uf = decide (0 < (trueField isConnect url uf).len)
  /-- Their offsets and lengths are the true ones. -/
  fields : ∀ uf, u.fieldSet uf = true → u.fieldData uf = trueField isConnect url uf
  /-- The host pass scans the authority: its bounds are those of the first pass. -/
  scan : ∀ l, urlLoop url 0 (.init isConnect u₀) = .ok (0, l) → l.u.fieldSet .host = true →
    l.u.fieldData .host = ⟨urlOff isConnect url .host, urlLen isConnect url .host⟩

private theorem trueField_of_inAuthority {uf : UrlField} (huf : uf.InAuthority) :
    trueField isConnect url uf = ⟨urlOff isConnect url .host + before HostState.rank
      (hostStates (hasAt isConnect url) (authority isConnect url)) uf.hostRank,
      occ HostState.rank (hostStates (hasAt isConnect url) (authority isConnect url))
        uf.hostRank⟩ := if_pos huf

private theorem trueField_of_not_inAuthority {uf : UrlField} (huf : ¬ uf.InAuthority) :
    trueField isConnect url uf = ⟨urlOff isConnect url uf, urlLen isConnect url uf⟩ := if_neg huf

/-- Reducing a position to 16 bits keeps it exactly if it fits. -/
theorem u16_eq_iff {off len : ℕ} :
    (⟨u16 off, u16 len⟩ : FieldData) = ⟨off, len⟩ ↔ FieldData.Fits ⟨off, len⟩ := by
  rw [FieldData.mk.injEq, u16_eq_self_iff, u16_eq_self_iff]
  rfl

/-- The structure holds the positions `pos`, reduced to 16 bits. -/
structure Reduces (u : ParserUrl) (pos : UrlField → FieldData) : Prop where
  set : ∀ uf, u.fieldSet uf = decide (0 < (pos uf).len)
  fields : ∀ uf, 0 < (pos uf).len → u.fieldData uf = ⟨u16 (pos uf).off, u16 (pos uf).len⟩

private theorem Reduces.exact_iff {pos : UrlField → FieldData} (h : Reduces u pos) :
    (∀ uf, u.fieldSet uf = true → u.fieldData uf = pos uf) ↔
      ∀ uf, 0 < (pos uf).len → (pos uf).Fits := by
  refine forall_congr' fun uf => ?_
  rw [h.set uf, decide_eq_true_eq]
  refine forall_congr' fun hpos => ?_
  rw [h.fields uf hpos]
  exact u16_eq_iff

/-- The first pass stores reduced positions. -/
theorem UrlRead.reduces (h : UrlRead url isConnect u₀ l) :
    Reduces l.u fun uf => ⟨urlOff isConnect url uf, urlLen isConnect url uf⟩ where
  set := h.fieldSet
  fields uf hpos := by
    rw [h.after.fieldData uf, storedPart_of_occ_pos hpos, Nat.zero_add]
    rfl

/-- Without an authority the second automaton has nothing to find. -/
theorem UrlRead.reduces_of_no_host (h : UrlRead url isConnect u₀ l)
    (hhost : urlLen isConnect url .host = 0) : Reduces l.u (trueField isConnect url) := by
  have hnil : authority isConnect url = [] := by
    rw [authority, hhost, slice, List.take_zero]
  have hzero : ∀ uf : UrlField, uf.InAuthority → (trueField isConnect url uf).len = 0 ∧
      urlLen isConnect url uf = 0 := by
    intro uf huf
    refine ⟨?_, ?_⟩
    · rw [trueField_of_inAuthority huf, hnil]
      rfl
    · rcases huf with rfl | rfl | rfl
      · exact urlLen_eq_zero (Or.inr rfl)
      · exact hhost
      · exact urlLen_eq_zero (Or.inl rfl)
  refine ⟨fun uf => ?_, fun uf hpos => ?_⟩
  · by_cases huf : uf.InAuthority
    · obtain ⟨h1, h2⟩ := hzero uf huf
      rw [h.fieldSet uf, h1, h2]
    · rw [trueField_of_not_inAuthority huf]
      exact h.reduces.set uf
  · by_cases huf : uf.InAuthority
    · exact absurd (hzero uf huf).1 hpos.ne'
    · rw [trueField_of_not_inAuthority huf] at hpos ⊢
      exact h.reduces.fields uf hpos

private theorem Authority.occ_states_host {a : Authority} {hosts : List HostState}
    (hlen : hosts.length = a.host.length) (hall : ∀ t ∈ hosts, t.rank = 4) (hne : a.host ≠ []) :
    0 < occ HostState.rank (a.states hosts) 4 := by
  have hpos : 0 < hosts.length := by
    rw [hlen]
    exact List.length_pos_iff.mpr hne
  have hocc : occ HostState.rank hosts 4 = hosts.length := occ_of_forall (r := 4) hall
  simp only [Authority.states, occ_append, hocc]
  omega

/-- An accepted authority has a host. -/
theorem HostAccepts.occ_host {foundAt : Bool} {bs : List UInt8} (h : HostAccepts foundAt bs) :
    0 < occ HostState.rank (hostStates foundAt bs) UrlField.host.hostRank := by
  obtain ⟨a, hosts, hwf, -, hstates, hlen, hall⟩ := authority_of_accepts h
  rw [hstates]
  exact Authority.occ_states_host hlen hall hwf.host

/-- The host pass stores reduced positions, if it scans the authority. -/
theorem HostRead.reduces (h : HostRead url isConnect u₀ l u)
    (hacc : HostAccepts l.foundAt (scanned url l.u))
    (hfits : FieldData.Fits ⟨urlOff isConnect url .host, urlLen isConnect url .host⟩) :
    Reduces u (trueField isConnect url) := by
  obtain ⟨t, hu⟩ := h.afterHost
  have hhost : l.u.fieldData .host = ⟨urlOff isConnect url .host, urlLen isConnect url .host⟩ := by
    rw [h.fieldData_host h.pos]
    exact u16_eq_iff.mpr hfits
  have hscan : scanned url l.u = authority isConnect url := by
    rw [scanned, hhost]
    rfl
  have hat : l.foundAt = hasAt isConnect url := h.after.foundAt
  have hocc := hacc.occ_host
  rw [hscan, hat] at hu hocc
  rw [hhost] at hu
  refine ⟨fun uf => ?_, fun uf hpos => ?_⟩
  · by_cases huf : uf.InAuthority
    · rw [trueField_of_inAuthority huf, hu.fieldSet uf, ParserUrl.fieldSet_setLen, h.fieldSet uf]
      rcases huf with rfl | rfl | rfl
      · rw [urlLen_eq_zero (Or.inr rfl)]
        simp
      · simp [h.pos, hocc]
      · rw [urlLen_eq_zero (Or.inl rfl)]
        simp
    · rw [trueField_of_not_inAuthority huf, hu.fieldSet uf, ParserUrl.fieldSet_setLen,
        h.fieldSet uf, occ_hostRank_eq_zero huf]
      simp
  · by_cases huf : uf.InAuthority
    · rw [trueField_of_inAuthority huf] at hpos ⊢
      rw [hu.fieldData uf, storedPart_of_occ_pos hpos]
    · rw [trueField_of_not_inAuthority huf] at hpos ⊢
      rw [h.fieldData_of_not_inAuthority huf]
      exact h.toUrlRead.reduces.fields uf hpos

/-- Where the structure is right as far as positions fit, it is right exactly if they do. -/
theorem exact_iff_fits (h : UrlRead url isConnect u₀ l)
    (hnone : urlLen isConnect url .host = 0 → Reduces u (trueField isConnect url))
    (hsome : 0 < urlLen isConnect url .host →
      FieldData.Fits ⟨urlOff isConnect url .host, urlLen isConnect url .host⟩ →
        Reduces u (trueField isConnect url)) :
    Exact url isConnect u₀ u ↔ Fits isConnect url := by
  obtain ⟨rc, l', hrun, hl', hrc⟩ := urlLoop_outcome url isConnect u₀
  obtain rfl := hrc.mpr h.live
  have hread : UrlRead url isConnect u₀ l' := ⟨hl', h.live⟩
  have hscan : (∀ l, urlLoop url 0 (.init isConnect u₀) = .ok (0, l) → l.u.fieldSet .host = true →
      l.u.fieldData .host = ⟨urlOff isConnect url .host, urlLen isConnect url .host⟩) ↔
        (0 < urlLen isConnect url .host →
          FieldData.Fits ⟨urlOff isConnect url .host, urlLen isConnect url .host⟩) := by
    constructor
    · intro hall hpos
      have heq := hall l' hrun (by rw [hread.fieldSet]; exact decide_eq_true hpos)
      rw [hread.fieldData_host hpos] at heq
      exact u16_eq_iff.mp heq
    · intro hfits l'' hrun' hset
      cases hrun.symm.trans hrun'
      rw [hread.fieldSet, decide_eq_true_eq] at hset
      rw [hread.fieldData_host hset]
      exact u16_eq_iff.mpr (hfits hset)
  have hred : (0 < urlLen isConnect url .host →
      FieldData.Fits ⟨urlOff isConnect url .host, urlLen isConnect url .host⟩) →
        Reduces u (trueField isConnect url) := by
    intro hfits
    rcases Nat.eq_zero_or_pos (urlLen isConnect url .host) with hzero | hpos
    · exact hnone hzero
    · exact hsome hpos (hfits hpos)
  constructor
  · intro he
    have hfits := hscan.mp he.scan
    exact ⟨hfits, (hred hfits).exact_iff.mp he.fields⟩
  · intro hf
    have hr := hred hf.authority
    exact ⟨hr.set, hr.exact_iff.mpr hf.fields, hscan.mpr hf.authority⟩

/-- No assertion of the URL parser fails, whatever the length of the URL; and for a URL that it
accepts, all positions are right, and the host pass scans the authority, exactly if the authority
and the fields have positions that 16 bits can hold. -/
theorem url_positions_exact_iff (url : List UInt8) (isConnect : Bool) (u₀ : ParserUrl) :
    (∀ e, parseUrl url isConnect u₀ ≠ .error e) ∧
      ∀ u, parseUrl url isConnect u₀ = .ok (0, u) →
        (Exact url isConnect u₀ u ↔ Fits isConnect url) := by
  refine ⟨fun e he => ?_, fun u hparse => ?_⟩
  · obtain ⟨rc, u, hu, -⟩ := parseUrl_outcome url isConnect u₀
    cases he.symm.trans hu
  · cases outcome_of_parseUrl hparse with
    | path hl hhost =>
      exact exact_iff_fits hl (fun _ => hl.reduces_of_no_host hhost)
        fun hpos => absurd hhost hpos.ne'
    | host hu hacc =>
      exact exact_iff_fits hu.toUrlRead (fun hzero => absurd hzero hu.pos.ne')
        fun _ hfits => hu.reduces hacc hfits
    | hostPort hu hacc =>
      have hreduces := fun hfits => hu.reduces hacc hfits
      exact exact_iff_fits hu.toUrlRead (fun hzero => absurd hzero hu.pos.ne')
        fun _ hfits => ⟨(hreduces hfits).set, (hreduces hfits).fields⟩

theorem url_positions_exact_short : ∃ u,
    parseUrl (ascii "http://b:8/c") false ParserUrl.init = .ok (0, u) ∧
      Exact (ascii "http://b:8/c") false ParserUrl.init u := by
  obtain ⟨u, hu⟩ : ∃ u, parseUrl (ascii "http://b:8/c") false ParserUrl.init = .ok (0, u) :=
    ⟨_, rfl⟩
  refine ⟨u, hu, ((url_positions_exact_iff _ _ _).2 u hu).mpr ⟨fun _ => ⟨?_, ?_⟩, fun uf _ => ?_⟩⟩
  · decide
  · decide
  · cases uf <;> exact ⟨by decide, by decide⟩

/-- A path that is a slash and `n` further bytes. -/
def longPath (n : ℕ) : List UInt8 := chr '/' :: List.replicate n (chr 'a')

private theorem states_path_replicate (n : ℕ) :
    states parseUrlChar .dead .path (List.replicate n (chr 'a')) = List.replicate n .path := by
  induction n with
  | zero => rfl
  | succ n ih =>
    have hnext : parseUrlChar .path (chr 'a') = .path := by decide
    rw [List.replicate_succ, states_cons (by rw [hnext]; decide), hnext, ih]
    rfl

private theorem urlStates_longPath (n : ℕ) :
    urlStates false (longPath n) = List.replicate (n + 1) .path := by
  have hnext : parseUrlChar .spacesBeforeUrl (chr '/') = .path := by decide
  have hstart : UrlState.start false = .spacesBeforeUrl := rfl
  rw [urlStates, longPath, hstart, states_cons (by rw [hnext]; decide), hnext,
    states_path_replicate]
  rfl

private theorem urlLen_longPath (n : ℕ) (uf : UrlField) :
    urlLen false (longPath n) uf = if UrlField.path = uf then n + 1 else 0 := by
  rw [urlLen, urlStates_longPath, occ_replicate]
  cases uf <;> rfl

private theorem urlLive_longPath (n : ℕ) : UrlLive false (longPath n) := by
  have hlen := congrArg List.length (urlStates_longPath n)
  rw [List.length_replicate] at hlen
  exact hlen.trans (by simp [longPath])

/-- A URL that is read as a path is accepted. -/
theorem parseUrl_of_path (hlive : UrlLive false url) (hne : url ≠ [])
    (hschema : urlLen false url .schema = 0) (hhost : urlLen false url .host = 0)
    (u₀ : ParserUrl) :
    ∃ l : UrlLoop, parseUrl url false u₀ = .ok (0, l.u) ∧ UrlRead url false u₀ l := by
  obtain ⟨rc, u, hparse, hout⟩ := parseUrl_outcome url false u₀
  cases hout with
  | empty h => exact absurd h hne
  | refused _ h => exact absurd hlive h
  | noHost _ _ h =>
    rcases h with h | h
    · exact absurd hschema h.ne'
    · cases h
  | hostRefused hu => exact absurd hhost hu.pos.ne'
  | notConnect hu => exact absurd hhost hu.pos.ne'
  | portRefused hu => exact absurd hhost hu.pos.ne'
  | host hu => exact absurd hhost hu.pos.ne'
  | hostPort hu => exact absurd hhost hu.pos.ne'
  | path hl => exact ⟨_, hparse, hl⟩

/-- A path of any length is accepted; its length is stored in 16 bits. -/
theorem parseUrl_longPath (n : ℕ) (u₀ : ParserUrl) :
    ∃ u, parseUrl (longPath n) false u₀ = .ok (0, u) ∧ u.fieldSet .path = true ∧
      trueField false (longPath n) .path = ⟨0, n + 1⟩ ∧ u.fieldData .path = ⟨0, u16 (n + 1)⟩ := by
  have hpath : urlLen false (longPath n) .path = n + 1 := urlLen_longPath n .path
  have hpos : 0 < urlLen false (longPath n) .path := hpath ▸ Nat.succ_pos n
  have hoff : urlOff false (longPath n) .path = 0 := by
    rw [urlOff, urlStates_longPath, before_replicate]
    rfl
  obtain ⟨l, hparse, hl⟩ := parseUrl_of_path (urlLive_longPath n) (List.cons_ne_nil _ _)
    (urlLen_longPath n .schema) (urlLen_longPath n .host) u₀
  refine ⟨l.u, hparse, ?_, ?_, ?_⟩
  · rw [hl.fieldSet]
    exact decide_eq_true hpos
  · rw [trueField_of_not_inAuthority (by decide), hoff, hpath]
  · rw [hl.reduces.fields .path hpos, hoff, hpath]
    rfl

/-- A path of 65536 bytes is accepted, and its length stored as zero. -/
theorem long_path_wraps : ∃ u, parseUrl (longPath 65535) false ParserUrl.init = .ok (0, u) ∧
    trueField false (longPath 65535) .path = ⟨0, 65536⟩ ∧ u.fieldData .path = ⟨0, 0⟩ ∧
    ¬ Exact (longPath 65535) false ParserUrl.init u := by
  obtain ⟨u, hparse, hset, htrue, hdata⟩ := parseUrl_longPath 65535 ParserUrl.init
  refine ⟨u, hparse, htrue, hdata, fun he => ?_⟩
  have heq := he.fields .path hset
  rw [htrue, hdata] at heq
  cases heq

end CHttp
