import CHttp.Common.UrlOutcome

/-!
# The texts that the URL parser reads

Which texts the two automata read, state by state: each lemma on runs gives the text read from a
state on together with the states gone through. An authority and the part of a URL after it are
put together from their parts by `Authority.render` and `UrlTail.render`, and the parts are found
again by counting states.
-/

namespace CHttp

open RankedRun

/-! ### Slices -/

theorem slice_append_right (x y : List UInt8) (off n : ℕ) :
    slice (x ++ y) (x.length + off) n = slice y off n := by
  rw [slice, slice, ← List.drop_drop, List.drop_left]

theorem slice_append_left (x y : List UInt8) : slice (x ++ y) 0 x.length = x := by
  rw [slice, List.drop_zero, List.take_left]

theorem slice_slice (buf : List UInt8) {base n off len : ℕ} (h : off + len ≤ n) :
    slice (slice buf base n) off len = slice buf (base + off) len := by
  simp only [slice, List.drop_take, List.drop_drop, List.take_take]
  congr 1
  omega

/-! ### Texts of the first automaton -/

/-- A URL from its path on. -/
structure UrlTail where
  path : List UInt8
  question : Bool
  query : List UInt8
  hashes : ℕ
  fragment : List UInt8

namespace UrlTail

/-- The text after the authority. -/
def render (t : UrlTail) : List UInt8 :=
  t.path ++ (if t.question then chr '?' :: t.query else []) ++
    (List.replicate t.hashes (chr '#') ++ t.fragment)

/-- The states that read it. -/
def states (t : UrlTail) : List UrlState :=
  List.replicate t.path.length .path ++
    (if t.question then .queryStringStart :: List.replicate t.query.length .queryString else []) ++
    (List.replicate t.hashes .fragmentStart ++ List.replicate t.fragment.length .fragment)

/-- A part stands after its delimiter. -/
structure Delimited (t : UrlTail) : Prop where
  query : t.question = false → t.query = []
  fragment : t.hashes = 0 → t.fragment = []

variable {t : UrlTail}

theorem rank_of_mem_states {s : UrlState} (h : s ∈ t.states) : 6 ≤ s.rank := by
  obtain ⟨path, question, query, hashes, fragment⟩ := t
  cases question with
  | false =>
    simp only [states, List.mem_append, List.mem_replicate] at h
    rcases h with (⟨-, rfl⟩ | h) | ⟨-, rfl⟩ | ⟨-, rfl⟩
    · decide
    · cases h
    · decide
    · decide
  | true =>
    simp only [states, List.mem_append, List.mem_replicate, if_true, List.mem_cons] at h
    rcases h with (⟨-, rfl⟩ | rfl | ⟨-, rfl⟩) | ⟨-, rfl⟩ | ⟨-, rfl⟩
    all_goals decide

theorem occ_states_of_lt {r : ℕ} (h : r < 6) : occ UrlState.rank t.states r = 0 :=
  occ_eq_zero_iff.mpr fun _ hs heq => absurd (heq ▸ rank_of_mem_states hs) (Nat.not_le_of_gt h)

theorem before_states_of_le {r : ℕ} (h : r ≤ 6) : before UrlState.rank t.states r = 0 :=
  before_eq_zero_iff.mpr fun _ hs => h.trans (rank_of_mem_states hs)

theorem slice_path (t : UrlTail) :
    slice t.render (before UrlState.rank t.states 6) (occ UrlState.rank t.states 6) = t.path := by
  obtain ⟨path, question, query, hashes, fragment⟩ := t
  cases question <;> simp [states, render, UrlState.rank, slice]

theorem slice_query (h : t.Delimited) :
    slice t.render (before UrlState.rank t.states 8) (occ UrlState.rank t.states 8) = t.query := by
  obtain ⟨path, question, query, hashes, fragment⟩ := t
  cases question with
  | false =>
    obtain rfl : query = [] := h.query rfl
    simp [states, UrlState.rank, slice]
  | true =>
    simp [states, render, UrlState.rank, slice]

theorem slice_fragment (t : UrlTail) :
    slice t.render (before UrlState.rank t.states 10) (occ UrlState.rank t.states 10) =
      t.fragment := by
  obtain ⟨path, question, query, hashes, fragment⟩ := t
  cases question <;> simp [states, render, UrlState.rank, slice]

end UrlTail

section UrlRuns

open UrlState

variable {bs : List UInt8} {ss : List UrlState} {s : UrlState}

private theorem run_fragment (h : Run Step .fragment bs ss) :
    ss = List.replicate bs.length .fragment := by
  induction bs generalizing ss with
  | nil =>
    cases h
    rfl
  | cons b bs ih =>
    cases h with
    | cons hstep hrun =>
      obtain rfl := hstep.of_fragment
      rw [ih hrun]
      rfl

/-- The hashes before a fragment are delimiters, however many there are. -/
theorem run_fragmentStart (h : Run Step .fragmentStart bs ss) :
    ∃ hashes fragment, bs = List.replicate hashes (chr '#') ++ fragment ∧
      ss = List.replicate hashes .fragmentStart ++ List.replicate fragment.length .fragment := by
  induction bs generalizing ss with
  | nil =>
    cases h
    exact ⟨0, [], rfl, rfl⟩
  | cons b bs ih =>
    cases h with
    | cons hstep hrun =>
      obtain ⟨rfl, rfl⟩ | rfl := hstep.of_fragmentStart
      · obtain ⟨hashes, fragment, rfl, rfl⟩ := ih hrun
        exact ⟨hashes + 1, fragment, rfl, rfl⟩
      · exact ⟨0, b :: bs, rfl, by rw [run_fragment hrun]; rfl⟩

/-- A query goes to the first hash. -/
theorem run_query (hs : s.InQuery) (h : Run Step s bs ss) :
    ∃ query hashes fragment, (hashes = 0 → fragment = []) ∧
      bs = query ++ (List.replicate hashes (chr '#') ++ fragment) ∧
      ss = List.replicate query.length .queryString ++
        (List.replicate hashes .fragmentStart ++ List.replicate fragment.length .fragment) := by
  induction bs generalizing s ss with
  | nil =>
    cases h
    exact ⟨[], 0, [], fun _ => rfl, rfl, rfl⟩
  | cons b bs ih =>
    cases h with
    | cons hstep hrun =>
      obtain rfl | ⟨rfl, rfl⟩ := hstep.of_query hs
      · obtain ⟨query, hashes, fragment, hdelim, rfl, rfl⟩ := ih (Or.inr rfl) hrun
        exact ⟨b :: query, hashes, fragment, hdelim, rfl, rfl⟩
      · obtain ⟨hashes, fragment, rfl, rfl⟩ := run_fragmentStart hrun
        exact ⟨[], hashes + 1, fragment, fun h0 => absurd h0 (Nat.succ_ne_zero _), rfl, rfl⟩

/-- The first question mark after an authority or a path starts a query. -/
theorem run_question (h : Run Step .queryStringStart bs ss) :
    ∃ t : UrlTail, t.Delimited ∧ chr '?' :: bs = t.render ∧ .queryStringStart :: ss = t.states := by
  obtain ⟨query, hashes, fragment, hdelim, rfl, rfl⟩ := run_query (Or.inl rfl) h
  exact ⟨⟨[], true, query, hashes, fragment⟩, ⟨fun h0 => absurd h0 Bool.noConfusion, hdelim⟩,
    rfl, rfl⟩

private theorem run_path (h : Run Step .path bs ss) :
    ∃ t : UrlTail, t.Delimited ∧ bs = t.render ∧ ss = t.states := by
  induction bs generalizing ss with
  | nil =>
    cases h
    exact ⟨⟨[], false, [], 0, []⟩, ⟨fun _ => rfl, fun _ => rfl⟩, rfl, rfl⟩
  | cons b bs ih =>
    cases h with
    | cons hstep hrun =>
      obtain rfl | ⟨rfl, rfl⟩ | ⟨rfl, rfl⟩ := hstep.of_path
      · obtain ⟨t, hdelim, rfl, rfl⟩ := ih hrun
        exact ⟨{ t with path := b :: t.path }, ⟨hdelim.query, hdelim.fragment⟩, rfl, rfl⟩
      · exact run_question hrun
      · obtain ⟨hashes, fragment, rfl, rfl⟩ := run_fragmentStart hrun
        exact ⟨⟨[], false, [], hashes + 1, fragment⟩,
          ⟨fun _ => rfl, fun h0 => absurd h0 (Nat.succ_ne_zero _)⟩, rfl, rfl⟩

/-- An authority goes to the first slash or question mark. -/
theorem run_server (hs : s.InServer) (h : Run Step s bs ss) :
    ∃ authority servers, ∃ t : UrlTail, t.Delimited ∧ bs = authority ++ t.render ∧
      ss = servers ++ t.states ∧ servers.length = authority.length ∧
      ∀ t ∈ servers, t.rank = 5 := by
  induction bs generalizing s ss with
  | nil =>
    cases h
    exact ⟨[], [], ⟨[], false, [], 0, []⟩, ⟨fun _ => rfl, fun _ => rfl⟩, rfl, rfl, rfl, by simp⟩
  | cons b bs ih =>
    cases h with
    | @cons _ s' _ _ _ hstep hrun =>
      obtain ⟨hs', hrank⟩ | rfl | ⟨rfl, rfl⟩ := hstep.of_server hs
      · obtain ⟨authority, servers, t, hdelim, rfl, rfl, hlen, hall⟩ := ih hs' hrun
        refine ⟨b :: authority, s' :: servers, t, hdelim, rfl, rfl, congrArg (· + 1) hlen, ?_⟩
        exact List.forall_mem_cons.mpr ⟨hrank, hall⟩
      · obtain ⟨t, hdelim, rfl, rfl⟩ := run_path hrun
        exact ⟨[], [], { t with path := b :: t.path }, ⟨hdelim.query, hdelim.fragment⟩, rfl, rfl,
          rfl, by simp⟩
      · obtain ⟨t, hdelim, hbs, hss⟩ := run_question hrun
        exact ⟨[], [], t, hdelim, hbs, hss, rfl, by simp⟩

/-- A scheme is followed by `://`, if anything but delimiters is to come. -/
theorem run_schema (h : Run Step .schema bs ss) (hhost : 0 < occ UrlState.rank ss 5) :
    ∃ scheme authority servers, ∃ t : UrlTail, t.Delimited ∧
      bs = scheme ++ (ascii "://" ++ (authority ++ t.render)) ∧
      ss = List.replicate scheme.length .schema ++
        ([.schemaSlash, .schemaSlashSlash, .serverStart] ++ (servers ++ t.states)) ∧
      servers.length = authority.length ∧ (∀ t ∈ servers, t.rank = 5) ∧
      ∀ c ∈ scheme, isAlpha c = true := by
  induction bs generalizing ss with
  | nil =>
    cases h
    exact absurd hhost (Nat.lt_irrefl _)
  | cons b bs ih =>
    cases h with
    | cons hstep hrun =>
      obtain ⟨hb, rfl⟩ | ⟨rfl, rfl⟩ := hstep.of_schema
      · rw [occ_cons] at hhost
        obtain ⟨scheme, authority, servers, t, hdelim, rfl, rfl, hlen, hall, halpha⟩ :=
          ih hrun hhost
        exact ⟨b :: scheme, authority, servers, t, hdelim, rfl, rfl, hlen, hall,
          List.forall_mem_cons.mpr ⟨hb, halpha⟩⟩
      · cases hrun with
        | nil => exact absurd hhost (by decide)
        | cons hstep hrun =>
          obtain ⟨rfl, rfl⟩ := hstep.of_schemaSlash
          cases hrun with
          | nil => exact absurd hhost (by decide)
          | cons hstep hrun =>
            obtain ⟨rfl, rfl⟩ := hstep.of_schemaSlashSlash
            obtain ⟨authority, servers, t, hdelim, rfl, rfl, hlen, hall⟩ :=
              run_server (Or.inl rfl) hrun
            exact ⟨[], authority, servers, t, hdelim, rfl, rfl, hlen, hall, by simp⟩

/-- A URL without a scheme is a path and what follows it. -/
theorem url_of_path {url : List UInt8} (hlive : UrlLive false url)
    (hschema : urlLen false url .schema = 0) :
    ∃ t : UrlTail, t.Delimited ∧ url = t.render ∧ urlStates false url = t.states := by
  have hrun : Run Step .spacesBeforeUrl url (urlStates false url) :=
    hlive.run fun _ _ => step_of_ne_dead
  rw [urlLen] at hschema
  generalize urlStates false url = ss at hrun hschema
  cases hrun with
  | nil => exact ⟨⟨[], false, [], 0, []⟩, ⟨fun _ => rfl, fun _ => rfl⟩, rfl, rfl⟩
  | @cons _ _ b _ _ hstep hrun =>
    obtain rfl | ⟨-, rfl⟩ := hstep.of_spacesBeforeUrl
    · obtain ⟨t, hdelim, rfl, rfl⟩ := run_path hrun
      exact ⟨{ t with path := b :: t.path }, ⟨hdelim.query, hdelim.fragment⟩, rfl, rfl⟩
    · rw [occ_cons] at hschema
      exact absurd hschema (Nat.succ_ne_zero _)

/-- A URL with an authority: the scheme before it and what follows it. -/
theorem url_of_host {url : List UInt8} (hlive : UrlLive false url)
    (hpos : 0 < urlLen false url .host) :
    ∃ scheme authority servers, ∃ t : UrlTail, t.Delimited ∧ scheme ≠ [] ∧
      url = scheme ++ (ascii "://" ++ (authority ++ t.render)) ∧
      urlStates false url = List.replicate scheme.length .schema ++
        ([.schemaSlash, .schemaSlashSlash, .serverStart] ++ (servers ++ t.states)) ∧
      servers.length = authority.length ∧ (∀ t ∈ servers, t.rank = 5) ∧
      ∀ c ∈ scheme, isAlpha c = true := by
  have hrun : Run Step .spacesBeforeUrl url (urlStates false url) :=
    hlive.run fun _ _ => step_of_ne_dead
  rw [urlLen] at hpos
  generalize urlStates false url = ss at hrun hpos
  cases hrun with
  | nil => exact absurd hpos (Nat.lt_irrefl _)
  | @cons _ _ b _ _ hstep hrun =>
    rw [occ_cons] at hpos
    obtain rfl | ⟨hb, rfl⟩ := hstep.of_spacesBeforeUrl
    · obtain ⟨t, -, rfl, rfl⟩ := run_path hrun
      -- no authority is read after a path
      obtain ⟨s, hs, hrank⟩ := occ_pos_iff.mp hpos
      have := UrlTail.rank_of_mem_states hs
      exact absurd (hrank ▸ this) (by decide)
    · obtain ⟨scheme, authority, servers, t, hdelim, rfl, rfl, hlen, hall, halpha⟩ :=
        run_schema hrun hpos
      exact ⟨b :: scheme, authority, servers, t, hdelim, List.cons_ne_nil _ _, rfl, rfl, hlen, hall,
        List.forall_mem_cons.mpr ⟨hb, halpha⟩⟩

/-- A URL with an authority, and how its parts are counted. -/
structure HostUrl (url scheme authority : List UInt8) (t : UrlTail) : Prop where
  eq : url = scheme ++ (ascii "://" ++ (authority ++ t.render))
  scheme_ne : scheme ≠ []
  isAlpha : ∀ c ∈ scheme, isAlpha c = true
  delimited : t.Delimited
  schema_off : urlOff false url .schema = 0
  schema_len : urlLen false url .schema = scheme.length
  host_off : urlOff false url .host = (scheme ++ ascii "://").length
  host_len : urlLen false url .host = authority.length
  tail_off : ∀ uf : UrlField, 6 ≤ uf.rank → urlOff false url uf =
    (scheme ++ (ascii "://" ++ authority)).length + before UrlState.rank t.states uf.rank
  tail_len : ∀ uf : UrlField, 6 ≤ uf.rank →
    urlLen false url uf = occ UrlState.rank t.states uf.rank

theorem exists_hostUrl {url : List UInt8} (hlive : UrlLive false url)
    (hpos : 0 < urlLen false url .host) : ∃ scheme authority t, HostUrl url scheme authority t := by
  obtain ⟨scheme, authority, servers, t, hdelim, hne, hurl, hss, hlen, hall, halpha⟩ :=
    url_of_host hlive hpos
  have hocc := fun r => occ_of_forall (r := r) hall
  have hbefore := fun r => before_of_forall (r := r) hall
  refine ⟨scheme, authority, t, hurl, hne, halpha, hdelim, ?_, ?_, ?_, ?_, fun uf huf => ?_,
    fun uf huf => ?_⟩
  · rw [urlOff, hss]
    simp [UrlState.rank, UrlField.rank, hbefore, UrlTail.before_states_of_le]
  · rw [urlLen, hss]
    simp [UrlState.rank, UrlField.rank, hocc, UrlTail.occ_states_of_lt]
  · rw [urlOff, hss]
    simp [UrlState.rank, UrlField.rank, hbefore, UrlTail.before_states_of_le, ascii]
  · rw [urlLen, hss]
    simp [UrlState.rank, UrlField.rank, hocc, hlen, UrlTail.occ_states_of_lt]
  · rw [urlOff, hss]
    have h1 : 1 < uf.rank := by omega
    have h2 : 2 < uf.rank := by omega
    have h3 : 3 < uf.rank := by omega
    have h4 : 4 < uf.rank := by omega
    have h5 : 5 < uf.rank := by omega
    simp [UrlState.rank, hbefore, hlen, ascii, h1, h2, h3, h4, h5]
    omega
  · rw [urlLen, hss]
    have h1 : 1 ≠ uf.rank := by omega
    have h2 : 2 ≠ uf.rank := by omega
    have h3 : 3 ≠ uf.rank := by omega
    have h4 : 4 ≠ uf.rank := by omega
    have h5 : 5 ≠ uf.rank := by omega
    simp [UrlState.rank, hocc, h1, h2, h3, h4, h5]

end UrlRuns

/-! ### Texts of the second automaton -/

/-- An authority. A port is there if it is not empty. -/
structure Authority where
  atSign : Bool
  userinfo : List UInt8
  ipv6 : Bool
  host : List UInt8
  port : List UInt8

namespace Authority

/-- The text of an authority. -/
def render (a : Authority) : List UInt8 :=
  (if a.atSign then a.userinfo ++ [chr '@'] else []) ++
    ((if a.ipv6 then [chr '['] else []) ++ (a.host ++ ((if a.ipv6 then [chr ']'] else []) ++
      if a.port = [] then [] else chr ':' :: a.port)))

/-- The states that read it; those for the host are of one rank. -/
def states (a : Authority) (hosts : List HostState) : List HostState :=
  (if a.atSign then List.replicate a.userinfo.length .userinfo ++ [.hostStart] else []) ++
    ((if a.ipv6 then [.v6Start] else []) ++ (hosts ++ ((if a.ipv6 then [.v6End] else []) ++
      if a.port = [] then [] else .portStart :: List.replicate a.port.length .port)))

/-- What is read before an authority may end. -/
structure WellFormed (a : Authority) : Prop where
  userinfo : a.atSign = false → a.userinfo = []
  host : a.host ≠ []
  port : ∀ c ∈ a.port, isNum c = true

variable {a : Authority} {hosts : List HostState}

theorem slice_userinfo (h : a.WellFormed) (hall : ∀ t ∈ hosts, t.rank = 4) :
    slice a.render (before HostState.rank (a.states hosts) 1)
      (occ HostState.rank (a.states hosts) 1) = a.userinfo := by
  obtain ⟨atSign, userinfo, ipv6, host, port⟩ := a
  have hocc := occ_of_forall (r := 1) hall
  have hbefore := before_of_forall (r := 1) hall
  cases atSign with
  | false =>
    obtain rfl : userinfo = [] := h.userinfo rfl
    cases ipv6 <;> by_cases hport : port = [] <;>
      simp [states, HostState.rank, slice, hport, hocc]
  | true =>
    cases ipv6 <;> by_cases hport : port = [] <;>
      simp [states, render, HostState.rank, slice, hport, hocc, hbefore]

theorem slice_host (hlen : hosts.length = a.host.length) (hall : ∀ t ∈ hosts, t.rank = 4) :
    slice a.render (before HostState.rank (a.states hosts) 4)
      (occ HostState.rank (a.states hosts) 4) = a.host := by
  obtain ⟨atSign, userinfo, ipv6, host, port⟩ := a
  have hocc := occ_of_forall (r := 4) hall
  have hbefore := before_of_forall (r := 4) hall
  cases atSign <;> cases ipv6 <;> by_cases hport : port = [] <;>
    simp [states, render, HostState.rank, slice, hport, hocc, hbefore, hlen]

theorem slice_port (hlen : hosts.length = a.host.length) (hall : ∀ t ∈ hosts, t.rank = 4) :
    slice a.render (before HostState.rank (a.states hosts) 7)
      (occ HostState.rank (a.states hosts) 7) = a.port := by
  obtain ⟨atSign, userinfo, ipv6, host, port⟩ := a
  have hocc := occ_of_forall (r := 7) hall
  have hbefore := before_of_forall (r := 7) hall
  by_cases hport : port = []
  · cases atSign <;> cases ipv6 <;> simp [states, HostState.rank, slice, hport, hocc]
  · cases atSign <;> cases ipv6 <;>
      simp [states, render, HostState.rank, slice, hport, hocc, hbefore, hlen]

end Authority

section HostRuns

open HostState

variable {bs : List UInt8} {ss : List HostState} {s : HostState}

private theorem run_port (hs : s.InPort) (h : Run Step s bs ss) :
    ss = List.replicate bs.length .port ∧ ∀ c ∈ bs, isNum c = true := by
  induction bs generalizing s ss with
  | nil =>
    cases h
    exact ⟨rfl, by simp⟩
  | cons b bs ih =>
    cases h with
    | cons hstep hrun =>
      obtain ⟨hb, rfl⟩ := hstep.of_port hs
      obtain ⟨rfl, hall⟩ := ih (Or.inr rfl) hrun
      exact ⟨rfl, List.forall_mem_cons.mpr ⟨hb, hall⟩⟩

/-- A colon is followed by digits, or the scan does not end well. -/
theorem run_portStart (h : Run Step .portStart bs ss)
    (hfinal : (ss.getLastD .portStart).final = true) :
    bs ≠ [] ∧ ss = List.replicate bs.length .port ∧ ∀ c ∈ bs, isNum c = true := by
  refine ⟨?_, run_port (Or.inl rfl) h⟩
  rintro rfl
  cases h
  exact absurd hfinal (by decide)

/-- After a closing bracket. -/
theorem run_v6End (h : Run Step .v6End bs ss) (hfinal : (ss.getLastD .v6End).final = true) :
    ∃ port, (∀ c ∈ port, isNum c = true) ∧ bs = (if port = [] then [] else chr ':' :: port) ∧
      ss = if port = [] then [] else .portStart :: List.replicate port.length .port := by
  cases h with
  | nil => exact ⟨[], by simp, rfl, rfl⟩
  | cons hstep hrun =>
    rw [List.getLastD_cons] at hfinal
    obtain ⟨rfl, rfl⟩ := hstep.of_v6End
    obtain ⟨hne, rfl, hnum⟩ := run_portStart hrun hfinal
    exact ⟨_, hnum, (if_neg hne).symm, (if_neg hne).symm⟩

/-- A host name goes to the end or to a colon. -/
theorem run_host (h : Run Step .host bs ss) (hfinal : (ss.getLastD .host).final = true) :
    ∃ host port, (∀ c ∈ port, isNum c = true) ∧
      bs = host ++ (if port = [] then [] else chr ':' :: port) ∧
      ss = List.replicate host.length .host ++
        if port = [] then [] else .portStart :: List.replicate port.length .port := by
  induction bs generalizing ss with
  | nil =>
    cases h
    exact ⟨[], [], by simp, rfl, rfl⟩
  | cons b bs ih =>
    cases h with
    | cons hstep hrun =>
      rw [List.getLastD_cons] at hfinal
      obtain rfl | ⟨rfl, rfl⟩ := hstep.of_host
      · obtain ⟨host, port, hnum, rfl, rfl⟩ := ih hrun hfinal
        exact ⟨b :: host, port, hnum, rfl, rfl⟩
      · obtain ⟨hne, rfl, hnum⟩ := run_portStart hrun hfinal
        exact ⟨[], bs, hnum, (if_neg hne).symm, (if_neg hne).symm⟩

/-- An address goes to the closing bracket. -/
theorem run_v6 (hs : s.InV6) (h : Run Step s bs ss) (hfinal : (ss.getLastD s).final = true) :
    ∃ host hosts port, (∀ c ∈ port, isNum c = true) ∧ hosts.length = host.length ∧
      (∀ t ∈ hosts, t.rank = 4) ∧
      bs = host ++ (chr ']' :: if port = [] then [] else chr ':' :: port) ∧
      ss = hosts ++ (.v6End ::
        if port = [] then [] else .portStart :: List.replicate port.length .port) := by
  induction bs generalizing s ss with
  | nil =>
    cases h
    obtain rfl | rfl | rfl := hs <;> exact absurd hfinal (by decide)
  | cons b bs ih =>
    cases h with
    | @cons _ s' _ _ _ hstep hrun =>
      rw [List.getLastD_cons] at hfinal
      obtain ⟨hs', hrank⟩ | ⟨rfl, rfl⟩ := hstep.of_v6 hs
      · obtain ⟨host, hosts, port, hnum, hlen, hall, rfl, rfl⟩ := ih hs' hrun hfinal
        exact ⟨b :: host, s' :: hosts, port, hnum, congrArg (· + 1) hlen,
          List.forall_mem_cons.mpr ⟨hrank, hall⟩, rfl, rfl⟩
      · obtain ⟨port, hnum, rfl, rfl⟩ := run_v6End hrun hfinal
        exact ⟨[], [], port, hnum, rfl, by simp, rfl, rfl⟩

theorem run_hostStart (h : Run Step .hostStart bs ss)
    (hfinal : (ss.getLastD .hostStart).final = true) :
    ∃ a : Authority, ∃ hosts, a.atSign = false ∧ a.WellFormed ∧ bs = a.render ∧
      ss = a.states hosts ∧ hosts.length = a.host.length ∧ ∀ t ∈ hosts, t.rank = 4 := by
  cases h with
  | nil => exact absurd hfinal (by decide)
  | @cons _ _ b _ _ hstep hrun =>
    rw [List.getLastD_cons] at hfinal
    obtain rfl | ⟨rfl, rfl⟩ := hstep.of_hostStart
    · obtain ⟨host, port, hnum, rfl, rfl⟩ := run_host hrun hfinal
      refine ⟨⟨false, [], false, b :: host, port⟩, List.replicate (host.length + 1) .host, rfl,
        ⟨fun _ => rfl, List.cons_ne_nil _ _, hnum⟩, rfl, rfl, by simp, ?_⟩
      intro t ht
      rw [List.eq_of_mem_replicate ht]
      rfl
    · cases hrun with
      | nil => exact absurd hfinal (by decide)
      | @cons _ _ c _ _ hstep hrun =>
        rw [List.getLastD_cons] at hfinal
        obtain rfl := hstep.of_v6Start
        obtain ⟨host, hosts, port, hnum, hlen, hall, rfl, rfl⟩ := run_v6 (Or.inl rfl) hrun hfinal
        exact ⟨⟨false, [], true, c :: host, port⟩, .v6 :: hosts, rfl,
          ⟨fun _ => rfl, List.cons_ne_nil _ _, hnum⟩, rfl, rfl, congrArg (· + 1) hlen,
          List.forall_mem_cons.mpr ⟨rfl, hall⟩⟩

/-- User information goes to the first at sign. -/
theorem run_userinfo (hs : s.InUserinfo) (h : Run Step s bs ss)
    (hfinal : (ss.getLastD s).final = true) :
    ∃ a : Authority, ∃ hosts, a.atSign = true ∧ a.WellFormed ∧ bs = a.render ∧
      ss = a.states hosts ∧ hosts.length = a.host.length ∧ ∀ t ∈ hosts, t.rank = 4 := by
  induction bs generalizing s ss with
  | nil =>
    cases h
    obtain rfl | rfl := hs <;> exact absurd hfinal (by decide)
  | cons b bs ih =>
    cases h with
    | cons hstep hrun =>
      rw [List.getLastD_cons] at hfinal
      obtain rfl | ⟨rfl, rfl⟩ := hstep.of_userinfo hs
      · obtain ⟨a, hosts, hat, hwf, rfl, rfl, hlen, hall⟩ := ih (Or.inr rfl) hrun hfinal
        refine ⟨{ a with userinfo := b :: a.userinfo }, hosts, hat,
          ⟨fun h0 => absurd (hat.symm.trans h0) Bool.noConfusion, hwf.host, hwf.port⟩, ?_, ?_,
          hlen, hall⟩
        · simp [Authority.render, hat]
        · simp [Authority.states, hat, List.replicate_succ]
      · obtain ⟨a, hosts, hat, hwf, rfl, rfl, hlen, hall⟩ := run_hostStart hrun hfinal
        refine ⟨{ a with atSign := true, userinfo := [] }, hosts, rfl,
          ⟨fun _ => rfl, hwf.host, hwf.port⟩, ?_, ?_, hlen, hall⟩
        · simp [Authority.render, hat]
        · simp [Authority.states, hat]

/-- An authority that is accepted. -/
theorem authority_of_accepts {foundAt : Bool} (h : HostAccepts foundAt bs) :
    ∃ a : Authority, ∃ hosts, a.WellFormed ∧ bs = a.render ∧
      hostStates foundAt bs = a.states hosts ∧ hosts.length = a.host.length ∧
      ∀ t ∈ hosts, t.rank = 4 := by
  obtain ⟨hlive, hfinal⟩ := h
  have hrun := hlive.run fun _ _ => HostState.step_of_ne_dead
  cases foundAt with
  | false =>
    obtain ⟨a, hosts, -, h⟩ := run_hostStart hrun hfinal
    exact ⟨a, hosts, h⟩
  | true =>
    obtain ⟨a, hosts, -, h⟩ := run_userinfo (Or.inl rfl) hrun hfinal
    exact ⟨a, hosts, h⟩

end HostRuns

end CHttp
