import CHttp.Common.UrlReading

/-!
# Accepted URLs are the grammatical ones

A text of at most 65535 bytes is accepted by `c_http_parser_parse_url` exactly if it is grammatical
parts put together (`url_accepted_iff`). The parts are unique, and they are what `Url_new` stores:
parsing takes apart what putting together made (`url_round_trip`).
-/

namespace CHttp

open RankedRun

namespace UrlParts

variable {p : UrlParts} {servers : List UrlState}

/-- The states of the first automaton over the parts put together. -/
def states (p : UrlParts) (servers : List UrlState) : List UrlState :=
  (if p.scheme = [] then []
    else List.replicate p.scheme.length .schema ++
      [.schemaSlash, .schemaSlashSlash, .serverStart]) ++
    (servers ++ p.tail.states)

/-- How many states there are for the parts before the path, and where the path starts. -/
theorem states_counts (hlen : servers.length = p.authority.render.length)
    (hrank : ∀ t ∈ servers, t.rank = 5) :
    occ UrlState.rank (p.states servers) 1 = p.scheme.length ∧
      before UrlState.rank (p.states servers) 1 = 0 ∧
      occ UrlState.rank (p.states servers) 5 = p.authority.render.length ∧
      before UrlState.rank (p.states servers) 5 =
        (if p.scheme = [] then [] else p.scheme ++ ascii "://").length ∧
      (∀ r, 6 ≤ r → occ UrlState.rank (p.states servers) r = occ UrlState.rank p.tail.states r) ∧
      ∀ r, 6 ≤ r → before UrlState.rank (p.states servers) r =
        ((if p.scheme = [] then [] else p.scheme ++ ascii "://") ++ p.authority.render).length +
          before UrlState.rank p.tail.states r := by
  have hocc := fun r => occ_of_forall (r := r) hrank
  have hbefore := fun r => before_of_forall (r := r) hrank
  refine ⟨?_, ?_, ?_, ?_, fun r hr => ?_, fun r hr => ?_⟩
  · by_cases hs : p.scheme = [] <;>
      simp [states, hs, UrlState.rank, hocc, UrlTail.occ_states_of_lt]
  · by_cases hs : p.scheme = [] <;>
      simp [states, hs, UrlState.rank, hbefore, UrlTail.before_states_of_le]
  · by_cases hs : p.scheme = [] <;>
      simp [states, hs, UrlState.rank, hocc, hlen, UrlTail.occ_states_of_lt]
  · by_cases hs : p.scheme = [] <;>
      simp [states, hs, UrlState.rank, hbefore, UrlTail.before_states_of_le, ascii]
  · have h1 : 1 ≠ r := by omega
    have h2 : 2 ≠ r := by omega
    have h3 : 3 ≠ r := by omega
    have h4 : 4 ≠ r := by omega
    have h5 : 5 ≠ r := by omega
    by_cases hs : p.scheme = [] <;> simp [states, hs, UrlState.rank, hocc, h1, h2, h3, h4, h5]
  · have h1 : 1 < r := by omega
    have h2 : 2 < r := by omega
    have h3 : 3 < r := by omega
    have h4 : 4 < r := by omega
    have h5 : 5 < r := by omega
    by_cases hs : p.scheme = []
    · simp [states, hs, hbefore, hlen, h5]
    · simp [states, hs, UrlState.rank, hbefore, hlen, ascii, h1, h2, h3, h4, h5]
      omega

/-- The first automaton's fields of the parts put together are the parts. -/
theorem slice_states (hlen : servers.length = p.authority.render.length)
    (hrank : ∀ t ∈ servers, t.rank = 5) (hdelim : p.tail.Delimited) {uf : UrlField}
    (huf : ¬ uf.InAuthority) :
    slice p.render (before UrlState.rank (p.states servers) uf.rank)
      (occ UrlState.rank (p.states servers) uf.rank) = p.get uf := by
  obtain ⟨h1, h2, -, -, hocc, hbefore⟩ := states_counts hlen hrank
  have htail : ∀ r, 6 ≤ r → slice p.render (before UrlState.rank (p.states servers) r)
      (occ UrlState.rank (p.states servers) r) =
        slice p.tail.render (before UrlState.rank p.tail.states r)
          (occ UrlState.rank p.tail.states r) := by
    intro r hr
    rw [hocc r hr, hbefore r hr, render, ← List.append_assoc]
    exact slice_append_right _ _ _ _
  cases uf with
  | schema =>
    rw [show UrlField.schema.rank = 1 from rfl, h1, h2, render]
    by_cases hs : p.scheme = []
    · simp [hs, slice, get]
    · rw [if_neg hs, List.append_assoc]
      exact slice_append_left _ _
  | path => exact (htail 6 (by decide)).trans p.tail.slice_path
  | query => exact (htail 8 (by decide)).trans (UrlTail.slice_query hdelim)
  | fragment => exact (htail 10 (by decide)).trans p.tail.slice_fragment
  | host => exact absurd (by decide) huf
  | port => exact absurd (by decide) huf
  | userinfo => exact absurd (by decide) huf

/-- The authority, as the first automaton finds it. -/
theorem slice_authority (hlen : servers.length = p.authority.render.length)
    (hrank : ∀ t ∈ servers, t.rank = 5) :
    slice p.render (before UrlState.rank (p.states servers) 5)
      (occ UrlState.rank (p.states servers) 5) = p.authority.render := by
  obtain ⟨-, -, h5, h5', -⟩ := states_counts hlen hrank
  rw [h5, h5', render]
  conv_lhs => rw [← Nat.add_zero (List.length _)]
  rw [slice_append_right]
  exact slice_append_left _ _

/-- What the first automaton reads, after a scheme. -/
theorem run_scheme_iff (hs : p.scheme ≠ []) (hlen : servers.length = p.authority.render.length)
    (hrank : ∀ t ∈ servers, t.rank = 5) (hdelim : p.tail.Delimited) :
    Run UrlMoves .spacesBeforeUrl p.render (p.states servers) ↔
      (∀ c ∈ p.scheme, isAlpha c = true) ∧ Run UrlMoves .serverStart p.authority.render servers ∧
        p.tail.Grammatical ∧ (p.tail.path = [] ∨ p.tail.path.head? = some (chr '/')) ∧
          (p.tail.path = [] → p.tail.question = false → p.tail.hashes = 0) := by
  have hrender : p.render = p.scheme ++ chr ':' :: chr '/' :: chr '/' ::
      (p.authority.render ++ p.tail.render) := by
    simp [render, hs, ascii, chr]
  have hstates : p.states servers = List.replicate p.scheme.length .schema ++
      .schemaSlash :: .schemaSlashSlash :: .serverStart :: (servers ++ p.tail.states) := by
    simp [states, hs]
  obtain ⟨c, cs, hscheme⟩ := List.exists_cons_of_ne_nil hs
  rw [hrender, hstates, run_append_iff List.length_replicate, run_cons_iff, run_cons_iff,
    run_cons_iff, run_append_iff hlen, UrlTail.run_server_iff (Authority.inServer_getLastD hrank)
    hdelim, hscheme, getLastD_replicate_cons,
    run_cons_replicate_iff (moves_start_schema c) moves_schema, List.forall_mem_cons]
  have hcolon : UrlMoves (chr ':') .schema .schemaSlash := by decide
  have hslash : UrlMoves (chr '/') .schemaSlash .schemaSlashSlash := by decide
  have hslashes : UrlMoves (chr '/') .schemaSlashSlash .serverStart := by decide
  tauto

/-- What the first automaton does with grammatical parts. -/
structure Reads (p : UrlParts) (servers : List UrlState) : Prop where
  length : servers.length = p.authority.render.length
  rank : ∀ t ∈ servers, t.rank = 5
  run : Run UrlMoves .spacesBeforeUrl p.render (p.states servers)
  atSign : UrlState.serverWithAt ∈ servers ↔ p.authority.atSign = true

theorem Grammatical.exists_reads (h : p.Grammatical) : ∃ servers, p.Reads servers := by
  by_cases hs : p.scheme = []
  · have hnone := h.noAuthority hs
    have hne : p.tail.path ≠ [] := by
      intro hnil
      have := h.pathFirst hs
      simp [hnil] at this
    have hrun := (UrlTail.run_start_iff h.tail.toDelimited hne).mpr ⟨h.tail, h.pathFirst hs⟩
    refine ⟨[], by rw [hnone]; rfl, List.forall_mem_nil _, ?_, by simp [hnone, Authority.none]⟩
    simpa [render, states, hs, hnone, Authority.render, Authority.none] using hrun
  · obtain ⟨servers, hserves⟩ := Authority.exists_serves (h.authority hs)
    refine ⟨servers, hserves.length, hserves.rank, ?_, hserves.atSign⟩
    exact (run_scheme_iff hs hserves.length hserves.rank h.tail.toDelimited).mpr
      ⟨h.scheme, hserves.run, h.tail, h.slashFirst hs, h.noFragment hs⟩

/-- A reading is what the automaton does. -/
theorem Reads.urlStates_eq (h : p.Reads servers) :
    UrlLive false p.render ∧ urlStates false p.render = p.states servers :=
  run_moves_iff.mp h.run

private theorem Reads.mem_states_iff (h : p.Reads servers) :
    UrlState.serverWithAt ∈ p.states servers ↔ p.authority.atSign = true := by
  have htail : UrlState.serverWithAt ∉ p.tail.states := fun hmem =>
    absurd (UrlTail.rank_of_mem_states hmem) (by decide)
  by_cases hs : p.scheme = [] <;> simp [states, hs, htail, h.atSign, List.mem_replicate]

end UrlParts

/-! ### The fields of what was read -/

section Fields

variable {url : List UInt8} {u : ParserUrl} {l : UrlLoop} {p : UrlParts} {servers : List UrlState}
  {hosts : List HostState}

/-- What reads an authority that is accepted. -/
theorem Authority.Grammatical.exists_accepts {a : Authority} (h : a.Grammatical) :
    ∃ hosts, hosts.length = a.host.length ∧ (∀ t ∈ hosts, t.rank = 4) ∧
      HostAccepts a.atSign a.render ∧ hostStates a.atSign a.render = a.states hosts := by
  obtain ⟨hosts, hlen, hall, hrun, hfinal⟩ := Authority.exists_run_hostText h
  obtain ⟨hlive, hstates⟩ :=
    run_moves_iff.mp ((Authority.run_states_iff h.userinfo).mpr ⟨h.userinfoChars, hrun⟩)
  refine ⟨hosts, hlen, hall, ⟨hlive, ?_⟩, hstates⟩
  rw [hostStates, hstates]
  cases hat : a.atSign with
  | false =>
    have heq : a.states hosts = a.hostTextStates hosts := by
      simp [Authority.states, Authority.hostTextStates, hat]
    rw [heq]
    exact hfinal
  | true =>
    have heq : a.states hosts = List.replicate a.userinfo.length .userinfo ++
        .hostStart :: a.hostTextStates hosts := by
      simp [Authority.states, Authority.hostTextStates, hat]
    rw [heq, getLastD_append, List.getLastD_cons]
    exact hfinal

theorem UrlParts.Reads.foundAt (h : p.Reads servers)
    (hl : UrlRead p.render false ParserUrl.init l) : l.foundAt = p.authority.atSign := by
  rw [hl.after.foundAt, h.urlStates_eq.2, Bool.eq_iff_iff, decide_eq_true_iff]
  exact h.mem_states_iff

/-- A URL without a scheme. -/
theorem UrlRead.decomposes (h : UrlRead p.render false ParserUrl.init l)
    (hlt : p.render.length < 65536) (hr : p.Reads servers) (hs : p.scheme = [])
    (hwf : p.WellFormed) : Decomposes p.render l.u p := by
  have hnone := hwf.noAuthority hs
  refine ⟨hwf, rfl, fun uf => ?_, h.after.within_text hlt,
    fun uf g hne => h.after.disjoint hlt hne⟩
  rw [h.after.slice_eq hlt uf, urlOff, urlLen]
  by_cases huf : uf.InAuthority
  · have hzero : occ UrlState.rank (urlStates false p.render) uf.rank = 0 := by
      rcases huf with rfl | rfl | rfl
      · exact urlLen_eq_zero (Or.inr rfl)
      · have hcount := (UrlParts.states_counts hr.length hr.rank).2.2.1
        rw [hr.urlStates_eq.2]
        exact hcount.trans (by rw [hnone]; rfl)
      · exact urlLen_eq_zero (Or.inl rfl)
    rw [hzero, slice, List.take_zero]
    rcases huf with rfl | rfl | rfl <;> simp [UrlParts.get, hnone, Authority.none]
  · rw [hr.urlStates_eq.2]
    exact (UrlParts.slice_states hr.length hr.rank hwf.tail huf).symm

private theorem HostRead.scanned_eq_render (h : HostRead p.render false ParserUrl.init l u)
    (hlt : p.render.length < 65536) (hr : p.Reads servers) :
    scanned p.render l.u = p.authority.render := by
  rw [h.scanned_eq hlt, urlOff, urlLen, hr.urlStates_eq.2]
  exact UrlParts.slice_authority hr.length hr.rank

/-- A URL with an authority. -/
theorem HostRead.decomposes (h : HostRead p.render false ParserUrl.init l u)
    (hlt : p.render.length < 65536) (hr : p.Reads servers) (hwf : p.WellFormed)
    (ha : p.authority.WellFormed) (hlen : hosts.length = p.authority.host.length)
    (hall : ∀ t ∈ hosts, t.rank = 4)
    (hstates : hostStates p.authority.atSign p.authority.render = p.authority.states hosts) :
    Decomposes p.render u p := by
  refine ⟨hwf, rfl, fun uf => ?_, h.within_text hlt, fun uf g hne => h.disjoint hlt hne⟩
  by_cases huf : uf.InAuthority
  · rw [h.slice_eq hlt huf, h.scanned_eq_render hlt hr, hr.foundAt h.toUrlRead, hstates]
    rcases huf with rfl | rfl | rfl
    · exact (Authority.slice_userinfo ha hall).symm
    · exact (Authority.slice_host hlen hall).symm
    · exact (Authority.slice_port hlen hall).symm
  · rw [h.fieldData_of_not_inAuthority huf, h.after.slice_eq hlt uf, urlOff, urlLen,
      hr.urlStates_eq.2]
    exact (UrlParts.slice_states hr.length hr.rank hwf.tail huf).symm

end Fields

/-! ### The port -/

/-- The value does not get smaller with the digits. -/
theorem le_of_foldlM {cs : List UInt8} {v w : ℕ}
    (h : cs.foldlM (fun n c => (Http1.digit? c).map (10 * n + ·)) v = some w) : v ≤ w := by
  induction cs generalizing v with
  | nil =>
    cases h
    exact Nat.le_refl _
  | cons c cs ih =>
    rw [List.foldlM_cons] at h
    cases hd : Http1.digit? c with
    | none => simp [hd] at h
    | some d =>
      simp only [hd, Option.map_some, Option.bind_eq_bind, Option.bind_some] at h
      have := ih h
      omega

/-- The loop over the digits does not stop at a port in range. -/
theorem portLoop_of_foldlM {cs : List UInt8} (hcs : ∀ c ∈ cs, isNum c = true) {v w : ℕ}
    (h : cs.foldlM (fun n c => (Http1.digit? c).map (10 * n + ·)) v = some w) (hw : w ≤ 0xffff) :
    portLoop cs v = some w := by
  induction cs generalizing v with
  | nil =>
    cases h
    rfl
  | cons c cs ih =>
    obtain ⟨hc, hcs⟩ := List.forall_mem_cons.mp hcs
    have hdigit : Http1.digit? c = some (c.toNat - 48) := if_pos (isNum_iff.mp hc)
    have hv := (le_of_foldlM h).trans hw
    rw [List.foldlM_cons, hdigit] at h
    simp only [Option.map_some, Option.bind_eq_bind, Option.bind_some] at h
    have hle := (le_of_foldlM h).trans hw
    rw [portLoop_cons hc cs hv, if_neg (Nat.not_lt_of_le hle)]
    exact ih hcs h

private theorem Authority.Grammatical.isSome_portLoop {a : Authority} (h : a.Grammatical) :
    (portLoop a.port 0).isSome = true := by
  by_cases hport : a.port = []
  · rw [hport]
    rfl
  · obtain ⟨v, hv, hnum⟩ := h.portRange hport
    rw [Http1.number?, if_neg hport] at hnum
    rw [portLoop_of_foldlM h.port hnum hv]
    rfl

/-! ### Grammatical parts are accepted -/

theorem UrlParts.Grammatical.wellFormed {p : UrlParts} (h : p.Grammatical) : p.WellFormed :=
  ⟨fun hs => (h.authority hs).toWellFormed, h.noAuthority, h.tail.toDelimited⟩

private theorem UrlParts.Grammatical.render_ne_nil {p : UrlParts} (h : p.Grammatical) :
    p.render ≠ [] := by
  intro hnil
  by_cases hs : p.scheme = []
  · have hfirst := h.pathFirst hs
    simp only [UrlParts.render, hs, if_true, List.nil_append, UrlTail.render,
      List.append_eq_nil_iff] at hnil
    simp [hnil.2.1.1] at hfirst
  · simp [UrlParts.render, hs] at hnil

/-- **Grammatical parts are accepted**, and found again. -/
theorem UrlParts.Grammatical.accepted {p : UrlParts} (h : p.Grammatical)
    (hlt : p.render.length < 65536) :
    ∃ u, parseUrl p.render false ParserUrl.init = .ok (0, u) ∧ Decomposes p.render u p ∧
      PortOf u p.authority.port := by
  obtain ⟨servers, hr⟩ := h.exists_reads
  obtain ⟨hlive, hstates⟩ := hr.urlStates_eq
  obtain ⟨hschema, -, hhost, -⟩ := UrlParts.states_counts hr.length hr.rank
  have hschema' : urlLen false p.render .schema = p.scheme.length := by
    rw [urlLen, hstates]
    exact hschema
  have hhost' : urlLen false p.render .host = p.authority.render.length := by
    rw [urlLen, hstates]
    exact hhost
  -- there is a host exactly if there is a scheme
  have hpos : 0 < urlLen false p.render .host ↔ p.scheme ≠ [] := by
    rw [hhost']
    by_cases hs : p.scheme = []
    · rw [h.noAuthority hs]
      exact iff_of_false (by decide) (not_not_intro hs)
    · refine iff_of_true (List.length_pos_iff.mpr fun hnil => (h.authority hs).host ?_) hs
      simp only [Authority.render, List.append_eq_nil_iff] at hnil
      exact hnil.2.2.1
  -- what the host pass does when there is one
  have hpass : ∀ {l : UrlLoop} {u : ParserUrl}, HostRead p.render false ParserUrl.init l u →
      HostAccepts l.foundAt (scanned p.render l.u) ∧ Decomposes p.render u p := by
    intro l u hu
    have ha := h.authority (hpos.mp hu.pos)
    obtain ⟨hosts, hlen, hall, hacc, hhosts⟩ := ha.exists_accepts
    rw [hu.scanned_eq_render hlt hr, hr.foundAt hu.toUrlRead]
    exact ⟨hacc, hu.decomposes hlt hr h.wellFormed ha.toWellFormed hlen hall hhosts⟩
  obtain ⟨rc, u, heq, hout⟩ := parseUrl_outcome p.render false ParserUrl.init
  cases hout with
  | empty hnil => exact absurd hnil h.render_ne_nil
  | refused _ hno => exact absurd hlive hno
  | noHost _ hzero hor =>
    rcases hor with hor | hor
    · rw [hschema'] at hor
      exact absurd hzero (hpos.mpr (List.length_pos_iff.mp hor)).ne'
    · cases hor
  | hostRefused hu hno => exact absurd (hpass hu).1 hno
  | notConnect _ _ hconn => cases hconn
  | portRefused hu _ _ hnone =>
    rw [← (hpass hu).2.get .port] at hnone
    have hsome := (h.authority (hpos.mp hu.pos)).isSome_portLoop
    exact absurd (hsome.symm.trans (congrArg Option.isSome hnone)) (by decide)
  | @path l hl hzero hnone _ =>
    rw [hschema'] at hnone
    have hs := List.length_eq_zero_iff.mp hnone
    have hport : p.authority.port = [] := by
      rw [h.noAuthority hs]
      rfl
    have hl0 := hl.after.port
    exact ⟨l.u, heq, hl.decomposes hlt hr hs h.wellFormed, by omega, fun _ => hl0,
      fun hne => absurd hport hne⟩
  | @host l u hu _ hport =>
    have hportOf := hu.portOf_of_not_set hlt hport
    rw [← (hpass hu).2.get .port] at hportOf
    exact ⟨u, heq, (hpass hu).2, hportOf⟩
  | @hostPort l u v hu _ hport hv =>
    have hd := (hpass hu).2
    rw [← hd.get .port] at hv
    refine ⟨_, heq, ⟨hd.wellFormed, hd.render, hd.get, hd.within, hd.disjoint⟩, ?_⟩
    exact portOf_of_portLoop (h.authority (hpos.mp hu.pos)).port hv

/-! ### Accepted texts are grammatical -/

section Accepted

variable {url : List UInt8} {u : ParserUrl} {l : UrlLoop}

/-- An authority that is accepted, but for the range of its port. -/
theorem exists_authority_of_accepts {foundAt : Bool} {bs : List UInt8}
    (h : HostAccepts foundAt bs) :
    ∃ a : Authority, ∃ hosts, a.WellFormed ∧ bs = a.render ∧ hosts.length = a.host.length ∧
      (∀ t ∈ hosts, t.rank = 4) ∧ hostStates foundAt bs = a.states hosts ∧
      (∀ c ∈ a.userinfo, isUserinfoChar c = true) ∧ (a.ipv6 = true → IsAddress a.host) ∧
      (a.ipv6 = false → ∀ c ∈ a.host, isHostChar c = true) := by
  obtain ⟨hlive, hfinal⟩ := h
  have hsteps := hlive.run fun _ _ => HostState.step_of_ne_dead
  obtain ⟨a, hosts, hat, hwf, rfl, hstates, hlen, hall⟩ : ∃ a : Authority, ∃ hosts,
      a.atSign = foundAt ∧ a.WellFormed ∧ bs = a.render ∧
        hostStates foundAt bs = a.states hosts ∧ hosts.length = a.host.length ∧
        ∀ t ∈ hosts, t.rank = 4 := by
    cases foundAt with
    | false => exact run_hostStart hsteps hfinal
    | true => exact run_userinfo (Or.inl rfl) hsteps hfinal
  have hrun : Run HostMoves (.start a.atSign) a.render (a.states hosts) := by
    rw [hat]
    exact run_moves_iff.mpr ⟨hlive, hstates⟩
  obtain ⟨huser, hhost⟩ := (Authority.run_states_iff hwf.userinfo).mp hrun
  obtain ⟨haddr, hname⟩ := Authority.chars_of_run_hostText hwf.host hlen hall hhost
  exact ⟨a, hosts, hwf, rfl, hlen, hall, hstates, huser, haddr, hname⟩

/-- A URL without a scheme that is accepted. -/
theorem UrlRead.exists_grammatical (h : UrlRead url false ParserUrl.init l)
    (hschema : urlLen false url .schema = 0) (hne : url ≠ []) :
    ∃ p : UrlParts, p.Grammatical ∧ p.render = url := by
  obtain ⟨t, hdelim, rfl, hstates⟩ := url_of_path h.live hschema
  have hrun : Run UrlMoves .spacesBeforeUrl t.render t.states :=
    run_moves_iff.mpr ⟨h.live, hstates⟩
  -- it does not start with a question mark or a hash
  have hpath : t.path ≠ [] := by
    intro hnil
    have hquestion : ¬ UrlMoves (chr '?') .spacesBeforeUrl .queryStringStart := by decide
    have hhash : ¬ UrlMoves (chr '#') .spacesBeforeUrl .fragmentStart := by decide
    rw [UrlTail.render_eq, UrlTail.states_eq, hnil] at hrun
    rw [UrlTail.render_eq, hnil] at hne
    cases hq : t.question with
    | true => simp [UrlTail.rest, UrlTail.restStates, hq, run_cons_iff, hquestion] at hrun
    | false =>
      cases hhashes : t.hashes with
      | zero => simp [UrlTail.rest, hq, hhashes, hdelim.fragment hhashes] at hne
      | succ n =>
        simp [UrlTail.rest, UrlTail.restStates, hq, hhashes, List.replicate_succ, run_cons_iff,
          hhash] at hrun
  obtain ⟨ht, hfirst⟩ := (UrlTail.run_start_iff hdelim hpath).mp hrun
  refine ⟨⟨[], Authority.none, t⟩, ⟨ht, List.forall_mem_nil _, fun _ => rfl, fun _ => hfirst,
    fun hs => absurd rfl hs, fun hs => absurd rfl hs, fun hs => absurd rfl hs⟩, rfl⟩

/-- A URL with an authority that is accepted. -/
theorem HostRead.exists_grammatical (h : HostRead url false ParserUrl.init l u)
    (hlt : url.length < 65536) (hacc : HostAccepts l.foundAt (scanned url l.u))
    (hport : ∀ port, slice url (u.fieldData .port).off (u.fieldData .port).len = port →
      (∀ c ∈ port, isNum c = true) → port ≠ [] →
        ∃ v ≤ 65535, Http1.number? port = some v) :
    ∃ p : UrlParts, p.Grammatical ∧ p.render = url := by
  obtain ⟨scheme, authority, servers, t, hdelim, hscheme, hurl, hstates, hlen, hrank, -⟩ :=
    url_of_host h.live h.pos
  have hurl' : url = (scheme ++ ascii "://") ++ (authority ++ t.render) := by
    rw [hurl, List.append_assoc]
  -- the authority is what the host pass scans
  have hoff : urlOff false url .host = (scheme ++ ascii "://").length := by
    rw [urlOff, hstates]
    simp [UrlState.rank, UrlField.rank, before_of_forall hrank, UrlTail.before_states_of_le, ascii]
  have hcount : urlLen false url .host = authority.length := by
    rw [urlLen, hstates]
    simp [UrlState.rank, UrlField.rank, occ_of_forall hrank, hlen, UrlTail.occ_states_of_lt]
  have hscan : scanned url l.u = authority := by
    rw [h.scanned_eq hlt, hoff, hcount, ← Nat.add_zero (scheme ++ ascii "://").length]
    nth_rewrite 1 [hurl']
    rw [slice_append_right, slice_append_left]
  have hin : UrlField.port.InAuthority := by decide
  have hsliced := h.slice_eq hlt hin
  rw [hscan] at hacc hsliced
  obtain ⟨a, hosts, hwf, rfl, hhosts, hall, hhostStates, huser, haddr, hname⟩ :=
    exists_authority_of_accepts hacc
  rw [hhostStates] at hsliced
  have hsliced' := hsliced.trans (Authority.slice_port hhosts hall)
  have ha : a.Grammatical := ⟨hwf, huser, haddr, hname, hport a.port hsliced' hwf.port⟩
  -- the rest is what the first automaton reads
  let p : UrlParts := ⟨scheme, a, t⟩
  have hrender : p.render = url := by
    rw [hurl', UrlParts.render, if_neg hscheme]
  have hpstates : p.states servers = urlStates false url := by
    rw [hstates, UrlParts.states, if_neg hscheme, List.append_assoc]
  have hrun : Run UrlMoves .spacesBeforeUrl p.render (p.states servers) := by
    rw [hrender, hpstates]
    exact run_moves_iff.mpr ⟨h.live, rfl⟩
  obtain ⟨halpha, -, ht, hslash, hnofrag⟩ :=
    (UrlParts.run_scheme_iff hscheme hlen hrank hdelim).mp hrun
  refine ⟨p, ⟨ht, halpha, fun hs => absurd hs hscheme, fun hs => absurd hs hscheme, fun _ => ha,
    fun _ => hslash, fun _ => hnofrag⟩, hrender⟩

/-- What is accepted is grammatical. -/
theorem exists_grammatical_of_parseUrl (hlt : url.length < 65536)
    (h : parseUrl url false ParserUrl.init = .ok (0, u)) :
    ∃ p : UrlParts, p.Grammatical ∧ p.render = url := by
  have hrange : ∀ {u : ParserUrl} {port : List UInt8}, PortOf u port → port ≠ [] →
      ∃ v ≤ 65535, Http1.number? port = some v :=
    fun hport hne => ⟨_, hport.le, hport.decimal hne⟩
  cases outcome_of_parseUrl h with
  | path hl _ hschema hne => exact hl.exists_grammatical hschema hne
  | host hu hacc hport =>
    refine hu.exists_grammatical hlt hacc fun port heq _ => ?_
    exact hrange (heq ▸ hu.portOf_of_not_set hlt hport)
  | hostPort hu hacc _ hv =>
    refine hu.exists_grammatical hlt hacc fun port heq hnum => ?_
    rw [heq] at hv
    exact hrange (portOf_of_portLoop (u := .init) hnum hv)

end Accepted

/-- **The accepted texts are the grammatical ones**: a text of at most 65535 bytes is accepted
exactly if it is grammatical parts put together. -/
theorem url_accepted_iff {url : List UInt8} (hlen : url.length ≤ 65535) :
    (∃ u, parseUrl url false ParserUrl.init = .ok (0, u)) ↔
      ∃ p : UrlParts, p.Grammatical ∧ p.render = url := by
  refine ⟨fun ⟨_, hu⟩ => exists_grammatical_of_parseUrl (Nat.lt_succ_of_le hlen) hu, ?_⟩
  rintro ⟨p, hp, rfl⟩
  obtain ⟨u, hu, -⟩ := hp.accepted (Nat.lt_succ_of_le hlen)
  exact ⟨u, hu⟩

/-- A fragment is accepted after a path, but not after an authority. -/
theorem url_accepted_iff_fragment :
    (∃ p : UrlParts, p.Grammatical ∧ p.render = ascii "http://a/b#c") ∧
      ¬ ∃ p : UrlParts, p.Grammatical ∧ p.render = ascii "http://a#c" := by
  refine ⟨(url_accepted_iff (by decide)).mp ⟨_, rfl⟩, fun h => ?_⟩
  obtain ⟨u, hu⟩ := (url_accepted_iff (by decide)).mpr h
  obtain ⟨u', hrefused⟩ : ∃ u', parseUrl (ascii "http://a#c") false ParserUrl.init = .ok (1, u') :=
    ⟨_, rfl⟩
  rw [hrefused] at hu
  cases hu

/-! ### The parts are unique -/

private theorem UrlTail.occ_delimiters (t : UrlTail) :
    occ UrlState.rank t.states 7 = t.question.toNat ∧ occ UrlState.rank t.states 9 = t.hashes := by
  obtain ⟨path, question, query, hashes, fragment⟩ := t
  cases question <;> simp [states, UrlState.rank]

private theorem Authority.length_render (a : Authority) :
    a.render.length = (if a.atSign then a.userinfo.length + 1 else 0) + 2 * a.ipv6.toNat +
      a.host.length + if a.port = [] then 0 else a.port.length + 1 := by
  obtain ⟨atSign, userinfo, ipv6, host, port⟩ := a
  cases atSign <;> cases ipv6 <;> by_cases hport : port = [] <;> simp [render, hport] <;> omega

/-- The brackets of an address show in the length. -/
theorem Authority.eq_of_length_render {a b : Authority} (hat : a.atSign = b.atSign)
    (huser : a.userinfo = b.userinfo) (hhost : a.host = b.host) (hport : a.port = b.port)
    (hlen : a.render.length = b.render.length) : a = b := by
  obtain ⟨atSign, userinfo, ipv6, host, port⟩ := a
  obtain ⟨atSign', userinfo', ipv6', host', port'⟩ := b
  obtain ⟨rfl, rfl, rfl, rfl⟩ : atSign = atSign' ∧ userinfo = userinfo' ∧ host = host' ∧
    port = port' := ⟨hat, huser, hhost, hport⟩
  simp only [length_render] at hlen
  cases ipv6 <;> cases ipv6' <;> simp at hlen ⊢

/-- Grammatical parts are determined by the text. -/
theorem UrlParts.Grammatical.eq_of_render_eq {p q : UrlParts} (hp : p.Grammatical)
    (hq : q.Grammatical) (heq : q.render = p.render) (hlt : p.render.length < 65536) : q = p := by
  obtain ⟨servers, hr⟩ := hp.exists_reads
  obtain ⟨servers', hr'⟩ := hq.exists_reads
  -- the same text takes the first automaton through the same states
  have hstates : q.states servers' = p.states servers := by
    rw [← hr.urlStates_eq.2, ← hr'.urlStates_eq.2, heq]
  obtain ⟨-, -, hhost, -, htail, -⟩ := states_counts hr.length hr.rank
  obtain ⟨-, -, hhost', -, htail', -⟩ := states_counts hr'.length hr'.rank
  rw [hstates] at hhost' htail'
  have hat : q.authority.atSign = p.authority.atSign := by
    rw [Bool.eq_iff_iff, ← hr.mem_states_iff, ← hr'.mem_states_iff, hstates]
  -- and the same fields are stored
  obtain ⟨u, hu, hd, -⟩ := hp.accepted hlt
  obtain ⟨u', hu', hd', -⟩ := hq.accepted (heq ▸ hlt)
  rw [heq] at hu' hd'
  obtain rfl : u' = u := by
    rw [hu] at hu'
    cases hu'
    rfl
  have hget : ∀ uf, q.get uf = p.get uf := fun uf => (hd'.get uf).trans (hd.get uf).symm
  have hauthority : q.authority = p.authority :=
    Authority.eq_of_length_render hat (hget .userinfo) (hget .host) (hget .port)
      (hhost'.symm.trans hhost)
  have hquestion : q.tail.question.toNat = p.tail.question.toNat := by
    rw [← q.tail.occ_delimiters.1, ← p.tail.occ_delimiters.1]
    exact (htail' 7 (by decide)).symm.trans (htail 7 (by decide))
  have hhashes : q.tail.hashes = p.tail.hashes := by
    rw [← q.tail.occ_delimiters.2, ← p.tail.occ_delimiters.2]
    exact (htail' 9 (by decide)).symm.trans (htail 9 (by decide))
  obtain ⟨scheme, authority, path, question, query, hashes, fragment⟩ := p
  obtain ⟨scheme', authority', path', question', query', hashes', fragment'⟩ := q
  have hscheme : scheme' = scheme := hget .schema
  have hpath : path' = path := hget .path
  have hquery : query' = query := hget .query
  have hfragment : fragment' = fragment := hget .fragment
  have hbool : question' = question := by
    cases question <;> cases question' <;> first | rfl | cases hquestion
  dsimp only at hauthority hhashes
  rw [hscheme, hauthority, hpath, hbool, hquery, hhashes, hfragment]

/-- **Parsing takes apart what putting together made**: a URL put together from grammatical parts is
accepted, `Url_new` stores these parts and the number of the port, and no other grammatical parts
give the same text. -/
theorem url_round_trip (junk : UrlField → ByteMemory) {p : UrlParts} (hp : p.Grammatical)
    (hlen : p.render.length ≤ 65535) :
    ∃ u this, parseUrl p.render false ParserUrl.init = .ok (0, u) ∧
      Url.new junk p.render = .ok this ∧ (∀ uf, (this.get uf).data = p.get uf) ∧
        PortOf u p.authority.port ∧
          ∀ q : UrlParts, q.Grammatical → q.render = p.render → q = p := by
  have hlt : p.render.length < 65536 := Nat.lt_succ_of_le hlen
  obtain ⟨u, hu, hd, hport⟩ := hp.accepted hlt
  have h0 : 0 ∉ p.render := (decomposes_of_parseUrl hlt hu).1
  have hstr : parseUrl (cString p.render) false ParserUrl.init = .ok (0, u) := by
    rw [cString_eq_self.mpr h0]
    exact hu
  obtain ⟨this, hnew, hget⟩ := Url.new_spec junk hstr
  exact ⟨u, this, hu, hnew, fun uf => (hget uf).trans (hd.get uf).symm, hport,
    fun q hq heq => hp.eq_of_render_eq hq heq hlt⟩

theorem url_round_trip_ipv6 :
    let p : UrlParts := ⟨ascii "http", ⟨true, ascii "a", true, ascii "::1", ascii "80"⟩,
      ⟨ascii "/c", true, ascii "d", 2, ascii "e"⟩⟩
    p.render = ascii "http://a@[::1]:80/c?d##e" ∧
      ∃ u this, parseUrl p.render false ParserUrl.init = .ok (0, u) ∧
        Url.new (fun _ _ => 0) p.render = .ok this ∧ (∀ uf, (this.get uf).data = p.get uf) ∧
          PortOf u p.authority.port ∧
            ∀ q : UrlParts, q.Grammatical → q.render = p.render → q = p := by
  intro p
  have haddress : IsAddress (ascii "::1") :=
    ⟨ascii "::1", [], rfl, by decide, List.all_eq_true.mp rfl, Or.inl rfl⟩
  have hauthority : p.authority.Grammatical :=
    ⟨⟨fun h => absurd h (by decide), by decide, List.all_eq_true.mp rfl⟩, List.all_eq_true.mp rfl,
      fun _ => haddress, fun h => absurd h (by decide), fun _ => ⟨80, by decide, rfl⟩⟩
  have htail : p.tail.Grammatical :=
    ⟨⟨fun h => absurd h (by decide), fun h => absurd h (by decide)⟩, List.all_eq_true.mp rfl,
      List.all_eq_true.mp rfl, List.all_eq_true.mp rfl, by decide⟩
  have hp : p.Grammatical :=
    ⟨htail, List.all_eq_true.mp rfl, fun h => absurd h (by decide),
      fun h => absurd h (by decide), fun _ => hauthority, fun _ => Or.inr rfl,
      fun _ h => absurd h (by decide)⟩
  exact ⟨rfl, url_round_trip (fun _ _ => 0) hp (by decide)⟩

end CHttp
