import CHttp.Common.UrlGrammar

/-!
# Reading a URL part by part

The states that read the parts of a URL are known, so a text is read through them exactly if each
part has the bytes of its class. For the first automaton this is said of the text from the path on,
after a scheme or without one; for the second of an authority.
-/

namespace CHttp

open RankedRun

/-! ### The text from the path on -/

namespace UrlTail

variable {s : UrlState} {t : UrlTail}

/-- The bytes of a fragment. -/
theorem run_fragment_iff {fragment : List UInt8} :
    Run UrlMoves .fragmentStart fragment (List.replicate fragment.length .fragment) ↔
      (∀ c ∈ fragment, isFragmentChar c = true) ∧ fragment.head? ≠ some (chr '#') := by
  cases fragment with
  | nil => simp [run_nil_iff]
  | cons c cs =>
    rw [run_cons_replicate_iff (moves_fragmentStart c) moves_fragment, List.forall_mem_cons]
    simp only [List.head?_cons, ne_eq, Option.some.injEq]
    tauto

/-- Hashes and a fragment, after a path or a query. -/
theorem run_hashes_iff (hs : UrlMoves (chr '#') s .fragmentStart) (h : t.Delimited) :
    Run UrlMoves s (List.replicate t.hashes (chr '#') ++ t.fragment)
        (List.replicate t.hashes .fragmentStart ++ List.replicate t.fragment.length .fragment) ↔
      (∀ c ∈ t.fragment, isFragmentChar c = true) ∧ t.fragment.head? ≠ some (chr '#') := by
  cases hhashes : t.hashes with
  | zero => simp [h.fragment hhashes, run_nil_iff]
  | succ n =>
    have hrest : Run UrlMoves .fragmentStart (List.replicate n (chr '#'))
        (List.replicate n .fragmentStart) := by
      have hall : ∀ c ∈ List.replicate n (chr '#'), c = chr '#' := fun c hc =>
        List.eq_of_mem_replicate hc
      simpa using (run_replicate_iff moves_hash).mpr hall
    rw [List.replicate_succ, List.replicate_succ, List.cons_append, List.cons_append, run_cons_iff,
      run_append_iff (by simp), getLastD_replicate_self, run_fragment_iff]
    exact ⟨fun hrun => hrun.2.2, fun hfrag => ⟨hs, hrest, hfrag⟩⟩

/-- What follows the path has the bytes of its parts. -/
def RestChars (t : UrlTail) : Prop :=
  (∀ c ∈ t.query, isQueryChar c = true) ∧ (∀ c ∈ t.fragment, isFragmentChar c = true) ∧
    t.fragment.head? ≠ some (chr '#')

/-- The text after the path. -/
def rest (t : UrlTail) : List UInt8 :=
  (if t.question then chr '?' :: t.query else []) ++
    (List.replicate t.hashes (chr '#') ++ t.fragment)

/-- The states that read it. -/
def restStates (t : UrlTail) : List UrlState :=
  (if t.question then .queryStringStart :: List.replicate t.query.length .queryString else []) ++
    (List.replicate t.hashes .fragmentStart ++ List.replicate t.fragment.length .fragment)

theorem render_eq (t : UrlTail) : t.render = t.path ++ t.rest := by
  rw [render, rest, List.append_assoc]

theorem states_eq (t : UrlTail) :
    t.states = List.replicate t.path.length .path ++ t.restStates := by
  rw [states, restStates, List.append_assoc]

/-- A query and what follows it. -/
theorem run_query_iff (h : t.Delimited) :
    Run UrlMoves .queryStringStart
        (t.query ++ (List.replicate t.hashes (chr '#') ++ t.fragment))
        (List.replicate t.query.length .queryString ++ (List.replicate t.hashes .fragmentStart ++
          List.replicate t.fragment.length .fragment)) ↔ t.RestChars := by
  rw [run_append_iff (by simp), RestChars]
  cases hquery : t.query with
  | nil =>
    have hhashes := run_hashes_iff (s := .queryStringStart) (by decide) h
    simpa [run_nil_iff] using hhashes
  | cons c cs =>
    rw [run_cons_replicate_iff (moves_question c) moves_query, getLastD_replicate_cons,
      run_hashes_iff (by decide) h, List.forall_mem_cons]

/-- What follows a path. -/
theorem run_rest_iff (h : t.Delimited) :
    Run UrlMoves .path t.rest t.restStates ↔ t.RestChars := by
  cases hquestion : t.question with
  | true =>
    simp only [rest, restStates, hquestion, if_true, List.cons_append]
    rw [run_cons_iff, run_query_iff h]
    exact and_iff_right (by decide)
  | false =>
    have hhashes := run_hashes_iff (s := .path) (by decide) h
    simpa [rest, restStates, hquestion, RestChars, h.query hquestion] using hhashes

/-- What follows an authority, without a path: no fragment can follow at once. -/
theorem run_rest_of_server_iff (hs : s.InServer) (h : t.Delimited) :
    Run UrlMoves s t.rest t.restStates ↔
      t.RestChars ∧ (t.question = false → t.hashes = 0) := by
  obtain ⟨-, -, hquery, hno⟩ := moves_server hs (chr '?')
  cases hquestion : t.question with
  | true =>
    simp only [rest, restStates, hquestion, if_true, List.cons_append]
    rw [run_cons_iff, run_query_iff h, hquery]
    simp
  | false =>
    cases hhashes : t.hashes with
    | zero =>
      simp [rest, restStates, hquestion, RestChars, h.query hquestion, hhashes,
        h.fragment hhashes, run_nil_iff]
    | succ n =>
      have hno' := (moves_server hs (chr '#')).2.2.2
      simp [rest, restStates, hquestion, hhashes, List.replicate_succ, run_cons_iff, hno']

private theorem grammatical_iff (h : t.Delimited) :
    t.Grammatical ↔ (∀ c ∈ t.path, isUrlChar c = true) ∧ t.RestChars :=
  ⟨fun hg => ⟨hg.pathChars, hg.queryChars, hg.fragmentChars, hg.fragmentHead⟩,
    fun ⟨hpath, hquery, hfragment, hhead⟩ => ⟨h, hpath, hquery, hfragment, hhead⟩⟩

/-- A path that a byte starts, and what follows it. -/
theorem run_path_iff (h : t.Delimited) {c : UInt8} {cs : List UInt8} (hpath : t.path = c :: cs)
    (hc : UrlMoves c s .path → isUrlChar c = true) :
    Run UrlMoves s t.render t.states ↔ t.Grammatical ∧ UrlMoves c s .path := by
  rw [render_eq, states_eq, run_append_iff (by simp), hpath, getLastD_replicate_cons,
    run_rest_iff h, run_cons_replicate_iff Iff.rfl moves_path, grammatical_iff h, hpath,
    List.forall_mem_cons]
  tauto

/-- A URL without a scheme. -/
theorem run_start_iff (h : t.Delimited) (hne : t.path ≠ []) :
    Run UrlMoves .spacesBeforeUrl t.render t.states ↔ t.Grammatical ∧
      (t.path.head? = some (chr '/') ∨ t.path.head? = some (chr '*')) := by
  obtain ⟨c, cs, hpath⟩ := List.exists_cons_of_ne_nil hne
  have hc : UrlMoves c .spacesBeforeUrl .path → isUrlChar c = true := by
    rw [moves_start_path]
    rintro (rfl | rfl) <;> decide
  rw [run_path_iff h hpath hc, moves_start_path, hpath]
  simp

/-- What follows an authority. -/
theorem run_server_iff (hs : s.InServer) (h : t.Delimited) :
    Run UrlMoves s t.render t.states ↔ t.Grammatical ∧
      (t.path = [] ∨ t.path.head? = some (chr '/')) ∧
        (t.path = [] → t.question = false → t.hashes = 0) := by
  cases hpath : t.path with
  | nil =>
    rw [render_eq, states_eq, hpath, List.nil_append, List.length_nil, List.replicate_zero,
      List.nil_append, run_rest_of_server_iff hs h, grammatical_iff h, hpath]
    simp
  | cons c cs =>
    obtain ⟨-, hslash, -⟩ := moves_server hs c
    have hc : UrlMoves c s .path → isUrlChar c = true := by
      rw [hslash]
      rintro rfl
      decide
    rw [run_path_iff h hpath hc, hslash]
    simp

end UrlTail

/-! ### The host -/

section Host

variable {s : HostState} {xs : List UInt8} {ss : List HostState}

/-- Bytes of a class that keep the second automaton in one state. -/
theorem run_hosts_iff {P : UInt8 → Prop} (hP : ∀ c, HostMoves c s s ↔ P c)
    (hnext : ∀ c s', HostMoves c s s' → s'.rank = 4 → s' = s) (hall : ∀ t ∈ ss, t.rank = 4) :
    Run HostMoves s xs ss ↔ ss = List.replicate xs.length s ∧ ∀ c ∈ xs, P c := by
  induction xs generalizing ss with
  | nil =>
    constructor
    · intro h
      cases h
      exact ⟨rfl, List.forall_mem_nil _⟩
    · rintro ⟨rfl, -⟩
      exact .nil s
  | cons c cs ih =>
    constructor
    · intro h
      cases h with
      | @cons _ s' _ _ ss hstep hrun =>
        obtain ⟨hs', hss⟩ := List.forall_mem_cons.mp hall
        have heq := hnext c s' hstep hs'
        rw [heq] at hstep hrun
        obtain ⟨rfl, hcs⟩ := (ih hss).mp hrun
        exact ⟨heq ▸ rfl, List.forall_mem_cons.mpr ⟨(hP c).mp hstep, hcs⟩⟩
    · rintro ⟨rfl, h⟩
      exact (run_replicate_iff hP).mpr h

/-- The same, from a state that they lead out of. -/
theorem run_first_iff {t : HostState} {P : UInt8 → Prop} (hfirst : ∀ c, HostMoves c s t ↔ P c)
    (hP : ∀ c, HostMoves c t t ↔ P c) (hs : ∀ c s', HostMoves c s s' → s'.rank = 4 → s' = t)
    (hnext : ∀ c s', HostMoves c t s' → s'.rank = 4 → s' = t) (hne : xs ≠ [])
    (hall : ∀ t ∈ ss, t.rank = 4) :
    Run HostMoves s xs ss ↔ ss = List.replicate xs.length t ∧ ∀ c ∈ xs, P c := by
  obtain ⟨c, cs, rfl⟩ := List.exists_cons_of_ne_nil hne
  constructor
  · intro h
    cases h with
    | @cons _ s' _ _ ss hstep hrun =>
      obtain ⟨hs', hss⟩ := List.forall_mem_cons.mp hall
      have heq := hs c s' hstep hs'
      rw [heq] at hstep hrun
      obtain ⟨rfl, hcs⟩ := (run_hosts_iff hP hnext hss).mp hrun
      exact ⟨heq ▸ rfl, List.forall_mem_cons.mpr ⟨(hfirst c).mp hstep, hcs⟩⟩
  · rintro ⟨rfl, h⟩
    obtain ⟨hc, hcs⟩ := List.forall_mem_cons.mp h
    exact (run_cons_replicate_iff (hfirst c) hP).mpr ⟨hc, hcs⟩

/-- A host name. -/
theorem run_hostName_iff (hne : xs ≠ []) (hall : ∀ t ∈ ss, t.rank = 4) :
    Run HostMoves .hostStart xs ss ↔
      ss = List.replicate xs.length .host ∧ ∀ c ∈ xs, isHostChar c = true :=
  run_first_iff (fun c => (hostMoves_host c).1) (fun c => (hostMoves_host c).2)
    (fun _ _ h hs => (hostMoves_of_rank h hs).1 rfl)
    (fun _ _ h hs => (hostMoves_of_rank h hs).2.1 rfl) hne hall

/-- A zone, without the percent sign before it. -/
theorem run_zone_iff (hne : xs ≠ []) (hall : ∀ t ∈ ss, t.rank = 4) :
    Run HostMoves .v6ZoneStart xs ss ↔
      ss = List.replicate xs.length .v6Zone ∧ ∀ c ∈ xs, isZoneChar c = true :=
  run_first_iff (fun c => (hostMoves_zone c).1) (fun c => (hostMoves_zone c).2)
    (fun _ _ h hs => (hostMoves_of_rank h hs).2.2.2.2.1 rfl)
    (fun _ _ h hs => (hostMoves_of_rank h hs).2.2.2.2.2 rfl) hne hall

/-- The rest of an address: more of it, and perhaps a zone. -/
theorem address_of_run (h : Run HostMoves .v6 xs ss) (hall : ∀ t ∈ ss, t.rank = 4)
    (hend : HostMoves (chr ']') (ss.getLastD .v6) .v6End) :
    ∃ addr zone, xs = addr ++ zone ∧ (∀ c ∈ addr, isV6Char c = true) ∧
      (zone = [] ∨ ∃ z, zone = chr '%' :: z ∧ z ≠ [] ∧ ∀ c ∈ z, isZoneChar c = true) := by
  induction xs generalizing ss with
  | nil => exact ⟨[], [], rfl, List.forall_mem_nil _, .inl rfl⟩
  | cons c cs ih =>
    cases h with
    | @cons _ s' _ _ ss hstep hrun =>
      obtain ⟨hs', hss⟩ := List.forall_mem_cons.mp hall
      rw [List.getLastD_cons] at hend
      rcases (hostMoves_of_rank hstep hs').2.2.2.1 rfl with heq | heq
      · rw [heq] at hstep hrun hend
        obtain ⟨addr, zone, rfl, haddr, hzone⟩ := ih hrun hss hend
        exact ⟨c :: addr, zone, rfl,
          List.forall_mem_cons.mpr ⟨(hostMoves_v6 c).2.1.mp hstep, haddr⟩, hzone⟩
      · rw [heq] at hstep hrun hend
        obtain rfl := (hostMoves_v6 c).2.2.mp hstep
        have hne : cs ≠ [] := by
          rintro rfl
          cases hrun
          exact absurd hend (by decide)
        obtain ⟨-, hz⟩ := (run_zone_iff hne hss).mp hrun
        exact ⟨[], _, rfl, List.forall_mem_nil _, .inr ⟨cs, rfl, hne, hz⟩⟩

/-- An address between brackets. -/
theorem isAddress_of_run (h : Run HostMoves .v6Start xs ss) (hall : ∀ t ∈ ss, t.rank = 4)
    (hne : xs ≠ []) (hend : HostMoves (chr ']') (ss.getLastD .v6Start) .v6End) : IsAddress xs := by
  cases h with
  | nil => exact absurd rfl hne
  | @cons _ s' c cs ss hstep hrun =>
    obtain ⟨hs', hss⟩ := List.forall_mem_cons.mp hall
    have heq := (hostMoves_of_rank hstep hs').2.2.1 rfl
    rw [List.getLastD_cons] at hend
    rw [heq] at hstep hrun hend
    obtain ⟨addr, zone, rfl, haddr, hzone⟩ := address_of_run hrun hss hend
    exact ⟨c :: addr, zone, rfl, List.cons_ne_nil _ _,
      List.forall_mem_cons.mpr ⟨(hostMoves_v6 c).1.mp hstep, haddr⟩, hzone⟩

/-- What reads an address between brackets. -/
theorem exists_run_of_isAddress (h : IsAddress xs) :
    ∃ ss, Run HostMoves .v6Start xs ss ∧ (∀ t ∈ ss, t.rank = 4) ∧
      HostMoves (chr ']') (ss.getLastD .v6Start) .v6End := by
  obtain ⟨addr, zone, rfl, hne, haddr, hzone⟩ := h
  obtain ⟨c, cs, rfl⟩ := List.exists_cons_of_ne_nil hne
  obtain ⟨hc, hcs⟩ := List.forall_mem_cons.mp haddr
  have hrun : Run HostMoves .v6Start (c :: cs) (List.replicate (c :: cs).length .v6) :=
    (run_cons_replicate_iff (hostMoves_v6 c).1 fun c => (hostMoves_v6 c).2.1).mpr ⟨hc, hcs⟩
  have hranks : ∀ {s : HostState} (n : ℕ), s.rank = 4 → ∀ t ∈ List.replicate n s, t.rank = 4 := by
    intro s n hs t ht
    rw [List.eq_of_mem_replicate ht, hs]
  rcases hzone with rfl | ⟨z, rfl, hz, hzone⟩
  · rw [List.append_nil]
    refine ⟨_, hrun, hranks _ rfl, ?_⟩
    rw [getLastD_replicate_cons]
    decide
  · have hzrun := (run_zone_iff hz (hranks _ rfl)).mpr ⟨rfl, hzone⟩
    obtain ⟨d, ds, rfl⟩ := List.exists_cons_of_ne_nil hz
    refine ⟨List.replicate (c :: cs).length .v6 ++
      .v6ZoneStart :: List.replicate (d :: ds).length .v6Zone, ?_, ?_, ?_⟩
    · rw [run_append_iff (by simp), getLastD_replicate_cons, run_cons_iff]
      exact ⟨hrun, (hostMoves_v6 _).2.2.mpr rfl, hzrun⟩
    · exact List.forall_mem_append.mpr ⟨hranks _ rfl, List.forall_mem_cons.mpr ⟨rfl, hranks _ rfl⟩⟩
    · rw [getLastD_append, List.getLastD_cons, getLastD_replicate_cons]
      decide

end Host

/-! ### The authority -/

namespace Authority

variable {a : Authority} {hosts : List HostState} {s : HostState}

/-- The text of an authority after the user information. -/
def hostText (a : Authority) : List UInt8 :=
  (if a.ipv6 then [chr '['] else []) ++ (a.host ++ ((if a.ipv6 then [chr ']'] else []) ++
    if a.port = [] then [] else chr ':' :: a.port))

/-- The states that read it. -/
def hostTextStates (a : Authority) (hosts : List HostState) : List HostState :=
  (if a.ipv6 then [.v6Start] else []) ++ (hosts ++ ((if a.ipv6 then [.v6End] else []) ++
    if a.port = [] then [] else .portStart :: List.replicate a.port.length .port))

/-- A port, after a host. -/
theorem run_portText (hs : HostMoves (chr ':') s .portStart) {port : List UInt8}
    (hport : ∀ c ∈ port, isNum c = true) :
    Run HostMoves s (if port = [] then [] else chr ':' :: port)
      (if port = [] then [] else .portStart :: List.replicate port.length .port) := by
  cases port with
  | nil => exact .nil s
  | cons c cs =>
    obtain ⟨hc, hcs⟩ := List.forall_mem_cons.mp hport
    rw [if_neg (List.cons_ne_nil _ _), if_neg (List.cons_ne_nil _ _), run_cons_iff]
    exact ⟨hs, (run_cons_replicate_iff (hostMoves_port (.inl rfl) c)
      (hostMoves_port (.inr rfl))).mpr ⟨hc, hcs⟩⟩

/-- The automaton may stop after a port, or before it. -/
theorem final_portStates (hs : s.final = true) (port : List UInt8) :
    ((if port = [] then [] else .portStart :: List.replicate port.length .port).getLastD
      s).final = true := by
  cases port with
  | nil => exact hs
  | cons c cs =>
    rw [if_neg (List.cons_ne_nil _ _), List.getLastD_cons, getLastD_replicate_cons]
    rfl

/-- What is read as a host has the bytes of one. -/
theorem chars_of_run_hostText (hne : a.host ≠ []) (hlen : hosts.length = a.host.length)
    (hall : ∀ t ∈ hosts, t.rank = 4)
    (h : Run HostMoves .hostStart a.hostText (a.hostTextStates hosts)) :
    (a.ipv6 = true → IsAddress a.host) ∧
      (a.ipv6 = false → ∀ c ∈ a.host, isHostChar c = true) := by
  cases hipv6 : a.ipv6 with
  | true =>
    simp only [hostText, hostTextStates, hipv6, if_true, List.cons_append, List.nil_append] at h
    rw [run_cons_iff, run_append_iff hlen, run_cons_iff] at h
    obtain ⟨-, hrun, hend, -⟩ := h
    exact ⟨fun _ => isAddress_of_run hrun hall hne hend, fun h => absurd h.symm Bool.false_ne_true⟩
  | false =>
    simp only [hostText, hostTextStates, hipv6, Bool.false_eq_true, if_false,
      List.nil_append] at h
    rw [run_append_iff hlen, run_hostName_iff hne hall] at h
    exact ⟨fun h => absurd h Bool.false_ne_true, fun _ => h.1.2⟩

/-- What reads a host and a port. -/
theorem exists_run_hostText (h : a.Grammatical) :
    ∃ hosts, hosts.length = a.host.length ∧ (∀ t ∈ hosts, t.rank = 4) ∧
      Run HostMoves .hostStart a.hostText (a.hostTextStates hosts) ∧
      ((a.hostTextStates hosts).getLastD .hostStart).final = true := by
  cases hipv6 : a.ipv6 with
  | true =>
    obtain ⟨hosts, hrun, hall, hend⟩ := exists_run_of_isAddress (h.address hipv6)
    refine ⟨hosts, hrun.length_eq, hall, ?_, ?_⟩
    · simp only [hostText, hostTextStates, hipv6, if_true, List.cons_append, List.nil_append]
      rw [run_cons_iff, run_append_iff hrun.length_eq, run_cons_iff]
      exact ⟨by decide, hrun, hend, run_portText (by decide) h.port⟩
    · simp only [hostTextStates, hipv6, if_true, List.cons_append, List.nil_append]
      rw [List.getLastD_cons, getLastD_append, List.getLastD_cons]
      exact final_portStates rfl a.port
  | false =>
    have hranks : ∀ t ∈ List.replicate a.host.length HostState.host, t.rank = 4 := by
      intro t ht
      rw [List.eq_of_mem_replicate ht]
      rfl
    have hrun := (run_hostName_iff h.host hranks).mpr ⟨rfl, h.hostChars hipv6⟩
    obtain ⟨c, cs, hhost⟩ := List.exists_cons_of_ne_nil h.host
    refine ⟨_, List.length_replicate, hranks, ?_, ?_⟩
    · simp only [hostText, hostTextStates, hipv6, Bool.false_eq_true, if_false, List.nil_append]
      rw [run_append_iff List.length_replicate]
      refine ⟨hrun, ?_⟩
      rw [hhost, getLastD_replicate_cons]
      exact run_portText (by decide) h.port
    · simp only [hostTextStates, hipv6, Bool.false_eq_true, if_false, List.nil_append]
      rw [getLastD_append, hhost, getLastD_replicate_cons]
      exact final_portStates rfl a.port

/-- The user information before a host. -/
theorem run_states_iff (hinfo : a.atSign = false → a.userinfo = []) :
    Run HostMoves (.start a.atSign) a.render (a.states hosts) ↔
      (∀ c ∈ a.userinfo, isUserinfoChar c = true) ∧
        Run HostMoves .hostStart a.hostText (a.hostTextStates hosts) := by
  cases hat : a.atSign with
  | false =>
    have hrender : a.render = a.hostText := by simp [render, hostText, hat]
    have hstates : a.states hosts = a.hostTextStates hosts := by
      simp [states, hostTextStates, hat]
    rw [hrender, hstates, hinfo hat]
    exact (and_iff_right (List.forall_mem_nil _)).symm
  | true =>
    have hrender : a.render = a.userinfo ++ chr '@' :: a.hostText := by
      simp [render, hostText, hat]
    have hstates : a.states hosts = List.replicate a.userinfo.length .userinfo ++
        .hostStart :: a.hostTextStates hosts := by
      simp [states, hostTextStates, hat]
    rw [hrender, hstates, run_append_iff List.length_replicate, run_cons_iff]
    cases huser : a.userinfo with
    | nil =>
      have hstep : HostMoves (chr '@') .userinfoStart .hostStart := by decide
      simp [HostState.start, run_nil_iff, hstep]
    | cons c cs =>
      have hstep : HostMoves (chr '@') .userinfo .hostStart := by decide
      have hfirst : Run HostMoves .userinfoStart (c :: cs)
          (List.replicate (c :: cs).length .userinfo) ↔
            isUserinfoChar c = true ∧ ∀ b ∈ cs, isUserinfoChar b = true :=
        run_cons_replicate_iff (hostMoves_userinfo (.inl rfl) c) (hostMoves_userinfo (.inr rfl))
      rw [getLastD_replicate_cons, and_iff_right hstep, HostState.start, if_pos rfl, hfirst,
        List.forall_mem_cons]

/-! ### The authority in the first automaton -/

/-- The bytes after the user information. -/
theorem serverChars_hostText (h : a.Grammatical) : ∀ c ∈ a.hostText, isServerChar c = true := by
  have hhost : ∀ c ∈ a.host, isServerChar c = true := by
    cases hipv6 : a.ipv6 with
    | false => exact fun c hc => isServerChar_of_isHostChar (h.hostChars hipv6 c hc)
    | true =>
      obtain ⟨addr, zone, heq, -, haddr, hzone⟩ := h.address hipv6
      rw [heq]
      refine List.forall_mem_append.mpr ⟨fun c hc => isServerChar_of_isV6Char (haddr c hc), ?_⟩
      rcases hzone with rfl | ⟨z, rfl, -, hz⟩
      · exact List.forall_mem_nil _
      · exact List.forall_mem_cons.mpr
          ⟨by decide, fun c hc => isServerChar_of_isZoneChar (hz c hc)⟩
  have hport : ∀ c ∈ if a.port = [] then [] else chr ':' :: a.port, isServerChar c = true := by
    split
    · exact List.forall_mem_nil _
    · exact List.forall_mem_cons.mpr
        ⟨by decide, fun c hc => isServerChar_of_isNum (h.port c hc)⟩
  have hbracket : ∀ b : UInt8, isServerChar b = true →
      ∀ c ∈ if a.ipv6 then [b] else [], isServerChar c = true := by
    intro b hb
    split
    · exact List.forall_mem_singleton.mpr hb
    · exact List.forall_mem_nil _
  rw [hostText]
  exact List.forall_mem_append.mpr ⟨hbracket _ (by decide), List.forall_mem_append.mpr ⟨hhost,
    List.forall_mem_append.mpr ⟨hbracket _ (by decide), hport⟩⟩⟩

/-- Bytes of an authority without an at sign. -/
theorem run_serverChars {s : UrlState} (hs : s.InServer) {xs : List UInt8}
    (hxs : ∀ c ∈ xs, isServerChar c = true) :
    Run UrlMoves s xs (List.replicate xs.length .server) := by
  cases xs with
  | nil => exact .nil s
  | cons c cs =>
    obtain ⟨hc, hcs⟩ := List.forall_mem_cons.mp hxs
    exact (run_cons_replicate_iff (moves_server hs c).1
      fun c => (moves_server (.inr (.inl rfl)) c).1).mpr ⟨hc, hcs⟩

/-- What the first automaton does with an authority. -/
structure Serves (a : Authority) (servers : List UrlState) : Prop where
  length : servers.length = a.render.length
  rank : ∀ t ∈ servers, t.rank = 5
  run : Run UrlMoves .serverStart a.render servers
  atSign : UrlState.serverWithAt ∈ servers ↔ a.atSign = true

theorem exists_serves (h : a.Grammatical) : ∃ servers, a.Serves servers := by
  have hhost := serverChars_hostText h
  have hranks : ∀ n, ∀ t ∈ List.replicate n UrlState.server, t.rank = 5 := by
    intro n t ht
    rw [List.eq_of_mem_replicate ht]
    rfl
  have hno : ∀ n, UrlState.serverWithAt ∉ List.replicate n UrlState.server := by
    intro n hmem
    cases List.eq_of_mem_replicate hmem
  cases hat : a.atSign with
  | false =>
    have hrender : a.render = a.hostText := by simp [render, hostText, hat]
    refine ⟨List.replicate a.render.length .server, List.length_replicate, hranks _, ?_, ?_⟩
    · rw [hrender]
      exact run_serverChars (.inl rfl) hhost
    · exact iff_of_false (hno _) (by simp [hat])
  | true =>
    have hrender : a.render = a.userinfo ++ chr '@' :: a.hostText := by
      simp [render, hostText, hat]
    have huser : ∀ c ∈ a.userinfo, isServerChar c = true := fun c hc =>
      isServerChar_of_isUserinfoChar (h.userinfoChars c hc)
    have hstep : UrlMoves (chr '@')
        ((List.replicate a.userinfo.length UrlState.server).getLastD .serverStart)
        .serverWithAt := by
      cases a.userinfo with
      | nil => decide
      | cons c cs =>
        rw [getLastD_replicate_cons]
        decide
    refine ⟨List.replicate a.userinfo.length .server ++
      .serverWithAt :: List.replicate a.hostText.length .server, ?_, ?_, ?_, ?_⟩
    · rw [hrender]
      simp
    · exact List.forall_mem_append.mpr ⟨hranks _, List.forall_mem_cons.mpr ⟨rfl, hranks _⟩⟩
    · rw [hrender, run_append_iff List.length_replicate, run_cons_iff]
      exact ⟨run_serverChars (.inl rfl) huser, hstep, run_serverChars (.inr (.inr rfl)) hhost⟩
    · exact iff_of_true (by simp) hat

/-- An authority that was read may be followed by a path or a query. -/
theorem inServer_getLastD {servers : List UrlState} (h : ∀ t ∈ servers, t.rank = 5) :
    (servers.getLastD .serverStart).InServer := by
  rcases List.eq_nil_or_concat' servers with rfl | ⟨init, t, rfl⟩
  · exact .inl rfl
  · rw [List.getLastD_concat]
    have ht := h t (by simp)
    cases t with
    | server => exact .inr (.inl rfl)
    | serverWithAt => exact .inr (.inr rfl)
    | _ => cases ht

end Authority

end CHttp
