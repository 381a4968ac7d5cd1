import CHttp.Common.UrlParser

/-!
# The steps of the URL automata

What `parse_url_char` and `c_http_parse_host_char` can do but die, as relations: `UrlState.Step` and
`HostState.Step`. The states of each automaton have ranks, in the order of the parts of a URL and of
an authority, and no step goes back. For each state, a lemma says where a step can lead from there.
-/

namespace CHttp

/-! ### The first automaton -/

namespace UrlState

/-- The order of the parts of a URL, delimiters between them. -/
def rank : UrlState → ℕ
  | dead => 0
  | spacesBeforeUrl => 0
  | schema => 1
  | schemaSlash => 2
  | schemaSlashSlash => 3
  | serverStart => 4
  | server => 5
  | serverWithAt => 5
  | path => 6
  | queryStringStart => 7
  | queryString => 8
  | fragmentStart => 9
  | fragment => 10

/-- The states in which an authority goes on. -/
def InServer (s : UrlState) : Prop := s = serverStart ∨ s = server ∨ s = serverWithAt

/-- The states in which a query goes on. -/
def InQuery (s : UrlState) : Prop := s = queryStringStart ∨ s = queryString

/-- What `parse_url_char` can do but die. -/
inductive Step (ch : UInt8) : UrlState → UrlState → Prop
  | start (h : ch = chr '/' ∨ ch = chr '*') : Step ch spacesBeforeUrl path
  | startSchema (h : isAlpha ch) : Step ch spacesBeforeUrl schema
  | schema (h : isAlpha ch) : Step ch schema schema
  | colon (h : ch = chr ':') : Step ch schema schemaSlash
  | slash (h : ch = chr '/') : Step ch schemaSlash schemaSlashSlash
  | slashSlash (h : ch = chr '/') : Step ch schemaSlashSlash serverStart
  | serverPath {s : UrlState} (hs : s.InServer) (h : ch = chr '/') : Step ch s path
  | serverQuery {s : UrlState} (hs : s.InServer) (h : ch = chr '?') : Step ch s queryStringStart
  | serverAt {s : UrlState} (hs : s.InServer) (h : ch = chr '@') : Step ch s serverWithAt
  | server {s : UrlState} (hs : s.InServer) : Step ch s server
  | path : Step ch path path
  | pathQuery (h : ch = chr '?') : Step ch path queryStringStart
  | pathFragment (h : ch = chr '#') : Step ch path fragmentStart
  | query {s : UrlState} (hs : s.InQuery) : Step ch s queryString
  | queryFragment {s : UrlState} (hs : s.InQuery) (h : ch = chr '#') : Step ch s fragmentStart
  | hash (h : ch = chr '#') : Step ch fragmentStart fragmentStart
  | startFragment : Step ch fragmentStart fragment
  | fragment : Step ch fragment fragment

private theorem parseServerChar_cases {s : UrlState} (hs : s.InServer) (ch : UInt8) :
    parseServerChar ch = dead ∨ Step ch s (parseServerChar ch) := by
  unfold parseServerChar
  split
  · next h => exact Or.inr (Step.serverPath hs h)
  · split
    · next h => exact Or.inr (Step.serverQuery hs h)
    · split
      · next h => exact Or.inr (Step.serverAt hs h)
      · split
        · exact Or.inr (Step.server hs)
        · exact Or.inl rfl

private theorem parseUrlSwitch_query_cases {s : UrlState} (hs : s.InQuery) (ch : UInt8) :
    parseUrlSwitch s ch = dead ∨ Step ch s (parseUrlSwitch s ch) := by
  have heq : parseUrlSwitch s ch = parseUrlSwitch queryString ch := by
    obtain rfl | rfl := hs <;> rfl
  rw [heq]
  unfold parseUrlSwitch
  dsimp only
  split
  · exact Or.inr (Step.query hs)
  · split
    · exact Or.inr (Step.query hs)
    · split
      · next h => exact Or.inr (Step.queryFragment hs h)
      · exact Or.inl rfl

private theorem parseUrlSwitch_cases (s : UrlState) (ch : UInt8) :
    parseUrlSwitch s ch = dead ∨ Step ch s (parseUrlSwitch s ch) := by
  cases s with
  | dead => exact Or.inl rfl
  | spacesBeforeUrl =>
    unfold parseUrlSwitch
    dsimp only
    split
    · next h => exact Or.inr (Step.start h)
    · split
      · next h => exact Or.inr (Step.startSchema h)
      · exact Or.inl rfl
  | schema =>
    unfold parseUrlSwitch
    dsimp only
    split
    · next h => exact Or.inr (Step.schema h)
    · split
      · next h => exact Or.inr (Step.colon h)
      · exact Or.inl rfl
  | schemaSlash =>
    unfold parseUrlSwitch
    dsimp only
    split
    · next h => exact Or.inr (Step.slash h)
    · exact Or.inl rfl
  | schemaSlashSlash =>
    unfold parseUrlSwitch
    dsimp only
    split
    · next h => exact Or.inr (Step.slashSlash h)
    · exact Or.inl rfl
  | serverStart => exact parseServerChar_cases (Or.inl rfl) ch
  | server => exact parseServerChar_cases (Or.inr (Or.inl rfl)) ch
  | serverWithAt =>
    unfold parseUrlSwitch
    dsimp only
    split
    · exact Or.inl rfl
    · exact parseServerChar_cases (Or.inr (Or.inr rfl)) ch
  | path =>
    unfold parseUrlSwitch
    dsimp only
    split
    · exact Or.inr Step.path
    · split
      · next h => exact Or.inr (Step.pathQuery h)
      · split
        · next h => exact Or.inr (Step.pathFragment h)
        · exact Or.inl rfl
  | queryStringStart => exact parseUrlSwitch_query_cases (Or.inl rfl) ch
  | queryString => exact parseUrlSwitch_query_cases (Or.inr rfl) ch
  | fragmentStart =>
    unfold parseUrlSwitch
    dsimp only
    split
    · exact Or.inr Step.startFragment
    · split
      · exact Or.inr Step.startFragment
      · split
        · next h => exact Or.inr (Step.hash h)
        · exact Or.inl rfl
  | fragment =>
    unfold parseUrlSwitch
    dsimp only
    split
    · exact Or.inr Step.fragment
    · split
      · exact Or.inr Step.fragment
      · exact Or.inl rfl

theorem step_of_ne_dead {s : UrlState} {ch : UInt8} (h : parseUrlChar s ch ≠ dead) :
    Step ch s (parseUrlChar s ch) := by
  unfold parseUrlChar at h ⊢
  split at h
  · exact absurd rfl h
  · split at h
    · exact absurd rfl h
    · next h1 h2 =>
      rw [if_neg h1, if_neg h2]
      exact (parseUrlSwitch_cases s ch).resolve_left h

theorem Step.rank_le {s s' : UrlState} {ch : UInt8} (h : Step ch s s') : s.rank ≤ s'.rank := by
  cases h with
  | serverPath hs => obtain rfl | rfl | rfl := hs <;> decide
  | serverQuery hs => obtain rfl | rfl | rfl := hs <;> decide
  | serverAt hs => obtain rfl | rfl | rfl := hs <;> decide
  | server hs => obtain rfl | rfl | rfl := hs <;> decide
  | query hs => obtain rfl | rfl := hs <;> decide
  | queryFragment hs => obtain rfl | rfl := hs <;> decide
  | _ => decide

instance (s : UrlState) : Decidable s.InServer := inferInstanceAs (Decidable (_ ∨ _))

instance (s : UrlState) : Decidable s.InQuery := inferInstanceAs (Decidable (_ ∨ _))

variable {ch : UInt8} {s s' : UrlState}

theorem Step.of_fragment (h : Step ch .fragment s') : s' = .fragment := by
  cases h with
  | fragment => rfl
  | serverPath hs | serverQuery hs | serverAt hs | server hs => exact absurd hs (by decide)
  | query hs | queryFragment hs => exact absurd hs (by decide)

theorem Step.of_fragmentStart (h : Step ch .fragmentStart s') :
    (ch = chr '#' ∧ s' = .fragmentStart) ∨ s' = .fragment := by
  cases h with
  | hash h => exact Or.inl ⟨h, rfl⟩
  | startFragment => exact Or.inr rfl
  | serverPath hs | serverQuery hs | serverAt hs | server hs => exact absurd hs (by decide)
  | query hs | queryFragment hs => exact absurd hs (by decide)

theorem Step.of_query (hs : s.InQuery) (h : Step ch s s') :
    s' = .queryString ∨ (ch = chr '#' ∧ s' = .fragmentStart) := by
  cases h with
  | query => exact Or.inl rfl
  | queryFragment _ h => exact Or.inr ⟨h, rfl⟩
  | serverPath hs' | serverQuery hs' | serverAt hs' | server hs' =>
    obtain rfl | rfl := hs <;> exact absurd hs' (by decide)
  | _ => exact absurd hs (by decide)

theorem Step.of_path (h : Step ch .path s') :
    s' = .path ∨ (ch = chr '?' ∧ s' = .queryStringStart) ∨
      (ch = chr '#' ∧ s' = .fragmentStart) := by
  cases h with
  | path => exact Or.inl rfl
  | pathQuery h => exact Or.inr (Or.inl ⟨h, rfl⟩)
  | pathFragment h => exact Or.inr (Or.inr ⟨h, rfl⟩)
  | serverPath hs | serverQuery hs | serverAt hs | server hs => exact absurd hs (by decide)
  | query hs | queryFragment hs => exact absurd hs (by decide)

theorem Step.of_server (hs : s.InServer) (h : Step ch s s') :
    (s'.InServer ∧ s'.rank = 5) ∨ s' = .path ∨ (ch = chr '?' ∧ s' = .queryStringStart) := by
  cases h with
  | serverPath => exact Or.inr (Or.inl rfl)
  | serverQuery _ h => exact Or.inr (Or.inr ⟨h, rfl⟩)
  | serverAt => exact Or.inl ⟨by decide, rfl⟩
  | server => exact Or.inl ⟨by decide, rfl⟩
  | query hs' | queryFragment hs' =>
    obtain rfl | rfl | rfl := hs <;> exact absurd hs' (by decide)
  | _ => exact absurd hs (by decide)

theorem Step.of_schema (h : Step ch .schema s') :
    (isAlpha ch = true ∧ s' = .schema) ∨ (ch = chr ':' ∧ s' = .schemaSlash) := by
  cases h with
  | schema h => exact Or.inl ⟨h, rfl⟩
  | colon h => exact Or.inr ⟨h, rfl⟩
  | serverPath hs | serverQuery hs | serverAt hs | server hs => exact absurd hs (by decide)
  | query hs | queryFragment hs => exact absurd hs (by decide)

theorem Step.of_schemaSlash (h : Step ch .schemaSlash s') :
    ch = chr '/' ∧ s' = .schemaSlashSlash := by
  cases h with
  | slash h => exact ⟨h, rfl⟩
  | serverPath hs | serverQuery hs | serverAt hs | server hs => exact absurd hs (by decide)
  | query hs | queryFragment hs => exact absurd hs (by decide)

theorem Step.of_schemaSlashSlash (h : Step ch .schemaSlashSlash s') :
    ch = chr '/' ∧ s' = .serverStart := by
  cases h with
  | slashSlash h => exact ⟨h, rfl⟩
  | serverPath hs | serverQuery hs | serverAt hs | server hs => exact absurd hs (by decide)
  | query hs | queryFragment hs => exact absurd hs (by decide)

theorem Step.of_spacesBeforeUrl (h : Step ch .spacesBeforeUrl s') :
    s' = .path ∨ (isAlpha ch = true ∧ s' = .schema) := by
  cases h with
  | start => exact Or.inl rfl
  | startSchema h => exact Or.inr ⟨h, rfl⟩
  | serverPath hs | serverQuery hs | serverAt hs | server hs => exact absurd hs (by decide)
  | query hs | queryFragment hs => exact absurd hs (by decide)

end UrlState

/-! ### The second automaton -/

namespace HostState

/-- The order of the parts of an authority, delimiters between them. An address in brackets is in
the place of a host name. -/
def rank : HostState → ℕ
  | dead => 0
  | userinfoStart => 0
  | userinfo => 1
  | hostStart => 2
  | v6Start => 3
  | host => 4
  | v6 => 4
  | v6ZoneStart => 4
  | v6Zone => 4
  | v6End => 5
  | portStart => 6
  | port => 7

/-- The states in which user information goes on. -/
def InUserinfo (s : HostState) : Prop := s = userinfoStart ∨ s = userinfo

/-- The states in which a port goes on. -/
def InPort (s : HostState) : Prop := s = portStart ∨ s = port

/-- What `c_http_parse_host_char` can do but die. -/
inductive Step (ch : UInt8) : HostState → HostState → Prop
  | userinfo {s : HostState} (hs : s.InUserinfo) : Step ch s userinfo
  | atSign {s : HostState} (hs : s.InUserinfo) (h : ch = chr '@') : Step ch s hostStart
  | startHost : Step ch hostStart host
  | host : Step ch host host
  | bracket (h : ch = chr '[') : Step ch hostStart v6Start
  | startV6 : Step ch v6Start v6
  | v6 : Step ch v6 v6
  | percent : Step ch v6 v6ZoneStart
  | startZone : Step ch v6ZoneStart v6Zone
  | zone : Step ch v6Zone v6Zone
  | v6End (h : ch = chr ']') : Step ch v6 v6End
  | zoneEnd (h : ch = chr ']') : Step ch v6Zone v6End
  | colon (h : ch = chr ':') : Step ch host portStart
  | v6Colon (h : ch = chr ':') : Step ch v6End portStart
  | port {s : HostState} (hs : s.InPort) (h : isNum ch) : Step ch s port

private theorem parseHostChar_userinfo_cases {s : HostState} (hs : s.InUserinfo) (ch : UInt8) :
    parseHostChar s ch = dead ∨ Step ch s (parseHostChar s ch) := by
  have heq : parseHostChar s ch = parseHostChar userinfo ch := by
    obtain rfl | rfl := hs <;> rfl
  rw [heq]
  unfold parseHostChar
  dsimp only
  split
  · next h => exact Or.inr (Step.atSign hs h)
  · split
    · exact Or.inr (Step.userinfo hs)
    · exact Or.inl rfl

private theorem parseHostChar_port_cases {s : HostState} (hs : s.InPort) (ch : UInt8) :
    parseHostChar s ch = dead ∨ Step ch s (parseHostChar s ch) := by
  have heq : parseHostChar s ch = parseHostChar port ch := by
    obtain rfl | rfl := hs <;> rfl
  rw [heq]
  unfold parseHostChar
  dsimp only
  split
  · next h => exact Or.inr (Step.port hs h)
  · exact Or.inl rfl

theorem step_of_ne_dead {s : HostState} {ch : UInt8} (hne : parseHostChar s ch ≠ dead) :
    Step ch s (parseHostChar s ch) := by
  refine Or.resolve_left ?_ hne
  clear hne
  cases s with
  | dead => exact Or.inl rfl
  | userinfoStart => exact parseHostChar_userinfo_cases (Or.inl rfl) ch
  | userinfo => exact parseHostChar_userinfo_cases (Or.inr rfl) ch
  | hostStart =>
    unfold parseHostChar
    dsimp only
    split
    · next h => exact Or.inr (Step.bracket h)
    · split
      · exact Or.inr Step.startHost
      · exact Or.inl rfl
  | v6Start =>
    unfold parseHostChar
    dsimp only
    split
    · exact Or.inr Step.startV6
    · exact Or.inl rfl
  | host =>
    unfold parseHostChar
    dsimp only
    split
    · exact Or.inr Step.host
    · split
      · next h => exact Or.inr (Step.colon h)
      · exact Or.inl rfl
  | v6 =>
    unfold parseHostChar
    dsimp only
    split
    · next h => exact Or.inr (Step.v6End h)
    · split
      · exact Or.inr Step.v6
      · split
        · exact Or.inr Step.percent
        · exact Or.inl rfl
  | v6End =>
    unfold parseHostChar
    dsimp only
    split
    · next h => exact Or.inr (Step.v6Colon h)
    · exact Or.inl rfl
  | v6ZoneStart =>
    unfold parseHostChar
    dsimp only
    split
    · exact Or.inr Step.startZone
    · exact Or.inl rfl
  | v6Zone =>
    unfold parseHostChar
    dsimp only
    split
    · next h => exact Or.inr (Step.zoneEnd h)
    · split
      · exact Or.inr Step.zone
      · exact Or.inl rfl
  | portStart => exact parseHostChar_port_cases (Or.inl rfl) ch
  | port => exact parseHostChar_port_cases (Or.inr rfl) ch

theorem Step.rank_le {s s' : HostState} {ch : UInt8} (h : Step ch s s') : s.rank ≤ s'.rank := by
  cases h with
  | userinfo hs => obtain rfl | rfl := hs <;> decide
  | atSign hs => obtain rfl | rfl := hs <;> decide
  | port hs => obtain rfl | rfl := hs <;> decide
  | _ => decide

instance (s : HostState) : Decidable s.InUserinfo := inferInstanceAs (Decidable (_ ∨ _))

instance (s : HostState) : Decidable s.InPort := inferInstanceAs (Decidable (_ ∨ _))

/-- The states in which an address in brackets goes on. -/
def InV6 (s : HostState) : Prop := s = v6 ∨ s = v6ZoneStart ∨ s = v6Zone

instance (s : HostState) : Decidable s.InV6 := inferInstanceAs (Decidable (_ ∨ _))

variable {ch : UInt8} {s s' : HostState}

theorem Step.of_port (hs : s.InPort) (h : Step ch s s') : isNum ch = true ∧ s' = .port := by
  cases h with
  | port _ h => exact ⟨h, rfl⟩
  | userinfo hs' | atSign hs' => obtain rfl | rfl := hs <;> exact absurd hs' (by decide)
  | _ => exact absurd hs (by decide)

theorem Step.of_v6End (h : Step ch .v6End s') : ch = chr ':' ∧ s' = .portStart := by
  cases h with
  | v6Colon h => exact ⟨h, rfl⟩
  | userinfo hs | atSign hs => exact absurd hs (by decide)
  | port hs => exact absurd hs (by decide)

theorem Step.of_host (h : Step ch .host s') : s' = .host ∨ (ch = chr ':' ∧ s' = .portStart) := by
  cases h with
  | host => exact Or.inl rfl
  | colon h => exact Or.inr ⟨h, rfl⟩
  | userinfo hs | atSign hs => exact absurd hs (by decide)
  | port hs => exact absurd hs (by decide)

theorem Step.of_v6 (hs : s.InV6) (h : Step ch s s') :
    (s'.InV6 ∧ s'.rank = 4) ∨ (ch = chr ']' ∧ s' = .v6End) := by
  cases h with
  | v6 | percent | startZone | zone => exact Or.inl ⟨by decide, rfl⟩
  | v6End h => exact Or.inr ⟨h, rfl⟩
  | zoneEnd h => exact Or.inr ⟨h, rfl⟩
  | userinfo hs' | atSign hs' => obtain rfl | rfl | rfl := hs <;> exact absurd hs' (by decide)
  | port hs' => obtain rfl | rfl | rfl := hs <;> exact absurd hs' (by decide)
  | _ => exact absurd hs (by decide)

theorem Step.of_v6Start (h : Step ch .v6Start s') : s' = .v6 := by
  cases h with
  | startV6 => rfl
  | userinfo hs | atSign hs => exact absurd hs (by decide)
  | port hs => exact absurd hs (by decide)

theorem Step.of_hostStart (h : Step ch .hostStart s') :
    s' = .host ∨ (ch = chr '[' ∧ s' = .v6Start) := by
  cases h with
  | startHost => exact Or.inl rfl
  | bracket h => exact Or.inr ⟨h, rfl⟩
  | userinfo hs | atSign hs => exact absurd hs (by decide)
  | port hs => exact absurd hs (by decide)

theorem Step.of_userinfo (hs : s.InUserinfo) (h : Step ch s s') :
    s' = .userinfo ∨ (ch = chr '@' ∧ s' = .hostStart) := by
  cases h with
  | userinfo => exact Or.inl rfl
  | atSign _ h => exact Or.inr ⟨h, rfl⟩
  | port hs' => obtain rfl | rfl := hs <;> exact absurd hs' (by decide)
  | _ => exact absurd hs (by decide)

end HostState

end CHttp
