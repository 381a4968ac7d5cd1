import CHttp.Common.UrlParts

/-!
# The grammar of URLs

The texts that the two automata of `c_http_parser_parse_url` read, as a grammar for the parts of a
URL. A scheme stands before an authority; what follows an authority starts with a slash or a
question mark, so a fragment does not follow it at once. For both automata the states that read a
text are computed from its parts, and the parts are grammatical exactly when the states do.
-/

namespace CHttp

open RankedRun

/-! ### Character classes -/

/-- The bytes of a query. -/
def isQueryChar (c : UInt8) : Bool := isUrlChar c || c = chr '?'

/-- The bytes of a fragment, after the first. -/
def isFragmentChar (c : UInt8) : Bool := isQueryChar c || c = chr '#'

/-- The bytes of an authority in the first automaton, but the at sign. -/
def isServerChar (c : UInt8) : Bool := isUserinfoChar c || c = chr '[' || c = chr ']'

/-- The bytes that `parse_url_char` refuses in every state. -/
def IsBlank (c : UInt8) : Prop :=
  (c = chr ' ' ∨ c = chr '\r' ∨ c = chr '\n') ∨ c = chr '\t' ∨ c = 12

instance (c : UInt8) : Decidable (IsBlank c) := inferInstanceAs (Decidable (_ ∨ _))

/-- A class that has none of these bytes. -/
theorem not_isBlank_of {p : UInt8 → Bool} {c : UInt8}
    (hp : [chr ' ', chr '\r', chr '\n', chr '\t', 12].any p = false) (hc : p c = true) :
    ¬ IsBlank c := by
  intro hblank
  have hmem : c ∈ [chr ' ', chr '\r', chr '\n', chr '\t', 12] := by
    rcases hblank with (rfl | rfl | rfl) | rfl | rfl <;> simp
  exact List.any_eq_false.mp hp c hmem hc

/-! The first automaton lets through what the second one reads. -/

private theorem isAlphanum_of_isHex {c : UInt8} (hc : isHex c = true) : isAlphanum c = true := by
  rw [isHex, Bool.or_eq_true, Bool.and_eq_true, decide_eq_true_iff, decide_eq_true_iff] at hc
  rw [isAlphanum, Bool.or_eq_true, isAlpha, Bool.and_eq_true, decide_eq_true_iff,
    decide_eq_true_iff]
  have hfz : chr 'f' ≤ chr 'z' := by decide
  exact hc.symm.imp_left fun h => ⟨h.1, UInt8.le_trans h.2 hfz⟩

theorem isServerChar_of_isUserinfoChar {c : UInt8} (hc : isUserinfoChar c = true) :
    isServerChar c = true := by
  rw [isServerChar, hc, Bool.true_or, Bool.true_or]

private theorem isServerChar_of_isAlphanum {c : UInt8} (hc : isAlphanum c = true) :
    isServerChar c = true := by
  refine isServerChar_of_isUserinfoChar ?_
  rw [isUserinfoChar, hc, Bool.true_or, Bool.true_or]

theorem isServerChar_of_isNum {c : UInt8} (hc : isNum c = true) : isServerChar c = true :=
  isServerChar_of_isAlphanum (Bool.or_eq_true_iff.mpr (Or.inr hc))

theorem isServerChar_of_isHostChar {c : UInt8} (hc : isHostChar c = true) :
    isServerChar c = true := by
  simp only [isHostChar, Bool.or_eq_true, decide_eq_true_iff] at hc
  obtain (hc | rfl) | rfl := hc
  · exact isServerChar_of_isAlphanum hc
  · decide
  · decide

theorem isServerChar_of_isV6Char {c : UInt8} (hc : isV6Char c = true) : isServerChar c = true := by
  simp only [isV6Char, Bool.or_eq_true, decide_eq_true_iff] at hc
  obtain (hc | rfl) | rfl := hc
  · exact isServerChar_of_isAlphanum (isAlphanum_of_isHex hc)
  · decide
  · decide

theorem isServerChar_of_isZoneChar {c : UInt8} (hc : isZoneChar c = true) :
    isServerChar c = true := by
  simp only [isZoneChar, Bool.or_eq_true, decide_eq_true_iff] at hc
  obtain ((((hc | rfl) | rfl) | rfl) | rfl) | rfl := hc
  · exact isServerChar_of_isAlphanum hc
  all_goals decide

/-! ### The grammar -/

/-- The text from the path on. -/
structure UrlTail.Grammatical (t : UrlTail) : Prop extends t.Delimited where
  pathChars : ∀ c ∈ t.path, isUrlChar c = true
  queryChars : ∀ c ∈ t.query, isQueryChar c = true
  fragmentChars : ∀ c ∈ t.fragment, isFragmentChar c = true
  /-- The hashes before a fragment are not part of it. -/
  fragmentHead : t.fragment.head? ≠ some (chr '#')

/-- An IPv6 address, perhaps with a zone. -/
def IsAddress (host : List UInt8) : Prop :=
  ∃ addr zone, host = addr ++ zone ∧ addr ≠ [] ∧ (∀ c ∈ addr, isV6Char c = true) ∧
    (zone = [] ∨ ∃ z, zone = chr '%' :: z ∧ z ≠ [] ∧ ∀ c ∈ z, isZoneChar c = true)

/-- An authority. -/
structure Authority.Grammatical (a : Authority) : Prop extends a.WellFormed where
  userinfoChars : ∀ c ∈ a.userinfo, isUserinfoChar c = true
  address : a.ipv6 = true → IsAddress a.host
  hostChars : a.ipv6 = false → ∀ c ∈ a.host, isHostChar c = true
  portRange : a.port ≠ [] → ∃ v ≤ 65535, Http1.number? a.port = some v

/-- A URL: a path and what follows it, or a scheme, an authority and what follows them. -/
structure UrlParts.Grammatical (p : UrlParts) : Prop where
  tail : p.tail.Grammatical
  scheme : ∀ c ∈ p.scheme, isAlpha c = true
  noAuthority : p.scheme = [] → p.authority = Authority.none
  pathFirst : p.scheme = [] →
    p.tail.path.head? = some (chr '/') ∨ p.tail.path.head? = some (chr '*')
  authority : p.scheme ≠ [] → p.authority.Grammatical
  slashFirst : p.scheme ≠ [] → p.tail.path = [] ∨ p.tail.path.head? = some (chr '/')
  noFragment : p.scheme ≠ [] → p.tail.path = [] → p.tail.question = false → p.tail.hashes = 0

/-! ### What each state reads -/

/-- A step of the first automaton. -/
abbrev UrlMoves : UInt8 → UrlState → UrlState → Prop := Moves parseUrlChar .dead

section UrlMoves

variable {c : UInt8} {s s' : UrlState}

open UrlState

/-- What a state does with a byte that is not refused everywhere. -/
theorem urlMoves_iff :
    UrlMoves c s s' ↔ ¬ IsBlank c ∧ parseUrlSwitch s c = s' ∧ s' ≠ dead := by
  by_cases hblank : IsBlank c
  · have hdead : parseUrlChar s c = dead := by
      rcases hblank with h | h
      · exact if_pos h
      · rw [parseUrlChar, if_pos h, ite_self]
    simp only [Moves, hdead, hblank]
    grind
  · obtain ⟨h1, h2⟩ := not_or.mp hblank
    have hswitch : parseUrlChar s c = parseUrlSwitch s c := by
      rw [parseUrlChar, if_neg h1, if_neg h2]
    change parseUrlChar s c = s' ∧ _ ↔ _
    rw [hswitch, and_iff_right hblank]

theorem moves_start_path (c : UInt8) :
    UrlMoves c spacesBeforeUrl path ↔ c = chr '/' ∨ c = chr '*' := by
  have hblank : c = chr '/' ∨ c = chr '*' → ¬ IsBlank c := by
    rintro (rfl | rfl) <;> decide
  rw [urlMoves_iff, parseUrlSwitch]
  split_ifs <;> simp_all

theorem moves_start_schema (c : UInt8) :
    UrlMoves c spacesBeforeUrl schema ↔ isAlpha c = true := by
  have hblank : isAlpha c = true → ¬ IsBlank c := not_isBlank_of rfl
  have hother : c = chr '/' ∨ c = chr '*' → isAlpha c = false := by
    rintro (rfl | rfl) <;> decide
  rw [urlMoves_iff, parseUrlSwitch]
  split_ifs <;> simp_all

theorem moves_schema (c : UInt8) : UrlMoves c schema schema ↔ isAlpha c = true := by
  have hblank : isAlpha c = true → ¬ IsBlank c := not_isBlank_of rfl
  rw [urlMoves_iff, parseUrlSwitch]
  split_ifs <;> simp_all

theorem moves_path (c : UInt8) : UrlMoves c path path ↔ isUrlChar c = true := by
  have hblank : isUrlChar c = true → ¬ IsBlank c := not_isBlank_of rfl
  rw [urlMoves_iff, parseUrlSwitch]
  split_ifs <;> simp_all

theorem moves_question (c : UInt8) :
    UrlMoves c queryStringStart queryString ↔ isQueryChar c = true := by
  have hblank : isQueryChar c = true → ¬ IsBlank c := not_isBlank_of rfl
  rw [urlMoves_iff, parseUrlSwitch]
  split_ifs <;> simp_all [isQueryChar]

theorem moves_query (c : UInt8) :
    UrlMoves c queryString queryString ↔ isQueryChar c = true := by
  rw [← moves_question, urlMoves_iff, urlMoves_iff]
  rfl

theorem moves_hash (c : UInt8) : UrlMoves c fragmentStart fragmentStart ↔ c = chr '#' := by
  have hblank : c = chr '#' → ¬ IsBlank c := by
    rintro rfl
    decide
  have hurl : isUrlChar c = true → c ≠ chr '#' := by
    rintro hc rfl
    exact absurd hc (by decide)
  have hquestion : chr '?' ≠ chr '#' := by decide
  rw [urlMoves_iff, parseUrlSwitch]
  split_ifs <;> simp_all

theorem moves_fragmentStart (c : UInt8) :
    UrlMoves c fragmentStart fragment ↔ isFragmentChar c = true ∧ c ≠ chr '#' := by
  have hblank : isFragmentChar c = true → ¬ IsBlank c := not_isBlank_of rfl
  have hurl : isUrlChar c = true → c ≠ chr '#' := by
    rintro hc rfl
    exact absurd hc (by decide)
  have hquestion : chr '?' ≠ chr '#' := by decide
  rw [urlMoves_iff, parseUrlSwitch]
  split_ifs <;> simp_all [isFragmentChar, isQueryChar]

theorem moves_fragment (c : UInt8) :
    UrlMoves c fragment fragment ↔ isFragmentChar c = true := by
  have hblank : isFragmentChar c = true → ¬ IsBlank c := not_isBlank_of rfl
  rw [urlMoves_iff, parseUrlSwitch]
  split_ifs <;> simp_all [isFragmentChar, isQueryChar]

/-- Where a byte of an authority leads. -/
theorem parseServerChar_iff (c : UInt8) :
    (parseServerChar c = server ↔ isServerChar c = true) ∧
      (parseServerChar c = path ↔ c = chr '/') ∧
      (parseServerChar c = queryStringStart ↔ c = chr '?') ∧ parseServerChar c ≠ fragmentStart := by
  have hslash : c = chr '/' → isServerChar c = false := by
    rintro rfl
    decide
  have hquestion : c = chr '?' → isServerChar c = false ∧ c ≠ chr '/' := by
    rintro rfl
    decide
  have hat : c = chr '@' → isServerChar c = false := by
    rintro rfl
    decide
  rw [parseServerChar]
  split_ifs <;> simp_all [isServerChar]

theorem moves_server (hs : s.InServer) (c : UInt8) :
    (UrlMoves c s server ↔ isServerChar c = true) ∧ (UrlMoves c s path ↔ c = chr '/') ∧
      (UrlMoves c s queryStringStart ↔ c = chr '?') ∧ ¬ UrlMoves c s fragmentStart := by
  by_cases hat : c = chr '@'
  · subst hat
    obtain rfl | rfl | rfl := hs <;> decide
  · -- all three states fall through to the same case
    have hswitch : parseUrlSwitch s c = parseServerChar c := by
      obtain rfl | rfl | rfl := hs
      · rfl
      · rfl
      · exact if_neg hat
    obtain ⟨hserver, hslash, hquestion, hhash⟩ := parseServerChar_iff c
    rw [urlMoves_iff, urlMoves_iff, urlMoves_iff, urlMoves_iff, hswitch, hserver, hslash,
      hquestion]
    refine ⟨⟨fun h => h.2.1, fun h => ⟨not_isBlank_of rfl h, h, by decide⟩⟩,
      ⟨fun h => h.2.1, fun h => ⟨?_, h, by decide⟩⟩,
      ⟨fun h => h.2.1, fun h => ⟨?_, h, by decide⟩⟩, fun h => hhash h.2.1⟩
    · rw [h]
      decide
    · rw [h]
      decide

end UrlMoves

/-- A step of the second automaton. -/
abbrev HostMoves : UInt8 → HostState → HostState → Prop := Moves parseHostChar .dead

section HostMoves

open HostState

theorem hostMoves_userinfo {s : HostState} (hs : s.InUserinfo) (c : UInt8) :
    HostMoves c s userinfo ↔ isUserinfoChar c = true := by
  have hat : c = chr '@' → isUserinfoChar c = false := by
    rintro rfl
    decide
  obtain rfl | rfl := hs <;> simp only [Moves, parseHostChar] <;> split_ifs <;> simp_all

theorem hostMoves_host (c : UInt8) :
    (HostMoves c hostStart host ↔ isHostChar c = true) ∧
      (HostMoves c host host ↔ isHostChar c = true) := by
  have hopen : c = chr '[' → isHostChar c = false := by
    rintro rfl
    decide
  simp only [Moves, parseHostChar]
  split_ifs <;> simp_all

theorem hostMoves_v6 (c : UInt8) :
    (HostMoves c v6Start v6 ↔ isV6Char c = true) ∧ (HostMoves c v6 v6 ↔ isV6Char c = true) ∧
      (HostMoves c v6 v6ZoneStart ↔ c = chr '%') := by
  have hclose : c = chr ']' → isV6Char c = false ∧ c ≠ chr '%' := by
    rintro rfl
    decide
  have hpercent : isV6Char c = true → c ≠ chr '%' := by
    rintro hc rfl
    exact absurd hc (by decide)
  simp only [Moves, parseHostChar]
  split_ifs <;> simp_all

theorem hostMoves_zone (c : UInt8) :
    (HostMoves c v6ZoneStart v6Zone ↔ isZoneChar c = true) ∧
      (HostMoves c v6Zone v6Zone ↔ isZoneChar c = true) := by
  have hclose : c = chr ']' → isZoneChar c = false := by
    rintro rfl
    decide
  simp only [Moves, parseHostChar]
  split_ifs <;> simp_all

theorem hostMoves_port {s : HostState} (hs : s.InPort) (c : UInt8) :
    HostMoves c s port ↔ isNum c = true := by
  obtain rfl | rfl := hs <;> simp only [Moves, parseHostChar] <;> split_ifs <;> simp_all

/-- Where a byte of a host leads, in a name or in an address. -/
theorem hostMoves_of_rank {c : UInt8} {s s' : HostState} (h : HostMoves c s s') (hs : s'.rank = 4) :
    (s = hostStart → s' = host) ∧ (s = host → s' = host) ∧ (s = v6Start → s' = v6) ∧
      (s = v6 → s' = v6 ∨ s' = v6ZoneStart) ∧ (s = v6ZoneStart → s' = v6Zone) ∧
      (s = v6Zone → s' = v6Zone) := by
  have hstep : Step c s s' := by
    obtain ⟨rfl, hne⟩ := h
    exact step_of_ne_dead hne
  cases hstep <;> simp_all [rank]

end HostMoves

end CHttp
