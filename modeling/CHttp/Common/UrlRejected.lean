import CHttp.Common.UrlParts

/-!
# Rejected URLs

`Url_new` does not look at what the parser returns. A rejected URL leaves the parts of it that were
read, so all fields are empty only if the lengths that were read are multiples of 65536, which is to
say zero for any string that is not very long. The host pass makes no exception: where the scheme is
as long as to leave no trace, the offset of the host wraps around into the scheme, and its letters
are taken for a host.
-/

namespace CHttp

open RankedRun

variable {url : List UInt8} {isConnect : Bool} {u₀ u : ParserUrl} {l : UrlLoop}

private theorem u16_eq_zero_iff {n : ℕ} : u16 n = 0 ↔ 65536 ∣ n := (Nat.dvd_iff_mod_eq_zero ..).symm

private theorem UrlLoop.After.len_eq (h : l.After ParserUrl.init (urlStates isConnect url))
    (uf : UrlField) : (l.u.fieldData uf).len = u16 (urlLen isConnect url uf) := by
  rw [h.fieldData uf]
  exact len_stored rfl _ _

/-- A letter starts a host, or user information. -/
theorem hostStates_letter (foundAt : Bool) {c : UInt8} (hc : isAlpha c = true) (cs : List UInt8) :
    ∃ uf : UrlField, uf.InAuthority ∧
      0 < occ HostState.rank (hostStates foundAt (c :: cs)) uf.hostRank := by
  have hat : c ≠ chr '@' := by
    rintro rfl
    exact absurd hc (by decide)
  have hbracket : c ≠ chr '[' := by
    rintro rfl
    exact absurd hc (by decide)
  cases foundAt with
  | true =>
    have hnext : parseHostChar .userinfoStart c = .userinfo := by
      simp [parseHostChar, hat, isUserinfoChar, isAlphanum, hc]
    refine ⟨.userinfo, by decide, ?_⟩
    rw [hostStates, HostState.start, if_pos rfl, states_cons (by rw [hnext]; decide), hnext,
      occ_cons]
    exact Nat.succ_pos _
  | false =>
    have hnext : parseHostChar .hostStart c = .host := by
      simp [parseHostChar, hbracket, isHostChar, isAlphanum, hc]
    refine ⟨.host, by decide, ?_⟩
    rw [hostStates, HostState.start, if_neg Bool.false_ne_true,
      states_cons (by rw [hnext]; decide), hnext, occ_cons]
    exact Nat.succ_pos _

/-- A field of the authority is as long as it was scanned: the scan is of less than 65536 bytes. -/
theorem HostRead.len_of_inAuthority (h : HostRead url isConnect ParserUrl.init l u)
    {uf : UrlField} (huf : uf.InAuthority) :
    (u.fieldData uf).len =
      occ HostState.rank (hostStates l.foundAt (scanned url l.u)) uf.hostRank := by
  obtain ⟨t, hu⟩ := h.afterHost
  have hocc : occ HostState.rank (hostStates l.foundAt (scanned url l.u)) uf.hostRank < 65536 :=
    calc _ ≤ (hostStates l.foundAt (scanned url l.u)).length := List.countP_le_length
      _ ≤ (scanned url l.u).length := length_states_le
      _ ≤ (l.u.fieldData .host).len := by
        rw [scanned, length_slice]
        exact Nat.min_le_left _ _
      _ < 65536 := h.after.len_lt .host
  rw [hu.fieldData uf, storedPart, len_stored (h.len_setLen huf), u16_eq_self hocc]

/-- Where the scheme is as long as to disappear, the host pass scans letters of the scheme. -/
theorem HostRead.scanned_letter (h : HostRead url false ParserUrl.init l u)
    (hschema : 65536 ∣ urlLen false url .schema) (hhost : ¬ 65536 ∣ urlLen false url .host) :
    ∃ c cs, scanned url l.u = c :: cs ∧ isAlpha c = true := by
  obtain ⟨scheme, authority, t, hurl⟩ := exists_hostUrl h.live h.pos
  rw [hurl.schema_len] at hschema
  have hlong : 65536 ≤ scheme.length :=
    Nat.le_of_dvd (List.length_pos_iff.mpr hurl.scheme_ne) hschema
  have hoff : u16 (urlOff false url .host) = 3 := by
    obtain ⟨k, hk⟩ := hschema
    rw [hurl.host_off, List.length_append, hk]
    exact Nat.mul_add_mod _ _ _
  obtain ⟨n, hn⟩ := Nat.exists_eq_succ_of_ne_zero (mt u16_eq_zero_iff.mp hhost)
  rw [scanned, h.fieldData_host h.pos, hoff, hn]
  have heq := hurl.eq
  have halpha := hurl.isAlpha
  -- the scan starts at the fourth letter of the scheme
  rcases scheme with _ | ⟨a, _ | ⟨b, _ | ⟨c, _ | ⟨d, scheme⟩⟩⟩⟩
  · exact absurd hlong (by decide)
  · exact absurd hlong (by simp)
  · exact absurd hlong (by simp)
  · exact absurd hlong (by simp)
  · have hd : isAlpha d = true := halpha d (by simp)
    rw [heq]
    exact ⟨d, _, rfl, hd⟩

/-- What a host pass leaves is empty only if there was nothing to scan. -/
theorem HostRead.forall_len_eq_zero_iff (h : HostRead url false ParserUrl.init l u) :
    (∀ uf, (u.fieldData uf).len = 0) ↔ ∀ uf, 65536 ∣ urlLen false url uf := by
  have hfirst : ∀ uf : UrlField, ¬ uf.InAuthority →
      ((u.fieldData uf).len = 0 ↔ 65536 ∣ urlLen false url uf) := by
    intro uf huf
    rw [h.fieldData_of_not_inAuthority huf, h.after.len_eq uf]
    exact u16_eq_zero_iff
  constructor
  · intro hall uf
    by_cases huf : uf.InAuthority
    · rcases huf with rfl | rfl | rfl
      · rw [urlLen_eq_zero (Or.inr rfl)]
        exact Nat.dvd_zero _
      · by_contra hhost
        have hschema := (hfirst .schema (by decide)).mp (hall .schema)
        obtain ⟨c, cs, hscan, hc⟩ := h.scanned_letter hschema hhost
        obtain ⟨g, hg, hocc⟩ := hostStates_letter l.foundAt hc cs
        have hlen := h.len_of_inAuthority hg
        rw [hall g, hscan] at hlen
        exact absurd hlen hocc.ne
      · rw [urlLen_eq_zero (Or.inl rfl)]
        exact Nat.dvd_zero _
    · exact (hfirst uf huf).mp (hall uf)
  · intro hall uf
    by_cases huf : uf.InAuthority
    · have hnil : scanned url l.u = [] := by
        rw [scanned, h.fieldData_host h.pos, u16_eq_zero_iff.mpr (hall .host), slice,
          List.take_zero]
      rw [h.len_of_inAuthority huf, hnil]
      rfl
    · exact (hfirst uf huf).mpr (hall uf)

/-- What a rejected URL leaves is empty only if nothing is seen to have been read. -/
theorem forall_len_eq_zero_iff {rc : ℕ} (hrc : rc ≠ 0)
    (h : UrlOutcome url false ParserUrl.init rc u) :
    (∀ uf, (u.fieldData uf).len = 0) ↔ ∀ uf, 65536 ∣ urlLen false url uf := by
  cases h with
  | empty h =>
    subst h
    exact iff_of_true (fun _ => rfl) fun uf => Nat.dvd_zero _
  | refused hl => exact forall_congr' fun uf => by rw [hl.len_eq uf, u16_eq_zero_iff]
  | noHost hl => exact forall_congr' fun uf => by rw [hl.after.len_eq uf, u16_eq_zero_iff]
  | hostRefused hu => exact hu.forall_len_eq_zero_iff
  | notConnect hu => exact hu.forall_len_eq_zero_iff
  | portRefused hu => exact hu.forall_len_eq_zero_iff
  | path => exact absurd rfl hrc
  | host => exact absurd rfl hrc
  | hostPort => exact absurd rfl hrc

private theorem UrlLoop.After.inside (h : l.After ParserUrl.init (urlStates isConnect url))
    {uf : UrlField} (hne : (l.u.fieldData uf).len ≠ 0) :
    (l.u.fieldData uf).off + (l.u.fieldData uf).len ≤ url.length := by
  rw [h.fieldData uf] at hne ⊢
  rcases Nat.eq_zero_or_pos (occ UrlState.rank (urlStates isConnect url) uf.rank) with hocc | hocc
  · rw [storedPart_of_occ_eq_zero hocc] at hne
    exact absurd rfl hne
  · refine (storedPart_le hocc).trans ?_
    rw [Nat.zero_add]
    exact length_urlStates_le

private theorem HostRead.inside (h : HostRead url isConnect ParserUrl.init l u) {uf : UrlField}
    (hne : (u.fieldData uf).len ≠ 0) :
    (u.fieldData uf).off + (u.fieldData uf).len ≤ url.length := by
  by_cases huf : uf.InAuthority
  · obtain ⟨t, hu⟩ := h.afterHost
    rw [h.len_of_inAuthority huf] at hne
    have hocc := Nat.pos_of_ne_zero hne
    rw [hu.fieldData uf]
    exact (storedPart_le hocc).trans
      (add_length_hostStates_le _ (hocc.trans_le List.countP_le_length))
  · rw [h.fieldData_of_not_inAuthority huf] at hne ⊢
    exact h.after.inside hne

/-- A field that is not empty is inside the text. -/
theorem UrlOutcome.inside {rc : ℕ} (h : UrlOutcome url isConnect ParserUrl.init rc u)
    {uf : UrlField} (hne : (u.fieldData uf).len ≠ 0) :
    (u.fieldData uf).off + (u.fieldData uf).len ≤ url.length := by
  rcases h.fieldData_cases with rfl | ⟨l, hl, rfl⟩ | ⟨l, u', hu, heq⟩
  · exact absurd rfl hne
  · exact hl.inside hne
  · rw [heq] at hne ⊢
    exact hu.inside hne

/-- The buffer for a field is empty exactly if its length is zero. -/
theorem slice_eq_nil_iff {rc : ℕ} (h : UrlOutcome (cString url) isConnect ParserUrl.init rc u)
    (uf : UrlField) :
    slice url (u.fieldData uf).off (u.fieldData uf).len = [] ↔ (u.fieldData uf).len = 0 := by
  have hstr : (cString url).length ≤ url.length := (List.takeWhile_prefix _).length_le
  constructor
  · intro hnil
    by_contra hne
    have hin := h.inside hne
    have hlen := congrArg List.length hnil
    rw [length_slice, List.length_nil] at hlen
    omega
  · intro hzero
    rw [hzero, slice, List.take_zero]

/-- The bytes with which a URL can start. -/
def isFirstChar (c : UInt8) : Bool := c = chr '/' || c = chr '*' || isAlpha c

private theorem parseUrlChar_start (c : UInt8) :
    parseUrlChar .spacesBeforeUrl c = .dead ↔ isFirstChar c = false := by
  constructor
  · intro hdead
    by_contra hfirst
    rw [Bool.not_eq_false, isFirstChar, Bool.or_eq_true, Bool.or_eq_true, decide_eq_true_eq,
      decide_eq_true_eq] at hfirst
    rcases hfirst with (rfl | rfl) | halpha
    · exact absurd hdead (by decide)
    · exact absurd hdead (by decide)
    · have hne : ∀ d, isAlpha d = false → c ≠ d := by
        rintro d hd rfl
        exact Bool.noConfusion (hd.symm.trans halpha)
      have hnext : parseUrlChar .spacesBeforeUrl c = .schema := by
        simp [parseUrlChar, parseUrlSwitch, halpha, hne (chr ' ') (by decide),
          hne (chr '\r') (by decide), hne (chr '\n') (by decide), hne (chr '\t') (by decide),
          hne 12 (by decide), hne (chr '/') (by decide), hne (chr '*') (by decide)]
      rw [hnext] at hdead
      cases hdead
  · intro hfirst
    simp only [isFirstChar, Bool.or_eq_false_iff, decide_eq_false_iff_not] at hfirst
    simp [parseUrlChar, parseUrlSwitch, hfirst]

/-- `Url_new` returns a URL without a single component. -/
def YieldsNothing (junk : UrlField → ByteMemory) (url : List UInt8) : Prop :=
  ∃ this, Url.new junk url = .ok this ∧ ∀ uf, (this.get uf).data = []

/-- Of a string that is not very long, the first byte decides. -/
theorem forall_dvd_urlLen_iff (hlt : url.length < 65536) :
    (∀ uf, 65536 ∣ urlLen false url uf) ↔ ∀ c ∈ url.head?, isFirstChar c = false := by
  cases url with
  | nil => exact iff_of_true (fun uf => Nat.dvd_zero _) (by simp)
  | cons c cs =>
    have hstart : UrlState.start false = .spacesBeforeUrl := rfl
    rw [List.head?_cons]
    by_cases hdead : parseUrlChar .spacesBeforeUrl c = .dead
    · refine iff_of_true (fun uf => ?_) fun d hd => ?_
      · rw [urlLen, urlStates, hstart, states_cons_of_dead hdead]
        exact Nat.dvd_zero _
      · cases hd
        exact (parseUrlChar_start c).mp hdead
    · refine iff_of_false (fun hall => ?_) fun hfirst => ?_
      · -- a byte that can be first belongs to a path or a scheme
        obtain ⟨uf, huf⟩ : ∃ uf : UrlField, (parseUrlChar .spacesBeforeUrl c).rank = uf.rank := by
          rcases (UrlState.step_of_ne_dead hdead).of_spacesBeforeUrl with h | ⟨-, h⟩
          · exact ⟨.path, by rw [h]; rfl⟩
          · exact ⟨.schema, by rw [h]; rfl⟩
        have hpos : 0 < urlLen false (c :: cs) uf := by
          rw [urlLen, urlStates, hstart, states_cons hdead, occ_cons, if_pos huf]
          exact Nat.succ_pos _
        have hle : urlLen false (c :: cs) uf ≤ (c :: cs).length :=
          Nat.le_trans List.countP_le_length length_urlStates_le
        have := Nat.le_of_dvd hpos (hall uf)
        omega
      · exact hdead ((parseUrlChar_start c).mpr (hfirst c rfl))

/-- A rejected string yields no component exactly if, of every component, the first automaton read
a number of bytes that is a multiple of 65536; for a string of less than 65536 bytes, exactly if it
is empty or cannot start a URL. -/
theorem rejected_yields_nothing_iff (junk : UrlField → ByteMemory) (url : List UInt8) {rc : ℕ}
    {u : ParserUrl} (hrc : rc ≠ 0)
    (h : parseUrl (cString url) false ParserUrl.init = .ok (rc, u)) :
    (YieldsNothing junk url ↔ ∀ uf, 65536 ∣ urlLen false (cString url) uf) ∧
      ((cString url).length < 65536 →
        (YieldsNothing junk url ↔ ∀ c ∈ (cString url).head?, isFirstChar c = false)) := by
  have hout := outcome_of_parseUrl h
  obtain ⟨this, hnew, hget⟩ := Url.new_spec junk h
  have hempty : (∀ uf, (this.get uf).data = []) ↔ ∀ uf, (u.fieldData uf).len = 0 := by
    refine forall_congr' fun uf => ?_
    rw [hget uf]
    exact slice_eq_nil_iff hout uf
  have hiff : YieldsNothing junk url ↔ ∀ uf, 65536 ∣ urlLen false (cString url) uf := by
    rw [← forall_len_eq_zero_iff hrc hout, ← hempty]
    constructor
    · rintro ⟨this', hnew', hall⟩
      cases hnew.symm.trans hnew'
      exact hall
    · intro hall
      exact ⟨this, hnew, hall⟩
  exact ⟨hiff, fun hlt => hiff.trans (forall_dvd_urlLen_iff hlt)⟩

theorem rejected_yields_nothing_digit : ∃ u,
    parseUrl (cString (ascii "1/a")) false ParserUrl.init = .ok (1, u) ∧
      YieldsNothing (fun _ _ => 0) (ascii "1/a") := by
  obtain ⟨u, hu⟩ : ∃ u, parseUrl (cString (ascii "1/a")) false ParserUrl.init = .ok (1, u) :=
    ⟨_, rfl⟩
  have hhead : ∀ c ∈ (cString (ascii "1/a")).head?, isFirstChar c = false := by
    intro c hc
    obtain rfl : chr '1' = c := Option.some.inj hc
    decide
  have hiff := rejected_yields_nothing_iff (fun _ _ => 0) (ascii "1/a") Nat.one_ne_zero hu
  exact ⟨u, hu, (hiff.2 (by decide)).mpr hhead⟩

/-- A space ends the reading of this string, which is rejected, but the path before it is a
component of the result. -/
theorem rejected_leaves_path : ∃ u this,
    parseUrl (cString (ascii "/a b")) false ParserUrl.init = .ok (1, u) ∧
      Url.new (fun _ _ => 0) (ascii "/a b") = .ok this ∧ this.path.data = ascii "/a" :=
  ⟨_, _, rfl, rfl, by decide⟩

end CHttp
