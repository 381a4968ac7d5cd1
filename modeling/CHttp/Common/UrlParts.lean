import CHttp.Common.UrlTexts
import CHttp.ForMathlib.Http1

/-!
# The parts of a URL

A URL that `c_http_parser_parse_url` accepts is its parts put back together, delimiters between
them, and `Url_new` stores the parts (`url_lossless`). Up to 65535 bytes every position fits in 16
bits; what happens beyond is in `UrlLimits`.
-/

namespace CHttp

open RankedRun

/-! ### Positions -/

namespace FieldData

/-- All the positions are from `lo` on and before `hi`. -/
def Within (d : FieldData) (lo hi : ℕ) : Prop :=
  ∀ i, d.off ≤ i → i < d.off + d.len → lo ≤ i ∧ i < hi

/-- No position belongs to both. -/
def Disjoint (d e : FieldData) : Prop :=
  ∀ i, d.off ≤ i → i < d.off + d.len → ¬ (e.off ≤ i ∧ i < e.off + e.len)

theorem Disjoint.symm {d e : FieldData} (h : d.Disjoint e) : e.Disjoint d :=
  fun i h1 h2 h3 => h i h3.1 h3.2 ⟨h1, h2⟩

theorem Within.disjoint {d e : FieldData} {lo mid mid' hi : ℕ} (hd : d.Within lo mid)
    (he : e.Within mid' hi) (hmid : mid ≤ mid') : d.Disjoint e := by
  intro i h1 h2 h3
  have := (hd i h1 h2).2
  have := (he i h3.1 h3.2).1
  omega

theorem Within.mono {d : FieldData} {lo lo' hi hi' : ℕ} (h : d.Within lo hi) (hlo : lo' ≤ lo)
    (hhi : hi ≤ hi') : d.Within lo' hi' := by
  intro i h1 h2
  have := h i h1 h2
  omega

end FieldData

section

variable {σ : Type} {rank : σ → ℕ} {d : FieldData} {base : ℕ} {ss : List σ} {r : ℕ}

/-- Positions below 65536 are stored as they are. -/
theorem storedPart_within (hd : d.len = 0) (hlt : base + ss.length < 65536) :
    (storedPart rank d base ss r).Within (base + before rank ss r)
      (base + before rank ss (r + 1)) := by
  have hle : before rank ss r + occ rank ss r ≤ ss.length := before_add_occ_le
  rcases Nat.eq_zero_or_pos (occ rank ss r) with hocc | hocc
  · rw [storedPart_of_occ_eq_zero hocc]
    intro i h1 h2
    omega
  · rw [storedPart_of_occ_pos hocc, u16_eq_self (by omega), u16_eq_self (by omega), before_succ]
    intro i h1 h2
    exact ⟨h1, by rw [← Nat.add_assoc]; exact h2⟩

private theorem slice_storedPart (buf : List UInt8) (hd : d.len = 0)
    (hlt : base + ss.length < 65536) :
    slice buf (storedPart rank d base ss r).off (storedPart rank d base ss r).len =
      slice buf (base + before rank ss r) (occ rank ss r) := by
  have hle : before rank ss r + occ rank ss r ≤ ss.length := before_add_occ_le
  rcases Nat.eq_zero_or_pos (occ rank ss r) with hocc | hocc
  · rw [storedPart_of_occ_eq_zero hocc, hd, hocc, slice, slice, List.take_zero, List.take_zero]
  · rw [storedPart_of_occ_pos hocc, u16_eq_self (by omega), u16_eq_self (by omega)]

end

/-! ### Parts -/

/-- The parts of a URL. There is an authority if there is a scheme. -/
structure UrlParts where
  scheme : List UInt8
  authority : Authority
  tail : UrlTail

/-- No authority. -/
def Authority.none : Authority := ⟨false, [], false, [], []⟩

namespace UrlParts

/-- The parts put together. -/
def render (p : UrlParts) : List UInt8 :=
  (if p.scheme = [] then [] else p.scheme ++ ascii "://") ++ (p.authority.render ++ p.tail.render)

/-- The part for a field. -/
def get (p : UrlParts) : UrlField → List UInt8
  | .schema => p.scheme
  | .host => p.authority.host
  | .port => p.authority.port
  | .path => p.tail.path
  | .query => p.tail.query
  | .fragment => p.tail.fragment
  | .userinfo => p.authority.userinfo

/-- Parts are where their delimiters are, and an authority where a scheme is. -/
structure WellFormed (p : UrlParts) : Prop where
  authority : p.scheme ≠ [] → p.authority.WellFormed
  noAuthority : p.scheme = [] → p.authority = Authority.none
  tail : p.tail.Delimited

end UrlParts

/-- The structure `u` describes the URL as made up of the parts `p`. -/
structure Decomposes (url : List UInt8) (u : ParserUrl) (p : UrlParts) : Prop where
  wellFormed : p.WellFormed
  render : p.render = url
  get : ∀ uf, p.get uf = slice url (u.fieldData uf).off (u.fieldData uf).len
  within : ∀ uf, (u.fieldData uf).Within 0 url.length
  disjoint : ∀ uf g, uf ≠ g → (u.fieldData uf).Disjoint (u.fieldData g)

/-- The fields that the second automaton finds. -/
def UrlField.InAuthority (uf : UrlField) : Prop := uf = .userinfo ∨ uf = .host ∨ uf = .port

instance (uf : UrlField) : Decidable uf.InAuthority := inferInstanceAs (Decidable (_ ∨ _))

variable {url : List UInt8} {isConnect : Bool} {u₀ u : ParserUrl} {l : UrlLoop}

theorem length_urlStates_le : (urlStates isConnect url).length ≤ url.length := length_states_le

/-! ### Fields of the first pass -/

section UrlPass

variable (h : l.After ParserUrl.init (urlStates isConnect url)) (hlt : url.length < 65536)

include h hlt

theorem UrlLoop.After.within (uf : UrlField) :
    (l.u.fieldData uf).Within (before UrlState.rank (urlStates isConnect url) uf.rank)
      (before UrlState.rank (urlStates isConnect url) (uf.rank + 1)) := by
  have hlen : (urlStates isConnect url).length ≤ url.length := length_urlStates_le
  have hwithin : (storedPart UrlState.rank (ParserUrl.init.fieldData uf) 0
      (urlStates isConnect url) uf.rank).Within _ _ := storedPart_within rfl (by omega)
  rw [h.fieldData uf]
  simpa using hwithin

theorem UrlLoop.After.within_text (uf : UrlField) : (l.u.fieldData uf).Within 0 url.length :=
  (h.within hlt uf).mono (Nat.zero_le _) (before_le_length.trans length_urlStates_le)

theorem UrlLoop.After.disjoint {uf g : UrlField} (hne : uf ≠ g) :
    (l.u.fieldData uf).Disjoint (l.u.fieldData g) := by
  have hrank : uf.rank ≠ g.rank := fun heq => hne (UrlField.rank_injective heq)
  rcases Nat.lt_or_gt_of_ne hrank with hlt' | hgt
  · exact (h.within hlt uf).disjoint (h.within hlt g) (before_mono hlt')
  · exact ((h.within hlt g).disjoint (h.within hlt uf) (before_mono hgt)).symm

theorem UrlLoop.After.slice_eq (uf : UrlField) :
    slice url (l.u.fieldData uf).off (l.u.fieldData uf).len =
      slice url (urlOff isConnect url uf) (urlLen isConnect url uf) := by
  have hlen : (urlStates isConnect url).length ≤ url.length := length_urlStates_le
  have heq : slice url (storedPart UrlState.rank (ParserUrl.init.fieldData uf) 0
      (urlStates isConnect url) uf.rank).off _ = _ := slice_storedPart url rfl (by omega)
  rw [h.fieldData uf, heq, Nat.zero_add]
  rfl

end UrlPass

/-! ### Fields of the host pass -/

/-- The second automaton has states for three of the fields only. -/
theorem occ_hostRank_eq_zero {uf : UrlField} (huf : ¬ uf.InAuthority) (ss : List HostState) :
    occ HostState.rank ss uf.hostRank = 0 := by
  refine occ_eq_zero_iff.mpr fun s _ => ?_
  cases uf with
  | userinfo => exact absurd (by decide) huf
  | host => exact absurd (by decide) huf
  | port => exact absurd (by decide) huf
  | schema => cases s <;> decide
  | path => cases s <;> decide
  | query => cases s <;> decide
  | fragment => cases s <;> decide

theorem HostRead.fieldData_of_not_inAuthority (h : HostRead url isConnect u₀ l u) {uf : UrlField}
    (huf : ¬ uf.InAuthority) : u.fieldData uf = l.u.fieldData uf := by
  obtain ⟨t, hu⟩ := h.afterHost
  have hne : uf ≠ .host := fun heq => huf (Or.inr (Or.inl heq))
  rw [hu.fieldData uf, storedPart_of_occ_eq_zero (occ_hostRank_eq_zero huf _),
    ParserUrl.fieldData_setLen_of_ne _ _ hne]

/-- The three fields are empty before the host pass. -/
theorem UrlRead.len_setLen (h : UrlRead url isConnect ParserUrl.init l) {uf : UrlField}
    (huf : uf.InAuthority) : ((l.u.setLen .host 0).fieldData uf).len = 0 := by
  by_cases hhost : uf = .host
  · subst hhost
    rw [ParserUrl.fieldData_setLen_self]
    rfl
  · have hocc : urlLen isConnect url uf = 0 := urlLen_eq_zero (by
      rcases huf with h1 | h1 | h1
      · exact Or.inr h1
      · exact absurd h1 hhost
      · exact Or.inl h1)
    rw [ParserUrl.fieldData_setLen_of_ne _ _ hhost, h.after.fieldData uf,
      storedPart_of_occ_eq_zero hocc]
    rfl

/-- The authority, as it is stored by the first pass. -/
theorem UrlRead.fieldData_host (h : UrlRead url isConnect u₀ l)
    (hpos : 0 < urlLen isConnect url .host) :
    l.u.fieldData .host =
      ⟨u16 (urlOff isConnect url .host), u16 (urlLen isConnect url .host)⟩ := by
  rw [h.after.fieldData .host, storedPart_of_occ_pos hpos, Nat.zero_add]
  rfl

section HostPass

variable (h : HostRead url isConnect ParserUrl.init l u) (hlt : url.length < 65536)

include h hlt

private theorem HostRead.fieldData_host_eq :
    l.u.fieldData .host = ⟨urlOff isConnect url .host, urlLen isConnect url .host⟩ := by
  have hle : urlOff isConnect url .host + urlLen isConnect url .host ≤
      (urlStates isConnect url).length := before_add_occ_le
  have hlen : (urlStates isConnect url).length ≤ url.length := length_urlStates_le
  rw [h.fieldData_host h.pos, u16_eq_self (by omega), u16_eq_self (by omega)]

theorem HostRead.scanned_eq :
    scanned url l.u = slice url (urlOff isConnect url .host) (urlLen isConnect url .host) := by
  rw [scanned, h.fieldData_host_eq hlt]

private theorem HostRead.length_hostStates_le :
    (hostStates l.foundAt (scanned url l.u)).length ≤ urlLen isConnect url .host := by
  refine length_states_le.trans ?_
  rw [h.scanned_eq hlt, length_slice]
  exact Nat.min_le_left _ _

/-- What is stored for a field of the authority. -/
theorem HostRead.fieldData_of_inAuthority {uf : UrlField} (huf : uf.InAuthority) :
    ∃ d : FieldData, d.len = 0 ∧
      urlOff isConnect url .host + (hostStates l.foundAt (scanned url l.u)).length < 65536 ∧
      u.fieldData uf = storedPart HostState.rank d (urlOff isConnect url .host)
        (hostStates l.foundAt (scanned url l.u)) uf.hostRank := by
  obtain ⟨t, hu⟩ := h.afterHost
  have hstates := h.length_hostStates_le hlt
  have hle : urlOff isConnect url .host + urlLen isConnect url .host ≤
      (urlStates isConnect url).length := before_add_occ_le
  have hlen : (urlStates isConnect url).length ≤ url.length := length_urlStates_le
  refine ⟨_, h.len_setLen huf, by omega, ?_⟩
  rw [hu.fieldData uf, h.fieldData_host_eq hlt]

theorem HostRead.within {uf : UrlField} (huf : uf.InAuthority) :
    (u.fieldData uf).Within
      (urlOff isConnect url .host +
        before HostState.rank (hostStates l.foundAt (scanned url l.u)) uf.hostRank)
      (urlOff isConnect url .host +
        before HostState.rank (hostStates l.foundAt (scanned url l.u)) (uf.hostRank + 1)) := by
  obtain ⟨d, hd, hlt', heq⟩ := h.fieldData_of_inAuthority hlt huf
  rw [heq]
  exact storedPart_within hd hlt'

/-- The fields of the authority are where the first pass found the authority. -/
theorem HostRead.within_host {uf : UrlField} (huf : uf.InAuthority) :
    (u.fieldData uf).Within (urlOff isConnect url .host)
      (before UrlState.rank (urlStates isConnect url) (UrlField.host.rank + 1)) := by
  refine (h.within hlt huf).mono (Nat.le_add_right _ _) ?_
  calc _ ≤ urlOff isConnect url .host + (hostStates l.foundAt (scanned url l.u)).length :=
        Nat.add_le_add_left before_le_length _
    _ ≤ urlOff isConnect url .host + urlLen isConnect url .host :=
        Nat.add_le_add_left (h.length_hostStates_le hlt) _
    _ = _ := before_succ.symm

theorem HostRead.slice_eq {uf : UrlField} (huf : uf.InAuthority) :
    slice url (u.fieldData uf).off (u.fieldData uf).len =
      slice (scanned url l.u)
        (before HostState.rank (hostStates l.foundAt (scanned url l.u)) uf.hostRank)
        (occ HostState.rank (hostStates l.foundAt (scanned url l.u)) uf.hostRank) := by
  obtain ⟨d, hd, hlt', heq⟩ := h.fieldData_of_inAuthority hlt huf
  have hle : before HostState.rank (hostStates l.foundAt (scanned url l.u)) uf.hostRank +
      occ HostState.rank (hostStates l.foundAt (scanned url l.u)) uf.hostRank ≤
        urlLen isConnect url .host :=
    Nat.le_trans before_add_occ_le (h.length_hostStates_le hlt)
  rw [heq, slice_storedPart url hd hlt', ← slice_slice url hle, ← h.scanned_eq hlt]

theorem HostRead.within_text (uf : UrlField) : (u.fieldData uf).Within 0 url.length := by
  by_cases huf : uf.InAuthority
  · exact (h.within_host hlt huf).mono (Nat.zero_le _) (before_le_length.trans length_urlStates_le)
  · rw [h.fieldData_of_not_inAuthority huf]
    exact h.after.within_text hlt uf

/-- A field of the authority against one of the first pass. -/
theorem HostRead.disjoint_of_not_inAuthority {uf g : UrlField} (huf : uf.InAuthority)
    (hg : ¬ g.InAuthority) : (u.fieldData uf).Disjoint (u.fieldData g) := by
  have hwithin := h.after.within hlt g
  have hne : g.rank ≠ UrlField.host.rank := fun heq =>
    hg (Or.inr (Or.inl (UrlField.rank_injective heq)))
  rw [h.fieldData_of_not_inAuthority hg]
  rcases Nat.lt_or_gt_of_ne hne with hlt' | hgt
  · exact (hwithin.disjoint (h.within_host hlt huf) (before_mono hlt')).symm
  · exact (h.within_host hlt huf).disjoint hwithin (before_mono hgt)

theorem HostRead.disjoint {uf g : UrlField} (hne : uf ≠ g) :
    (u.fieldData uf).Disjoint (u.fieldData g) := by
  by_cases huf : uf.InAuthority
  · by_cases hg : g.InAuthority
    · have hrank : uf.hostRank ≠ g.hostRank := fun heq => hne (UrlField.hostRank_injective heq)
      rcases Nat.lt_or_gt_of_ne hrank with hlt' | hgt
      · exact (h.within hlt huf).disjoint (h.within hlt hg)
          (Nat.add_le_add_left (before_mono hlt') _)
      · exact ((h.within hlt hg).disjoint (h.within hlt huf)
          (Nat.add_le_add_left (before_mono hgt) _)).symm
    · exact h.disjoint_of_not_inAuthority hlt huf hg
  · by_cases hg : g.InAuthority
    · exact (h.disjoint_of_not_inAuthority hlt hg huf).symm
    · rw [h.fieldData_of_not_inAuthority huf, h.fieldData_of_not_inAuthority hg]
      exact h.after.disjoint hlt hne

end HostPass

/-! ### Putting a URL together -/

/-- A URL without a scheme that is accepted. -/
theorem decomposes_of_path (h : UrlRead url false ParserUrl.init l) (hlt : url.length < 65536)
    (hschema : urlLen false url .schema = 0) (hhost : urlLen false url .host = 0) :
    ∃ p : UrlParts, p.scheme = [] ∧ Decomposes url l.u p := by
  obtain ⟨t, hdelim, hurl, hss⟩ := url_of_path h.live hschema
  have hnil : ∀ uf, urlLen false url uf = 0 →
      slice url (l.u.fieldData uf).off (l.u.fieldData uf).len = [] := by
    intro uf huf
    rw [h.after.slice_eq hlt uf, huf, slice, List.take_zero]
  have htail : ∀ uf, slice url (l.u.fieldData uf).off (l.u.fieldData uf).len =
      slice t.render (before UrlState.rank t.states uf.rank)
        (occ UrlState.rank t.states uf.rank) := by
    intro uf
    rw [h.after.slice_eq hlt uf, urlOff, urlLen, hss, ← hurl]
  refine ⟨⟨[], Authority.none, t⟩, rfl, ⟨fun hne => absurd rfl hne, fun _ => rfl, hdelim⟩,
    hurl.symm, fun uf => ?_, h.after.within_text hlt, fun uf g hne => h.after.disjoint hlt hne⟩
  cases uf with
  | schema => exact (hnil _ hschema).symm
  | host => exact (hnil _ hhost).symm
  | port => exact (hnil _ (urlLen_eq_zero (Or.inl rfl))).symm
  | userinfo => exact (hnil _ (urlLen_eq_zero (Or.inr rfl))).symm
  | path => exact (htail .path).trans t.slice_path |>.symm
  | query => exact (htail .query).trans (UrlTail.slice_query hdelim) |>.symm
  | fragment => exact (htail .fragment).trans t.slice_fragment |>.symm

/-- The first pass finds the authority. -/
theorem HostUrl.slice_authority {scheme authority : List UInt8} {t : UrlTail}
    (h : HostUrl url scheme authority t) :
    slice url (urlOff false url .host) (urlLen false url .host) = authority := by
  have hurl : url = (scheme ++ ascii "://") ++ (authority ++ t.render) := by
    rw [h.eq, List.append_assoc]
  rw [h.host_off, h.host_len]
  nth_rewrite 1 [hurl]
  rw [← Nat.add_zero (scheme ++ ascii "://").length, slice_append_right, slice_append_left]

/-- The first pass finds what follows the authority. -/
theorem HostUrl.slice_tail {scheme authority : List UInt8} {t : UrlTail}
    (h : HostUrl url scheme authority t) {uf : UrlField} (huf : 6 ≤ uf.rank) :
    slice url (urlOff false url uf) (urlLen false url uf) =
      slice t.render (before UrlState.rank t.states uf.rank)
        (occ UrlState.rank t.states uf.rank) := by
  have hurl : url = (scheme ++ (ascii "://" ++ authority)) ++ t.render := by
    rw [h.eq, List.append_assoc, List.append_assoc]
  rw [h.tail_off uf huf, h.tail_len uf huf]
  nth_rewrite 1 [hurl]
  exact slice_append_right _ _ _ _

/-- A URL with an authority that is accepted. -/
theorem decomposes_of_host (h : HostRead url false ParserUrl.init l u) (hlt : url.length < 65536)
    (hacc : HostAccepts l.foundAt (scanned url l.u)) :
    ∃ p : UrlParts, p.scheme ≠ [] ∧ Decomposes url u p := by
  obtain ⟨scheme, authority, t, hurl⟩ := exists_hostUrl h.live h.pos
  have hscan : scanned url l.u = authority := (h.scanned_eq hlt).trans hurl.slice_authority
  have hpass := fun (uf : UrlField) (huf : uf.InAuthority) => h.slice_eq hlt huf
  rw [hscan] at hacc hpass
  obtain ⟨a, hosts, hwf, rfl, hstates, hlen, hall⟩ := authority_of_accepts hacc
  rw [hstates] at hpass
  have hfirst : ∀ uf : UrlField, ¬ uf.InAuthority →
      slice url (u.fieldData uf).off (u.fieldData uf).len =
        slice url (urlOff false url uf) (urlLen false url uf) := by
    intro uf huf
    rw [h.fieldData_of_not_inAuthority huf, h.after.slice_eq hlt uf]
  have htail : ∀ uf : UrlField, ¬ uf.InAuthority → 6 ≤ uf.rank →
      slice url (u.fieldData uf).off (u.fieldData uf).len =
        slice t.render (before UrlState.rank t.states uf.rank)
          (occ UrlState.rank t.states uf.rank) :=
    fun uf huf hrank => (hfirst uf huf).trans (hurl.slice_tail hrank)
  refine ⟨⟨scheme, a, t⟩, hurl.scheme_ne, ⟨fun _ => hwf, fun h0 => absurd h0 hurl.scheme_ne,
    hurl.delimited⟩, ?_, fun uf => ?_, h.within_text hlt, fun uf g hne => h.disjoint hlt hne⟩
  · rw [UrlParts.render, if_neg hurl.scheme_ne, List.append_assoc]
    exact hurl.eq.symm
  · symm
    cases uf with
    | schema =>
      rw [hfirst .schema (by decide), hurl.schema_off, hurl.schema_len]
      nth_rewrite 1 [hurl.eq]
      exact slice_append_left _ _
    | host => exact (hpass .host (by decide)).trans (Authority.slice_host hlen hall)
    | port => exact (hpass .port (by decide)).trans (Authority.slice_port hlen hall)
    | userinfo => exact (hpass .userinfo (by decide)).trans (Authority.slice_userinfo hwf hall)
    | path => exact (htail .path (by decide) (by decide)).trans t.slice_path
    | query =>
      exact (htail .query (by decide) (by decide)).trans (UrlTail.slice_query hurl.delimited)
    | fragment => exact (htail .fragment (by decide) (by decide)).trans t.slice_fragment

/-! ### The port -/

theorem isNum_iff {c : UInt8} : isNum c = true ↔ 48 ≤ c.toNat ∧ c.toNat ≤ 57 := by
  simp only [isNum, Bool.and_eq_true, decide_eq_true_eq, UInt8.le_iff_toNat_le]
  exact Iff.rfl

/-- A digit adds its value, without any wrap. -/
theorem portLoop_cons {c : UInt8} (hc : isNum c = true) (cs : List UInt8) {v : ℕ}
    (hv : v ≤ 0xffff) :
    portLoop (c :: cs) v = if 10 * v + (c.toNat - 48) > 0xffff then none
      else portLoop cs (10 * v + (c.toNat - 48)) := by
  obtain ⟨h1, h2⟩ := isNum_iff.mp hc
  have hint : c.toInt8.toInt = c.toNat :=
    BitVec.toInt_eq_toNat_of_lt (show 2 * c.toNat < 2 ^ 8 by omega)
  have hval : (((v * 10 : ℕ) + (c.toInt8.toInt - (chr '0').toInt8.toInt) : ℤ) %
      ulongSize).toNat = 10 * v + (c.toNat - 48) := by
    rw [hint, show (chr '0').toInt8.toInt = 48 from by decide, ulongSize]
    omega
  rw [portLoop, hval]

/-- The number that is stored is the decimal value of the digits. -/
theorem foldlM_of_portLoop {cs : List UInt8} (hcs : ∀ c ∈ cs, isNum c = true) {v w : ℕ}
    (hv : v ≤ 0xffff) (h : portLoop cs v = some w) :
    cs.foldlM (fun n c => (Http1.digit? c).map (10 * n + ·)) v = some w ∧ w ≤ 0xffff := by
  induction cs generalizing v with
  | nil =>
    cases h
    exact ⟨rfl, hv⟩
  | cons c cs ih =>
    obtain ⟨hc, hcs⟩ := List.forall_mem_cons.mp hcs
    have hdigit : Http1.digit? c = some (c.toNat - 48) := if_pos (isNum_iff.mp hc)
    rw [portLoop_cons hc cs hv] at h
    split at h
    · cases h
    · next hle =>
      rw [List.foldlM_cons, hdigit]
      exact ih hcs (Nat.le_of_not_gt hle) h

/-! ### Accepted URLs -/

private theorem parseUrlChar_zero (s : UrlState) : parseUrlChar s 0 = .dead := by
  cases s <;> decide

private theorem zero_notMem_of_live {s : UrlState} (h : Live parseUrlChar .dead s url) :
    0 ∉ url := by
  induction url generalizing s with
  | nil => exact List.not_mem_nil
  | cons c cs ih =>
    obtain ⟨hc, hcs⟩ := live_cons.mp h
    intro hmem
    rcases List.mem_cons.mp hmem with rfl | hmem
    · exact hc (parseUrlChar_zero s)
    · exact ih hcs hmem

/-- What the URL's port is, next to its port field. -/
structure PortOf (u : ParserUrl) (port : List UInt8) : Prop where
  le : u.port ≤ 65535
  absent : port = [] → u.port = 0
  decimal : port ≠ [] → Http1.number? port = some u.port

/-- Without a bit in `field_set` there is no port. -/
theorem HostRead.portOf_of_not_set (h : HostRead url false ParserUrl.init l u)
    (hlt : url.length < 65536) (hport : u.fieldSet .port = false) :
    PortOf u (slice url (u.fieldData .port).off (u.fieldData .port).len) := by
  obtain ⟨t, hu⟩ := h.afterHost
  have hzero : u.port = 0 := hu.port.trans h.after.port
  have hocc : occ HostState.rank (hostStates l.foundAt (scanned url l.u))
      UrlField.port.hostRank = 0 := by
    have hset := hu.fieldSet .port
    rw [hport] at hset
    simpa using (Bool.or_eq_false_iff.mp hset.symm).2
  have hnil : slice url (u.fieldData .port).off (u.fieldData .port).len = [] := by
    rw [h.slice_eq hlt (by decide), hocc, slice, List.take_zero]
  exact ⟨by omega, fun _ => hzero, fun hne => absurd hnil hne⟩

theorem portOf_of_portLoop {port : List UInt8} (hnum : ∀ c ∈ port, isNum c = true) {v : ℕ}
    (h : portLoop port 0 = some v) : PortOf { u with port := u16 v } port := by
  obtain ⟨hfold, hle⟩ := foldlM_of_portLoop hnum (Nat.zero_le _) h
  have hv : u16 v = v := u16_eq_self (Nat.lt_succ_of_le hle)
  refine ⟨hv.symm ▸ hle, ?_, fun hne => ?_⟩
  · rintro rfl
    cases h
    rfl
  · rw [Http1.number?, if_neg hne, hfold]
    exact congrArg some hv.symm

/-- The parts of an accepted URL, and its port. -/
theorem decomposes_of_parseUrl (hlt : url.length < 65536)
    (h : parseUrl url false ParserUrl.init = .ok (0, u)) :
    0 ∉ url ∧ ∃ p : UrlParts, Decomposes url u p ∧ PortOf u p.authority.port := by
  cases outcome_of_parseUrl h with
  | path hl hhost hschema =>
    obtain ⟨p, hscheme, hd⟩ := decomposes_of_path hl hlt hschema hhost
    have hport : p.authority.port = [] := by
      rw [hd.wellFormed.noAuthority hscheme]
      rfl
    have hzero := hl.after.port
    exact ⟨zero_notMem_of_live hl.live, p, hd, by omega, fun _ => hzero,
      fun hne => absurd hport hne⟩
  | host hu hacc hport =>
    obtain ⟨p, -, hd⟩ := decomposes_of_host hu hlt hacc
    refine ⟨zero_notMem_of_live hu.live, p, hd, ?_⟩
    have := hu.portOf_of_not_set hlt hport
    rwa [← hd.get .port] at this
  | hostPort hu hacc hport hv =>
    obtain ⟨p, hscheme, hd⟩ := decomposes_of_host hu hlt hacc
    rw [← hd.get .port] at hv
    exact ⟨zero_notMem_of_live hu.live, p,
      ⟨hd.wellFormed, hd.render, hd.get, hd.within, hd.disjoint⟩,
      portOf_of_portLoop (hd.wellFormed.authority hscheme).port hv⟩

/-- What `Url_new` stores for an accepted URL. -/
structure Lossless (url : List UInt8) (u : ParserUrl) (this : Url) (p : UrlParts) : Prop
    extends Decomposes url u p, PortOf u p.authority.port where
  /-- The fields are the parts. -/
  fields : ∀ uf, (this.get uf).data = p.get uf

/-- A URL of at most 65535 bytes that is accepted is the parts that `Url_new` stores put back
together, each taken from its own place in the URL, and its port is the number in the port part. -/
theorem url_lossless (junk : UrlField → ByteMemory) (hlen : url.length ≤ 65535)
    (h : parseUrl url false ParserUrl.init = .ok (0, u)) :
    ∃ this p, Url.new junk url = .ok this ∧ Lossless url u this p := by
  obtain ⟨h0, p, hd, hport⟩ := decomposes_of_parseUrl (Nat.lt_succ_of_le hlen) h
  have hstr : parseUrl (cString url) false ParserUrl.init = .ok (0, u) := by
    rw [cString_eq_self.mpr h0]
    exact h
  obtain ⟨this, hnew, hget⟩ := Url.new_spec junk hstr
  exact ⟨this, p, hnew, ⟨hd, hport, fun uf => (hget uf).trans (hd.get uf).symm⟩⟩

theorem url_lossless_ipv6 : ∃ u this p,
    parseUrl (ascii "http://a@[::1]:80/c?d##e") false ParserUrl.init = .ok (0, u) ∧
      Url.new (fun _ _ => 0) (ascii "http://a@[::1]:80/c?d##e") = .ok this ∧
      Lossless (ascii "http://a@[::1]:80/c?d##e") u this p := by
  obtain ⟨u, hu⟩ : ∃ u,
      parseUrl (ascii "http://a@[::1]:80/c?d##e") false ParserUrl.init = .ok (0, u) := ⟨_, rfl⟩
  obtain ⟨this, p, hnew, hp⟩ := url_lossless (fun _ _ => 0) (by decide) hu
  exact ⟨u, this, p, hu, hnew, hp⟩

end CHttp
