import CHttp.Common.UrlSteps
import CHttp.ForMathlib.RankedRun

/-!
# Where the fields of a URL are

Both automata of the URL parser go through the parts of a URL in order, so their states have ranks
and the field of a rank is found by counting (`RankedRun`). The loops store that count reduced to
16 bits: `urlLoop_spec` and `hostLoop_spec` say so for every text, of any length, also for the part
of it that was read before a byte was refused.
-/

namespace CHttp

open RankedRun

/-- What is stored for a part at `off` of `len` bytes; `d` was there before. -/
def stored (d : FieldData) (off len : ℕ) : FieldData := if len = 0 then d else ⟨u16 off, u16 len⟩

private theorem stored_zero (d : FieldData) (off : ℕ) : stored d off 0 = d := rfl

private theorem stored_of_pos {d : FieldData} {off len : ℕ} (h : 0 < len) :
    stored d off len = ⟨u16 off, u16 len⟩ := if_neg h.ne'

private theorem u16_le (n : ℕ) : u16 n ≤ n := Nat.mod_le _ _

theorem u16_lt (n : ℕ) : u16 n < 65536 := Nat.mod_lt _ (by decide)

theorem u16_eq_self {n : ℕ} (h : n < 65536) : u16 n = n := Nat.mod_eq_of_lt h

theorem u16_eq_self_iff {n : ℕ} : u16 n = n ↔ n < 65536 :=
  ⟨fun h => h ▸ u16_lt n, u16_eq_self⟩

private theorem u16_u16_add (n m : ℕ) : u16 (u16 n + m) = u16 (n + m) := Nat.mod_add_mod _ _ _

theorem len_stored {d : FieldData} (hd : d.len = 0) (off len : ℕ) :
    (stored d off len).len = u16 len := by
  unfold stored
  split
  · next h => rw [hd, h]; rfl
  · rfl

section StoredPart

variable {σ : Type} (rank : σ → ℕ) (d : FieldData) (base : ℕ)

/-- What is stored for the part of rank `r`, in a text that starts at `base`. -/
def storedPart (ss : List σ) (r : ℕ) : FieldData :=
  stored d (base + before rank ss r) (occ rank ss r)

variable {rank d base} {ss : List σ} {s : σ} {r : ℕ}

theorem storedPart_of_occ_eq_zero (h : occ rank ss r = 0) : storedPart rank d base ss r = d := by
  rw [storedPart, h, stored_zero]

theorem storedPart_of_occ_pos (h : 0 < occ rank ss r) :
    storedPart rank d base ss r = ⟨u16 (base + before rank ss r), u16 (occ rank ss r)⟩ :=
  stored_of_pos h

/-- A part that is stored lies inside what was read: fewer bits only make numbers smaller. -/
theorem storedPart_le (h : 0 < occ rank ss r) :
    (storedPart rank d base ss r).off + (storedPart rank d base ss r).len ≤ base + ss.length := by
  have hle : before rank ss r + occ rank ss r ≤ ss.length := before_add_occ_le
  have hoff := u16_le (base + before rank ss r)
  have hlen := u16_le (occ rank ss r)
  rw [storedPart_of_occ_pos h]
  dsimp only
  omega

theorem len_storedPart_lt (hd : d.len < 65536) : (storedPart rank d base ss r).len < 65536 := by
  unfold storedPart stored
  split
  · exact hd
  · exact u16_lt _

private theorem storedPart_concat_of_ne (hle : ∀ t ∈ ss, rank t ≤ rank s) (hr : rank s ≠ r) :
    storedPart rank d base (ss ++ [s]) r = storedPart rank d base ss r := by
  have hocc : occ rank (ss ++ [s]) r = occ rank ss r := by simp [hr]
  by_cases hzero : occ rank ss r = 0
  · rw [storedPart_of_occ_eq_zero hzero, storedPart_of_occ_eq_zero (hocc.trans hzero)]
  · rw [storedPart, storedPart, hocc, before_concat_of_occ_pos hle (Nat.pos_of_ne_zero hzero)]

/-- The first byte of a part: where it is, and a length of one. -/
theorem storedPart_concat_new (hle : ∀ t ∈ ss, rank t ≤ rank s) (hzero : occ rank ss (rank s) = 0) :
    storedPart rank d base (ss ++ [s]) (rank s) = ⟨u16 (base + ss.length), u16 1⟩ := by
  have hocc : occ rank (ss ++ [s]) (rank s) = 1 := by simp [hzero]
  rw [storedPart_of_occ_pos (hocc ▸ Nat.one_pos), before_concat_self hle hzero, hocc]

/-- A further byte of a part: its length is incremented. -/
theorem storedPart_concat_self (hle : ∀ t ∈ ss, rank t ≤ rank s)
    (hpos : 0 < occ rank ss (rank s)) :
    storedPart rank d base (ss ++ [s]) (rank s) =
      ⟨(storedPart rank d base ss (rank s)).off,
        u16 ((storedPart rank d base ss (rank s)).len + 1)⟩ := by
  have hocc : occ rank (ss ++ [s]) (rank s) = occ rank ss (rank s) + 1 := by simp
  rw [storedPart_of_occ_pos (hocc ▸ Nat.succ_pos _), storedPart_of_occ_pos hpos, hocc,
    before_concat_of_occ_pos hle hpos, u16_u16_add]

end StoredPart

namespace ParserUrl

variable (u : ParserUrl) (uf g : UrlField) (n : ℕ)

@[simp] theorem fieldSet_setOff : (u.setOff uf n).fieldSet = u.fieldSet := rfl
@[simp] theorem fieldSet_setLen : (u.setLen uf n).fieldSet = u.fieldSet := rfl
@[simp] theorem fieldSet_incLen : (u.incLen uf).fieldSet = u.fieldSet := rfl
@[simp] theorem port_incLen : (u.incLen uf).port = u.port := rfl
@[simp] theorem fieldData_setBit : (u.setBit uf).fieldData = u.fieldData := rfl

private theorem fieldSet_setBit : (u.setBit uf).fieldSet g = (u.fieldSet g || decide (g = uf)) := by
  by_cases h : g = uf
  · simp [setBit, h]
  · simp [setBit, h]

@[simp]
theorem fieldData_setOff_self :
    (u.setOff uf n).fieldData uf = ⟨u16 n, (u.fieldData uf).len⟩ := Function.update_self ..

@[simp]
theorem fieldData_setLen_self :
    (u.setLen uf n).fieldData uf = ⟨(u.fieldData uf).off, u16 n⟩ := Function.update_self ..

@[simp]
theorem fieldData_incLen_self :
    (u.incLen uf).fieldData uf = ⟨(u.fieldData uf).off, u16 ((u.fieldData uf).len + 1)⟩ :=
  Function.update_self ..

variable {uf g}

private theorem fieldData_setOff_of_ne (h : g ≠ uf) : (u.setOff uf n).fieldData g = u.fieldData g :=
  Function.update_of_ne h ..

theorem fieldData_setLen_of_ne (h : g ≠ uf) : (u.setLen uf n).fieldData g = u.fieldData g :=
  Function.update_of_ne h ..

private theorem fieldData_incLen_of_ne (h : g ≠ uf) : (u.incLen uf).fieldData g = u.fieldData g :=
  Function.update_of_ne h ..

end ParserUrl

/-! ### The first loop -/

namespace UrlField

/-- The rank of a field's bytes in the first automaton. It sees the authority as the host, and
no user information or port. -/
def rank : UrlField → ℕ
  | schema => 1
  | host => 5
  | path => 6
  | query => 8
  | fragment => 10
  | port => 11
  | userinfo => 12

theorem rank_injective : Function.Injective rank := by
  intro uf g h
  cases uf <;> cases g <;> first | rfl | cases h

end UrlField

/-- A state that can be entered is a delimiter's or a field's. -/
theorem UrlState.Step.field_cases {s s' : UrlState} {ch : UInt8} (h : UrlState.Step ch s s') :
    (s'.field = .ok none ∧ ∀ uf : UrlField, s'.rank ≠ uf.rank) ∨
      ∃ uf : UrlField, s'.field = .ok (some uf) ∧ s'.rank = uf.rank := by
  have hdelim : ∀ s : UrlState, s.field = .ok none → ∀ uf : UrlField, s.rank ≠ uf.rank := by
    intro s hs uf
    cases s <;> cases hs <;> cases uf <;> decide
  cases h with
  | start | serverPath | path => exact Or.inr ⟨.path, rfl, rfl⟩
  | startSchema | schema => exact Or.inr ⟨.schema, rfl, rfl⟩
  | serverAt | server => exact Or.inr ⟨.host, rfl, rfl⟩
  | query => exact Or.inr ⟨.query, rfl, rfl⟩
  | startFragment | fragment => exact Or.inr ⟨.fragment, rfl, rfl⟩
  | _ => exact Or.inl ⟨rfl, hdelim _ rfl⟩

namespace UrlLoop

/-- The variables of the loop after it went through the states `ss`. -/
structure After (u₀ : ParserUrl) (ss : List UrlState) (l : UrlLoop) : Prop where
  rank_le : ∀ t ∈ ss, t.rank ≤ l.s.rank
  oldUf : ∀ uf : UrlField, l.oldUf = some uf ↔ 0 < occ UrlState.rank ss uf.rank ∧
    ∀ g : UrlField, 0 < occ UrlState.rank ss g.rank → g.rank ≤ uf.rank
  foundAt : l.foundAt = decide (.serverWithAt ∈ ss)
  port : l.u.port = 0
  fieldSet : ∀ uf : UrlField, l.u.fieldSet uf = decide (0 < occ UrlState.rank ss uf.rank)
  fieldData : ∀ uf : UrlField,
    l.u.fieldData uf = storedPart UrlState.rank (u₀.fieldData uf) 0 ss uf.rank

theorem after_init (isConnect : Bool) (u : ParserUrl) : (init isConnect u).After u [] where
  rank_le := by simp
  oldUf := by simp [init]
  foundAt := rfl
  port := rfl
  fieldSet _ := rfl
  fieldData _ := rfl

variable {u₀ : ParserUrl} {ss : List UrlState} {l : UrlLoop} {s : UrlState} {uf : UrlField}

/-- The new state is of the highest rank yet. -/
theorem After.rank_le_concat (h : l.After u₀ ss) (hle : l.s.rank ≤ s.rank) :
    ∀ t ∈ ss ++ [s], t.rank ≤ s.rank := by
  intro t ht
  rcases List.mem_append.mp ht with ht | ht
  · exact (h.rank_le t ht).trans hle
  · rw [List.mem_singleton.mp ht]

private theorem After.foundAt_concat (h : l.After u₀ ss) :
    (l.foundAt || decide (s = .serverWithAt)) = decide (UrlState.serverWithAt ∈ ss ++ [s]) := by
  simp [h.foundAt, eq_comm]

/-- After a delimiter. -/
theorem After.delimiter (h : l.After u₀ ss) (hle : l.s.rank ≤ s.rank)
    (hdelim : ∀ uf : UrlField, s.rank ≠ uf.rank) : (l.advance s).After u₀ (ss ++ [s]) := by
  have hss : ∀ t ∈ ss, t.rank ≤ s.rank := fun t ht => (h.rank_le t ht).trans hle
  have hocc : ∀ uf : UrlField,
      occ UrlState.rank (ss ++ [s]) uf.rank = occ UrlState.rank ss uf.rank := by
    intro uf
    simp [hdelim uf]
  refine ⟨h.rank_le_concat hle, ?_, h.foundAt_concat, h.port, ?_, fun uf => ?_⟩
  · simpa only [advance, hocc] using h.oldUf
  · simpa only [advance, hocc] using h.fieldSet
  · rw [storedPart_concat_of_ne hss (hdelim uf)]
    exact h.fieldData uf

/-- The loop is in the field of a byte exactly if the field has started. -/
theorem After.oldUf_eq_iff (h : l.After u₀ ss) (hle : l.s.rank ≤ s.rank)
    (huf : s.rank = uf.rank) : l.oldUf = some uf ↔ 0 < occ UrlState.rank ss uf.rank := by
  refine (h.oldUf uf).trans (and_iff_left_of_imp fun _ g hg => ?_)
  obtain ⟨t, ht, htg⟩ := occ_pos_iff.mp hg
  rw [← htg, ← huf]
  exact (h.rank_le t ht).trans hle

/-- A byte's field is the last one that occurs. -/
theorem last_field_iff (hmem : ∀ t ∈ ss ++ [s], t.rank ≤ s.rank) (huf : s.rank = uf.rank)
    (g : UrlField) : some uf = some g ↔ 0 < occ UrlState.rank (ss ++ [s]) g.rank ∧
      ∀ g' : UrlField, 0 < occ UrlState.rank (ss ++ [s]) g'.rank → g'.rank ≤ g.rank := by
  have hself : 0 < occ UrlState.rank (ss ++ [s]) uf.rank := by simp [huf]
  have hmax : ∀ g : UrlField, 0 < occ UrlState.rank (ss ++ [s]) g.rank → g.rank ≤ uf.rank := by
    intro g hg
    obtain ⟨t, ht, htg⟩ := occ_pos_iff.mp hg
    rw [← htg, ← huf]
    exact hmem t ht
  constructor
  · intro heq
    cases heq
    exact ⟨hself, hmax⟩
  · rintro ⟨hg, hlast⟩
    exact congrArg some (UrlField.rank_injective (Nat.le_antisymm (hlast uf hself) (hmax g hg)))

/-- A byte of a field puts the field in `field_set`. -/
theorem After.fieldSet_concat (h : l.After u₀ ss) (huf : s.rank = uf.rank) (g : UrlField) :
    decide (0 < occ UrlState.rank (ss ++ [s]) g.rank) =
      (l.u.fieldSet g || decide (g = uf)) := by
  rw [h.fieldSet g]
  by_cases hg : g = uf
  · subst hg
    simp [huf]
  · have hne : s.rank ≠ g.rank := fun heq => hg (UrlField.rank_injective (heq.symm.trans huf))
    simp [hne, hg]

/-- After a byte of a field. -/
theorem After.byte (h : l.After u₀ ss) (hle : l.s.rank ≤ s.rank) (huf : s.rank = uf.rank) :
    ((l.advance s).store ss.length uf).After u₀ (ss ++ [s]) := by
  have hss : ∀ t ∈ ss, t.rank ≤ s.rank := fun t ht => (h.rank_le t ht).trans hle
  have hmem := h.rank_le_concat hle
  have hother : ∀ g : UrlField, g ≠ uf →
      storedPart UrlState.rank (u₀.fieldData g) 0 (ss ++ [s]) g.rank = l.u.fieldData g := by
    intro g hg
    have hne : s.rank ≠ g.rank := fun heq => hg (UrlField.rank_injective (heq.symm.trans huf))
    rw [storedPart_concat_of_ne hss hne]
    exact (h.fieldData g).symm
  by_cases hold : l.oldUf = some uf
  · -- the field goes on
    have hocc := (h.oldUf_eq_iff hle huf).mp hold
    rw [store, if_pos (show (l.advance s).oldUf = some uf from hold)]
    refine ⟨hmem, fun g => hold ▸ last_field_iff hmem huf g, h.foundAt_concat, h.port, fun g => ?_,
      fun g => ?_⟩
    · rw [h.fieldSet_concat huf g]
      by_cases hg : g = uf
      · subst hg
        simp [advance, h.fieldSet, hocc]
      · simp [advance, hg]
    · by_cases hg : g = uf
      · subst hg
        rw [← huf, storedPart_concat_self hss (huf ▸ hocc), huf, ← h.fieldData g]
        exact ParserUrl.fieldData_incLen_self l.u g
      · rw [hother g hg]
        exact ParserUrl.fieldData_incLen_of_ne l.u hg
  · -- the field starts
    have hocc : occ UrlState.rank ss uf.rank = 0 :=
      Nat.eq_zero_of_not_pos fun hp => hold ((h.oldUf_eq_iff hle huf).mpr hp)
    rw [store, if_neg (show (l.advance s).oldUf ≠ some uf from hold)]
    refine ⟨hmem, last_field_iff hmem huf, h.foundAt_concat, h.port, fun g => ?_, fun g => ?_⟩
    · rw [h.fieldSet_concat huf g, ParserUrl.fieldSet_setBit]
      rfl
    · rw [ParserUrl.fieldData_setBit]
      by_cases hg : g = uf
      · subst hg
        rw [← huf, storedPart_concat_new hss (huf ▸ hocc)]
        simp
      · rw [hother g hg, ParserUrl.fieldData_setLen_of_ne _ _ hg,
          ParserUrl.fieldData_setOff_of_ne _ _ hg]
        rfl

/-- One round of the loop. -/
theorem After.enter (h : l.After u₀ ss) {ch : UInt8} (hstep : UrlState.Step ch l.s s) :
    ∃ l' : UrlLoop, l.enter ss.length s = .ok l' ∧ l'.After u₀ (ss ++ [s]) ∧ l'.s = s := by
  rcases hstep.field_cases with ⟨hfield, hdelim⟩ | ⟨uf, hfield, huf⟩
  · refine ⟨_, ?_, h.delimiter hstep.rank_le hdelim, rfl⟩
    rw [UrlLoop.enter, hfield]
    rfl
  · refine ⟨_, ?_, h.byte hstep.rank_le huf, ?_⟩
    · rw [UrlLoop.enter, hfield]
      rfl
    · unfold store
      split <;> rfl

end UrlLoop

/-- The first loop: it ends, with 0 if all the bytes were read, and its variables are those for the
states it went through. -/
theorem urlLoop_spec {u₀ : ParserUrl} {ss : List UrlState} {l : UrlLoop} (h : l.After u₀ ss)
    (bs : List UInt8) :
    ∃ rc l', urlLoop bs ss.length l = .ok (rc, l') ∧
      l'.After u₀ (ss ++ states parseUrlChar .dead l.s bs) ∧
      (rc = 0 ↔ Live parseUrlChar .dead l.s bs) := by
  induction bs generalizing ss l with
  | nil => exact ⟨0, l, rfl, by simpa [states] using h, by simp [live_nil]⟩
  | cons ch bs ih =>
    by_cases hdead : parseUrlChar l.s ch = .dead
    · refine ⟨1, l, if_pos hdead, ?_, ?_⟩
      · rw [states_cons_of_dead hdead, List.append_nil]
        exact h
      · simp [live_cons, hdead]
    · obtain ⟨l₁, henter, hl₁, hs⟩ := h.enter (UrlState.step_of_ne_dead hdead)
      obtain ⟨rc, l', hrun, hl', hrc⟩ := ih hl₁
      refine ⟨rc, l', ?_, ?_, ?_⟩
      · rw [urlLoop, if_neg hdead, henter, Except.ok_bind]
        simpa using hrun
      · rw [states_cons hdead]
        simpa [hs] using hl'
      · rw [hrc, live_cons, hs]
        exact ⟨fun hlive => ⟨hdead, hlive⟩, fun hlive => hlive.2⟩

/-! ### The second loop -/

/-- The rank of a field's bytes in the second automaton, which sees three of the fields. -/
def UrlField.hostRank : UrlField → ℕ
  | userinfo => 1
  | host => 4
  | port => 7
  | schema => 8
  | path => 9
  | query => 10
  | fragment => 11

theorem UrlField.hostRank_injective : Function.Injective UrlField.hostRank := by
  intro uf g h
  cases uf <;> cases g <;> first | rfl | cases h

namespace ParserUrl

/-- What `c_http_parse_host` does at the first byte of a field. The host is in `field_set` already
and its length is reset before the loop. -/
def startField (u : ParserUrl) (uf : UrlField) (pos : ℕ) : ParserUrl :=
  if uf = .host then u.setOff uf pos else ((u.setOff uf pos).setLen uf 0).setBit uf

/-- A byte of the authority is a delimiter, or lengthens a field, which it may start. -/
theorem hostByte_cases (u : ParserUrl) (pos : ℕ) {s s' : HostState} {ch : UInt8}
    (h : HostState.Step ch s s') :
    (u.hostByte pos s s' = u ∧ ∀ uf : UrlField, s'.rank ≠ uf.hostRank) ∨
      ∃ uf : UrlField, s'.rank = uf.hostRank ∧
        u.hostByte pos s s' = (if s.rank ≠ s'.rank then u.startField uf pos else u).incLen uf := by
  cases h with
  | userinfo hs =>
    refine Or.inr ⟨.userinfo, rfl, ?_⟩
    obtain rfl | rfl := hs <;> rfl
  | port hs =>
    refine Or.inr ⟨.port, rfl, ?_⟩
    obtain rfl | rfl := hs <;> rfl
  | startHost | host | startV6 | v6 | percent | startZone | zone => exact Or.inr ⟨.host, rfl, rfl⟩
  | atSign | bracket | v6End | zoneEnd | colon | v6Colon =>
    refine Or.inl ⟨rfl, fun uf => ?_⟩
    cases uf <;> decide

/-- The structure after the second loop went through the states `ss` from `base` on, and is in
state `s`; `u₁` is the structure before. -/
structure AfterHost (u₁ : ParserUrl) (base : ℕ) (ss : List HostState) (s : HostState)
    (u : ParserUrl) : Prop where
  rank_le : ∀ t ∈ ss, t.rank ≤ s.rank
  occ_pos : ∀ uf : UrlField, s.rank = uf.hostRank → 0 < occ HostState.rank ss uf.hostRank
  port : u.port = u₁.port
  fieldSet : ∀ uf : UrlField,
    u.fieldSet uf = (u₁.fieldSet uf || decide (0 < occ HostState.rank ss uf.hostRank))
  fieldData : ∀ uf : UrlField,
    u.fieldData uf = storedPart HostState.rank (u₁.fieldData uf) base ss uf.hostRank

/-- The structure with which the second loop starts. -/
structure HostReset (u : ParserUrl) : Prop where
  fieldSet : u.fieldSet .host = true
  len : (u.fieldData .host).len = 0

variable {u₁ u : ParserUrl} {base : ℕ} {ss : List HostState} {s s' : HostState} {uf : UrlField}

theorem afterHost_start (u₁ : ParserUrl) (base : ℕ) (foundAt : Bool) :
    AfterHost u₁ base [] (.start foundAt) u₁ where
  rank_le := by simp
  occ_pos uf := by
    cases foundAt <;> cases uf <;> decide
  port := rfl
  fieldSet uf := by simp
  fieldData _ := rfl

private theorem AfterHost.delimiter (h : AfterHost u₁ base ss s u) (hle : s.rank ≤ s'.rank)
    (hdelim : ∀ uf : UrlField, s'.rank ≠ uf.hostRank) : AfterHost u₁ base (ss ++ [s']) s' u := by
  have hss : ∀ t ∈ ss, t.rank ≤ s'.rank := fun t ht => (h.rank_le t ht).trans hle
  refine ⟨?_, fun uf huf => absurd huf (hdelim uf), h.port, fun uf => ?_, fun uf => ?_⟩
  · simpa [or_imp, forall_and] using hss
  · rw [h.fieldSet uf]
    simp [hdelim uf]
  · rw [storedPart_concat_of_ne hss (hdelim uf)]
    exact h.fieldData uf

/-- What a byte that starts a field leaves. -/
theorem fieldData_startField (u : ParserUrl) (uf g : UrlField) (pos : ℕ)
    (hlen : uf = .host → (u.fieldData .host).len = 0) :
    ((u.startField uf pos).incLen uf).fieldData g =
      if g = uf then ⟨u16 pos, u16 1⟩ else u.fieldData g := by
  by_cases hg : g = uf
  · subst hg
    rw [if_pos rfl, fieldData_incLen_self, startField]
    split
    · next heq =>
      subst heq
      simp [hlen rfl]
    · simp [u16]
  · rw [if_neg hg, fieldData_incLen_of_ne _ hg, startField]
    split
    · exact fieldData_setOff_of_ne _ _ hg
    · rw [fieldData_setBit, fieldData_setLen_of_ne _ _ hg, fieldData_setOff_of_ne _ _ hg]

private theorem fieldSet_startField (u : ParserUrl) (uf g : UrlField) (pos : ℕ)
    (hset : uf = .host → u.fieldSet .host = true) :
    ((u.startField uf pos).incLen uf).fieldSet g = (u.fieldSet g || decide (g = uf)) := by
  rw [fieldSet_incLen, startField]
  split
  · next heq =>
    subst heq
    by_cases hg : g = .host
    · simp [hg, hset rfl]
    · simp [hg]
  · rw [fieldSet_setBit]
    rfl

private theorem port_startField (u : ParserUrl) (uf : UrlField) (pos : ℕ) :
    (u.startField uf pos).port = u.port := by
  unfold startField
  split <;> rfl

/-- A field has not started when a byte comes from a state of lower rank. -/
theorem AfterHost.occ_eq_zero (h : AfterHost u₁ base ss s u) (hlt : s.rank < s'.rank) :
    occ HostState.rank ss s'.rank = 0 :=
  occ_eq_zero_iff.mpr fun t ht heq =>
    absurd (heq ▸ h.rank_le t ht) (Nat.not_le_of_gt hlt)

private theorem AfterHost.fieldSet_concat (h : AfterHost u₁ base ss s u)
    (huf : s'.rank = uf.hostRank)
    (g : UrlField) : (u.fieldSet g || decide (g = uf)) =
      (u₁.fieldSet g || decide (0 < occ HostState.rank (ss ++ [s']) g.hostRank)) := by
  rw [h.fieldSet g]
  by_cases hg : g = uf
  · subst hg
    simp [huf]
  · have hne : s'.rank ≠ g.hostRank := fun heq =>
      hg (UrlField.hostRank_injective (heq.symm.trans huf))
    simp [hne, hg]

/-- The other fields stay as they are. -/
theorem AfterHost.fieldData_of_ne (h : AfterHost u₁ base ss s u) (hle : s.rank ≤ s'.rank)
    (huf : s'.rank = uf.hostRank) {g : UrlField} (hg : g ≠ uf) : u.fieldData g =
      storedPart HostState.rank (u₁.fieldData g) base (ss ++ [s']) g.hostRank := by
  have hne : s'.rank ≠ g.hostRank := fun heq =>
    hg (UrlField.hostRank_injective (heq.symm.trans huf))
  rw [storedPart_concat_of_ne (fun t ht => (h.rank_le t ht).trans hle) hne]
  exact h.fieldData g

private theorem AfterHost.byte (h : AfterHost u₁ base ss s u) (hreset : u₁.HostReset)
    (hle : s.rank ≤ s'.rank) (huf : s'.rank = uf.hostRank) :
    AfterHost u₁ base (ss ++ [s']) s' ((if s.rank ≠ s'.rank then
      u.startField uf (base + ss.length) else u).incLen uf) := by
  have hss : ∀ t ∈ ss, t.rank ≤ s'.rank := fun t ht => (h.rank_le t ht).trans hle
  have hmem : ∀ t ∈ ss ++ [s'], t.rank ≤ s'.rank := by
    simpa [or_imp, forall_and] using hss
  have hpos : ∀ g : UrlField, s'.rank = g.hostRank →
      0 < occ HostState.rank (ss ++ [s']) g.hostRank := by
    intro g hg
    simp [hg]
  by_cases hrank : s.rank = s'.rank
  · -- the field goes on
    rw [if_neg (not_not_intro hrank)]
    have hocc : 0 < occ HostState.rank ss uf.hostRank := h.occ_pos uf (hrank.trans huf)
    refine ⟨hmem, hpos, h.port, fun g => ?_, fun g => ?_⟩
    · rw [← h.fieldSet_concat huf g, fieldSet_incLen]
      by_cases hg : g = uf
      · subst hg
        simp [h.fieldSet, hocc]
      · simp [hg]
    · by_cases hg : g = uf
      · subst hg
        rw [← huf, storedPart_concat_self hss (huf ▸ hocc), huf, ← h.fieldData g]
        exact fieldData_incLen_self u g
      · rw [fieldData_incLen_of_ne u hg]
        exact h.fieldData_of_ne hle huf hg
  · -- the field starts; the host's length is still the one it was reset to
    rw [if_pos hrank]
    have hocc := h.occ_eq_zero (Nat.lt_of_le_of_ne hle hrank)
    have hlen : uf = .host → (u.fieldData .host).len = 0 := by
      intro heq
      rw [h.fieldData, ← heq, ← huf, storedPart_of_occ_eq_zero hocc, heq]
      exact hreset.len
    have hhost : u.fieldSet .host = true := by
      rw [h.fieldSet, hreset.fieldSet]
      rfl
    refine ⟨hmem, hpos, ?_, fun g => ?_, fun g => ?_⟩
    · rw [port_incLen, port_startField]
      exact h.port
    · rw [← h.fieldSet_concat huf g]
      exact fieldSet_startField u uf g _ fun _ => hhost
    · rw [fieldData_startField u uf g _ hlen]
      split
      · next hg =>
        rw [hg, ← huf, storedPart_concat_new hss hocc]
      · next hg => exact h.fieldData_of_ne hle huf hg

/-- One round of the second loop. -/
theorem AfterHost.hostByte (h : AfterHost u₁ base ss s u) (hreset : u₁.HostReset) {ch : UInt8}
    (hstep : HostState.Step ch s s') :
    AfterHost u₁ base (ss ++ [s']) s' (u.hostByte (base + ss.length) s s') := by
  rcases u.hostByte_cases (base + ss.length) hstep with ⟨heq, hdelim⟩ | ⟨uf, huf, heq⟩
  · rw [heq]
    exact h.delimiter hstep.rank_le hdelim
  · rw [heq]
    exact h.byte hreset hstep.rank_le huf

end ParserUrl

/-- The second loop: it ends in the dead state if a byte is refused and in the last state else, and
the structure is the one for the states it went through. -/
theorem hostLoop_spec {u₁ u : ParserUrl} {base : ℕ} {ss : List HostState} {s : HostState}
    (h : u₁.AfterHost base ss s u) (hreset : u₁.HostReset) (bs : List UInt8) :
    ∃ s' t u', hostLoop bs (base + ss.length) s u = (s', u') ∧
      u₁.AfterHost base (ss ++ states parseHostChar .dead s bs) t u' ∧
      (Live parseHostChar .dead s bs → s' = (states parseHostChar .dead s bs).getLastD s) ∧
      (¬ Live parseHostChar .dead s bs → s' = .dead) := by
  induction bs generalizing ss s u with
  | nil => exact ⟨s, s, u, rfl, by simpa [states] using h, fun _ => rfl, fun h => absurd live_nil h⟩
  | cons ch bs ih =>
    by_cases hdead : parseHostChar s ch = .dead
    · refine ⟨.dead, s, u, if_pos hdead, ?_, ?_, fun _ => rfl⟩
      · rw [states_cons_of_dead hdead, List.append_nil]
        exact h
      · intro hlive
        exact absurd hdead (live_cons.mp hlive).1
    · obtain ⟨s', t, u', hrun, hu', hlive, hnot⟩ :=
        ih (h.hostByte hreset (HostState.step_of_ne_dead hdead))
      refine ⟨s', t, u', ?_, ?_, ?_, ?_⟩
      · rw [hostLoop, if_neg hdead]
        simpa [Nat.add_assoc] using hrun
      · rw [states_cons hdead]
        simpa using hu'
      · intro h'
        rw [hlive (live_cons.mp h').2, states_cons hdead, List.getLastD_cons]
      · intro h'
        exact hnot fun hl => h' (live_cons.mpr ⟨hdead, hl⟩)

end CHttp
