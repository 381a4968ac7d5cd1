import Mathlib.Algebra.GroupWithZero.Nat
import CHttp.Http.HeaderMap

/-!
# The content length of a message

`Message_set_content_length` formats the length and stores it: in the entry for the header that is
found, or in a new entry when there is none. Both ways leave one and the same text in the first
entry for the header. The text goes through ten bytes, one of them for the NUL, so a length of ten
digits, which an `int` can have, is written past their end.
-/

namespace CHttp

namespace HdrList

/-- `hdrs'` is `hdrs` with the value for a name set: there is no entry for it and one is added at
the end, or the value of the first entry is replaced. -/
def Sets (hdrs hdrs' : HdrList) (name value : List UInt8) : Prop :=
  ((∀ kvp ∈ hdrs, kvp.name ≠ name) ∧ hdrs' = hdrs ++ [⟨name, value⟩]) ∨
    ∃ pre kvp post, hdrs = pre ++ kvp :: post ∧ (∀ kvp ∈ pre, kvp.name ≠ name) ∧
      kvp.name = name ∧ hdrs' = pre ++ kvp.setValue value :: post

/-- Looking for a key: no entry has its name, or the first one that has is found. -/
theorem find_cases (hdrs : HdrList) (key : List UInt8) :
    (hdrs.find key = none ∧ ∀ kvp ∈ hdrs, kvp.name ≠ makeUpper key) ∨
      ∃ pre kvp post, hdrs = pre ++ kvp :: post ∧ (∀ kvp ∈ pre, kvp.name ≠ makeUpper key) ∧
        kvp.name = makeUpper key ∧ hdrs.find key = some kvp := by
  cases hfind : hdrs.find key with
  | none => exact Or.inl ⟨rfl, Message.find_eq_none_iff.mp hfind⟩
  | some kvp =>
    obtain ⟨hname, pre, post, heq, hpre⟩ := List.find?_eq_some_iff_append.mp hfind
    refine Or.inr ⟨pre, kvp, post, heq, fun k hk => ?_, of_decide_eq_true hname, rfl⟩
    simpa [KVPair.name] using hpre k hk

private theorem find_append {pre post : HdrList} {kvp : KVPair} {key : List UInt8}
    (hpre : ∀ kvp ∈ pre, kvp.name ≠ makeUpper key) (hkvp : kvp.name = makeUpper key) :
    find (pre ++ kvp :: post) key = some kvp := by
  refine List.find?_eq_some_iff_append.mpr ⟨decide_eq_true hkvp, pre, post, rfl, fun k hk => ?_⟩
  simpa [KVPair.name] using hpre k hk

private theorem setValue_append {pre post : HdrList} {kvp : KVPair} {key : List UInt8}
    (hpre : ∀ kvp ∈ pre, kvp.name ≠ makeUpper key) (hkvp : kvp.name = makeUpper key)
    (value : List UInt8) :
    setValue (pre ++ kvp :: post) key value = pre ++ kvp.setValue value :: post := by
  induction pre with
  | nil => exact if_pos hkvp
  | cons k pre ih =>
    obtain ⟨hk, hpre⟩ := List.forall_mem_cons.mp hpre
    rw [List.cons_append, setValue, ih hpre]
    exact if_neg hk

/-- What `Message_set_content_length` does to the list: both its ways. -/
def store (hdrs : HdrList) (key value : List UInt8) : HdrList :=
  match hdrs.find key with
  | some _ => hdrs.setValue key value
  | none => hdrs.addCstr key value

theorem cString_makeUpper (key : List UInt8) : cString (makeUpper key) = makeUpper key := by
  rw [← cString_map_toUpper]
  exact cString_takeWhile _

private theorem store_of_append {pre post : HdrList} {kvp : KVPair} {key : List UInt8}
    (hpre : ∀ kvp ∈ pre, kvp.name ≠ makeUpper key) (hkvp : kvp.name = makeUpper key)
    (value : List UInt8) :
    store (pre ++ kvp :: post) key value = pre ++ kvp.setValue value :: post := by
  rw [store, find_append hpre hkvp]
  exact setValue_append hpre hkvp value

theorem store_of_forall_ne {hdrs : HdrList} {key : List UInt8}
    (hall : ∀ kvp ∈ hdrs, kvp.name ≠ makeUpper key) {value : List UInt8} (hv : 0 ∉ value) :
    hdrs.store key value = hdrs ++ [⟨makeUpper key, value⟩] := by
  rw [store, Message.find_eq_none_iff.mpr hall]
  simp only [addCstr, addBack, KVPair.new, cString_eq_self.mpr hv]
  rfl

private theorem store_sets (hdrs : HdrList) (key : List UInt8) {value : List UInt8}
    (hv : 0 ∉ value) :
    hdrs.Sets (hdrs.store key value) (makeUpper key) value := by
  rcases hdrs.find_cases key with ⟨-, hall⟩ | ⟨pre, kvp, post, rfl, hpre, hkvp, -⟩
  · exact Or.inl ⟨hall, store_of_forall_ne hall hv⟩
  · exact Or.inr ⟨pre, kvp, post, rfl, hpre, hkvp, store_of_append hpre hkvp value⟩

/-- The value that was stored is found. -/
theorem find_store (hdrs : HdrList) (key : List UInt8) {value : List UInt8} (hv : 0 ∉ value) :
    ∃ kvp, (hdrs.store key value).find key = some kvp ∧ kvp.value = value := by
  rcases hdrs.find_cases key with ⟨-, hall⟩ | ⟨pre, kvp, post, rfl, hpre, hkvp, -⟩
  · rw [store_of_forall_ne hall hv]
    exact ⟨_, find_append hall (cString_makeUpper key), rfl⟩
  · rw [store_of_append hpre hkvp]
    exact ⟨kvp.setValue value, find_append hpre hkvp, rfl⟩

/-- Storing twice is storing the second value. -/
theorem store_store (hdrs : HdrList) (key : List UInt8) {a b : List UInt8} (ha : 0 ∉ a)
    (hb : 0 ∉ b) : (hdrs.store key a).store key b = hdrs.store key b := by
  rcases hdrs.find_cases key with ⟨-, hall⟩ | ⟨pre, kvp, post, rfl, hpre, hkvp, -⟩
  · rw [store_of_forall_ne hall ha, store_of_forall_ne hall hb]
    exact store_of_append hall (show (KVPair.mk _ a).name = _ from cString_makeUpper key) b
  · rw [store_of_append hpre hkvp, store_of_append hpre hkvp]
    exact store_of_append hpre (show (kvp.setValue a).name = _ from hkvp) b

/-- No second entry for the name is added. -/
theorem Sets.count {hdrs hdrs' : HdrList} {name value : List UInt8} (hname : cString name = name)
    (h : hdrs.Sets hdrs' name value) :
    (hdrs'.filter fun kvp => kvp.name = name).length =
      max 1 (hdrs.filter fun kvp => kvp.name = name).length := by
  rcases h with ⟨hall, rfl⟩ | ⟨pre, kvp, post, rfl, hpre, hkvp, rfl⟩
  · have hnil : (hdrs.filter fun kvp => kvp.name = name) = [] := by
      rw [List.filter_eq_nil_iff]
      intro kvp hmem
      simpa using hall kvp hmem
    have hnew : (KVPair.mk name value).name = name := hname
    simp [List.filter_append, hnil, hnew]
  · have hkvp' : (kvp.setValue value).name = name := hkvp
    simp only [List.filter_append, List.filter_cons, hkvp, hkvp', decide_true, if_true,
      List.length_append, List.length_cons]
    omega

end HdrList

namespace Message

/-- What `Message_set_content_length` is to do, from `m` to `m'`. -/
structure SetsContentLength (m m' : Message) (length : ℕ) : Prop where
  /-- The first entry for the header has the number as its value. -/
  first : ∃ kvp, m'.headers.find (ascii "Content-length") = some kvp ∧
    kvp.value = formatNat length ∧ Http1.number? kvp.value = some length
  /-- There is no second entry that was not there before. -/
  count : (m'.headers.filter fun kvp => kvp.name = ascii "CONTENT-LENGTH").length =
    max 1 (m.headers.filter fun kvp => kvp.name = ascii "CONTENT-LENGTH").length
  /-- The other entries are as they were. -/
  sets : m.headers.Sets m'.headers (ascii "CONTENT-LENGTH") (formatNat length)
  rest : m' = { m with headers := m'.headers }

/-- Nine digits fit with their NUL. -/
theorem length_formatNat_lt {n : ℕ} : (formatNat n).length < 10 ↔ n < 10 ^ 9 := by
  rw [formatNat, Http1.decimal, List.length_map, Nat.lt_succ_iff,
    Nat.length_toDigits_le_iff (by decide) (by decide)]

theorem setContentLength_eq (m : Message) (length : ℕ) :
    m.setContentLength length =
      if length < 10 ^ 9 then
        .ok { m with headers := m.headers.store (ascii "Content-length") (formatNat length) }
      else .error ⟨"Message_set_content_length", "buf[10] overflows"⟩ := by
  have hpos : (0 : ℤ) ≤ length := Int.natCast_nonneg _
  simp only [setContentLength, hpos, decide_true, assertThat_true, Int.toNat_natCast,
    length_formatNat_lt, Except.ok_bind]
  by_cases hlt : length < 10 ^ 9
  · rw [if_pos hlt, decide_eq_true hlt]
    rfl
  · rw [if_neg hlt, decide_eq_false hlt]
    rfl

/-- **The length is stored, without a write past the end,** exactly if it has at most nine
digits. -/
theorem setContentLength_iff (m : Message) (length : ℕ) :
    (∃ m', m.setContentLength length = .ok m' ∧ m.SetsContentLength m' length ∧
      ∀ (a : ℕ) (m₁ : Message), m.setContentLength a = .ok m₁ →
        m₁.setContentLength length = .ok m') ↔ length < 10 ^ 9 := by
  have hkey : makeUpper (ascii "Content-length") = ascii "CONTENT-LENGTH" := by decide
  have hzero : ∀ n, 0 ∉ formatNat n := zero_notMem_formatNat
  constructor
  · rintro ⟨m', hm', -⟩
    rw [setContentLength_eq] at hm'
    split at hm'
    · assumption
    · cases hm'
  · intro hlt
    have hok : ∀ m : Message, m.setContentLength length =
        .ok { m with headers := m.headers.store (ascii "Content-length") (formatNat length) } :=
      fun m => (m.setContentLength_eq length).trans (if_pos hlt)
    have hsets := hkey ▸ m.headers.store_sets (ascii "Content-length") (hzero length)
    refine ⟨_, hok m, ⟨?_, hsets.count (by decide), hsets, rfl⟩, fun a m₁ h₁ => ?_⟩
    · obtain ⟨kvp, hfind, hvalue⟩ := m.headers.find_store (ascii "Content-length") (hzero length)
      exact ⟨kvp, hfind, hvalue, hvalue ▸ Http1.number?_decimal length⟩
    · rw [setContentLength_eq] at h₁
      split at h₁
      · cases h₁
        rw [hok, HdrList.store_store _ _ (hzero a) (hzero length)]
      · cases h₁

/-- The least length with ten digits. -/
theorem not_setContentLength_billion :
    (newResponse Junk.zeros).setContentLength 1000000000 =
      .error ⟨"Message_set_content_length", "buf[10] overflows"⟩ :=
  (newResponse Junk.zeros).setContentLength_eq 1000000000

end Message

end CHttp
