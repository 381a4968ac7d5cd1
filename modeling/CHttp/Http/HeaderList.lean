import CHttp.Abort
import CHttp.ForMathlib.ByteMemory

/-!
# Header lists

`kvpair.c` and `header_list.c`. A header line is a pair of byte strings, the label upper-cased
when the pair is made; a header list keeps the pairs in the order they were added. Both halves
end in a NUL, so that `strcmp` and `%s` see them up to their first NUL byte.
-/

namespace CHttp

/-- The bytes of an ASCII string literal. -/
def ascii (s : String) : List UInt8 := s.toList.map fun c => c.toNat.toUInt8

/-- What `strlen`, `strcmp` and `%s` see of a NUL-terminated copy of `s`. -/
def cString (s : List UInt8) : List UInt8 := s.takeWhile (· ≠ 0)

/-- `toupper` in the C locale. -/
def toUpper (b : UInt8) : UInt8 := if 97 ≤ b ∧ b ≤ 122 then b - 32 else b

/-- Small letters go to capital letters. -/
theorem toUpper_of_lower {b : UInt8} (h : 97 ≤ b ∧ b ≤ 122) :
    toUpper b = b - 32 ∧ 65 ≤ b - 32 ∧ b - 32 ≤ 90 := by
  have h1 : 97 ≤ b.toNat := UInt8.le_iff_toNat_le.mp h.1
  have h2 : b.toNat ≤ 122 := UInt8.le_iff_toNat_le.mp h.2
  have hsub : (b - 32).toNat = b.toNat - 32 :=
    UInt8.toNat_sub_of_le _ _ (UInt8.le_iff_toNat_le.mpr (show 32 ≤ b.toNat by omega))
  refine ⟨if_pos h, UInt8.le_iff_toNat_le.mpr ?_, UInt8.le_iff_toNat_le.mpr ?_⟩
  · rw [hsub]
    exact Nat.le_sub_of_add_le h1
  · rw [hsub]
    exact Nat.sub_le_of_le_add h2

theorem toUpper_of_not_lower {b : UInt8} (h : ¬ (97 ≤ b ∧ b ≤ 122)) : toUpper b = b := if_neg h

theorem toUpper_toUpper (b : UInt8) : toUpper (toUpper b) = toUpper b := by
  by_cases h : 97 ≤ b ∧ b ≤ 122
  · obtain ⟨heq, -, hle⟩ := toUpper_of_lower h
    rw [heq]
    exact toUpper_of_not_lower fun h' => absurd (UInt8.le_trans h'.1 hle) (by decide)
  · rw [toUpper_of_not_lower h, toUpper_of_not_lower h]

theorem toUpper_eq_zero {b : UInt8} : toUpper b = 0 ↔ b = 0 := by
  by_cases h : 97 ≤ b ∧ b ≤ 122
  · obtain ⟨heq, hge, -⟩ := toUpper_of_lower h
    rw [heq]
    exact iff_of_false (fun h0 => absurd (h0 ▸ hge) (by decide))
      fun h0 => absurd (h0 ▸ h.1) (by decide)
  · rw [toUpper_of_not_lower h]

/-- `make_upper`. -/
def makeUpper (s : List UInt8) : List UInt8 := (cString s).map toUpper

/-- Upper-casing does not move the end of a string. -/
theorem cString_map_toUpper (s : List UInt8) : cString (s.map toUpper) = makeUpper s := by
  have hpred : (fun b : UInt8 => decide (b ≠ 0)) ∘ toUpper = fun b => decide (b ≠ 0) := by
    funext b
    exact decide_eq_decide.mpr (not_congr toUpper_eq_zero)
  rw [cString, List.takeWhile_map, hpred]
  rfl

/-- A C string is a C string. -/
theorem cString_takeWhile (s : List UInt8) :
    (s.takeWhile (· ≠ 0)).takeWhile (· ≠ 0) = cString s := by
  rw [List.takeWhile_takeWhile]
  simp [cString]

theorem cString_eq_self {s : List UInt8} : cString s = s ↔ 0 ∉ s := by
  rw [cString, List.takeWhile_eq_self_iff]
  constructor
  · intro h h0
    simpa using h 0 h0
  · intro h x hx
    simpa using fun h0 : x = 0 => h (h0 ▸ hx)

/-- `KVPair`. -/
structure KVPair where
  label : List UInt8
  value : List UInt8
  deriving DecidableEq, Repr

/-- `KVPair_new`. -/
def KVPair.new (label value : List UInt8) : KVPair := ⟨label.map toUpper, value⟩

/-- Upper-casing the label again changes nothing. -/
theorem KVPair.label_new (label value : List UInt8) :
    (new label value).label.map toUpper = (new label value).label := by
  simp only [new, List.map_map]
  exact List.map_congr_left fun b _ => toUpper_toUpper b

/-- `KVPair_set_value`. -/
def KVPair.setValue (kvp : KVPair) (value : List UInt8) : KVPair := { kvp with value }

/-- `HdrList`. -/
abbrev HdrList : Type := List KVPair

namespace HdrList

/-- `HdrList_find`. -/
def find (hdrs : HdrList) (key : List UInt8) : Option KVPair :=
  hdrs.find? fun hlr => cString hlr.label = makeUpper key

/-- `HdrList_add_back`. -/
def addBack (hdrs : HdrList) (item : KVPair) : HdrList := hdrs ++ [item]

/-- `HdrList_add_cstr`. -/
def addCstr (hdrs : HdrList) (label value : List UInt8) : HdrList :=
  hdrs.addBack (KVPair.new (cString label) (cString value))

/-- `HdrList_add_arr`. -/
def addArr (hdrs : HdrList) (ar : List (List UInt8 × List UInt8)) : HdrList :=
  ar.foldl (fun hdrs row => hdrs.addCstr row.1 row.2) hdrs

/-- `KVPair_set_value` on the entry that `HdrList_find` returns. -/
def setValue (hdrs : HdrList) (key value : List UInt8) : HdrList :=
  match hdrs with
  | [] => []
  | hlr :: rest =>
    if cString hlr.label = makeUpper key then hlr.setValue value :: rest
    else hlr :: setValue rest key value

end HdrList

end CHttp
