import CHttp.Common.BufferChain

/-!
# Comparing contents

`BufferChain_eq_cstr` and `IOBuffer_equal` are meant to compare contents. The first runs through the
chain with an index into the string and never asks whether the string ends where the chain does; the
second leaves the comparison to `strncmp`, which ends at a NUL in both. Each is described by what it
returns, and from that it is read off for which arguments the answer is the right one.
-/

namespace CHttp

/-- The argument of a function that expects a C string: the bytes before its terminator. -/
structure CString where
  bytes : List UInt8
  noNul : 0 ∉ bytes

/-- `cstr[i]`, the terminator included; what lies after it is not the string's. -/
def CString.at (cstr : CString) (i : ℕ) : Except Abort UInt8 :=
  match (cstr.bytes ++ [0])[i]? with
  | some c => .ok c
  | none => .error ⟨"BufferChain_eq_cstr", "cstr is read past its terminator"⟩

namespace BufferChain

/-- The inner loop of `BufferChain_eq_cstr`: the index into the string after the last byte of
`data`, or nothing at a difference. -/
def eqData (cstr : CString) : List UInt8 → ℕ → Except Abort (Option ℕ)
  | [], cstrIndex => .ok (some cstrIndex)
  | b :: data, cstrIndex => do
    if (← cstr.at cstrIndex) ≠ b then return none
    else eqData cstr data (cstrIndex + 1)

/-- The outer loop of `BufferChain_eq_cstr`. -/
def eqBuffers (cstr : CString) : List IOBuffer → ℕ → Except Abort Bool
  | [], _ => .ok true
  | tmp :: rest, cstrIndex => do
    match ← eqData cstr tmp.data cstrIndex with
    | none => return false
    | some cstrIndex => eqBuffers cstr rest cstrIndex

/-- `BufferChain_eq_cstr`. -/
def eqCstr (this : BufferChain) (cstr : CString) : Except Abort Bool :=
  eqBuffers cstr this.mChain 0

/-- What the inner loop finds, when `t` is the part of the string, with its terminator, from the
index on. -/
theorem eqData_eq (cstr : CString) {data t : List UInt8} {i : ℕ}
    (ht : (cstr.bytes ++ [0]).drop i = t) :
    eqData cstr data i =
      if data <+: t then .ok (some (i + data.length))
      else if t <+: data then
        .error ⟨"BufferChain_eq_cstr", "cstr is read past its terminator"⟩
      else .ok none := by
  induction data generalizing i t with
  | nil => simp [eqData]
  | cons b data ih =>
    have hat : (cstr.bytes ++ [0])[i]? = t[0]? := by rw [← ht, List.getElem?_drop, Nat.add_zero]
    cases t with
    | nil => simp [eqData, CString.at, hat]
    | cons c t =>
      have ht' : (cstr.bytes ++ [0]).drop (i + 1) = t := by
        rw [← List.drop_drop, ht, List.drop_succ_cons, List.drop_zero]
      simp only [eqData, CString.at, hat, List.getElem?_cons_zero, Except.ok_bind,
        List.cons_prefix_cons, ih ht']
      by_cases hbc : c = b
      · subst hbc
        simp [Nat.add_comm, Nat.add_left_comm]
      · simp [hbc, Ne.symm hbc]

private theorem eqData_append (cstr : CString) (data data' : List UInt8) (i : ℕ) :
    eqData cstr (data ++ data') i = (do
      match ← eqData cstr data i with
      | none => return none
      | some i => eqData cstr data' i) := by
  induction data generalizing i with
  | nil => rfl
  | cons b data ih =>
    simp only [List.cons_append, eqData, ih, bind_assoc]
    congr 1
    funext c
    split
    · rfl
    · rfl

/-- Where one buffer ends and the next begins makes no difference. -/
theorem eqBuffers_eq (cstr : CString) (bs : List IOBuffer) (i : ℕ) :
    eqBuffers cstr bs i = (do return (← eqData cstr (bs.flatMap IOBuffer.data) i).isSome) := by
  induction bs generalizing i with
  | nil => rfl
  | cons b bs ih =>
    rw [List.flatMap_cons, eqData_append, eqBuffers, bind_assoc]
    congr 1
    funext r
    cases r with
    | none => rfl
    | some i => exact ih i

/-- What `BufferChain_eq_cstr` answers. -/
theorem eqCstr_eq (bc : BufferChain) (cstr : CString) :
    bc.eqCstr cstr =
      if bc.data <+: cstr.bytes ++ [0] then .ok true
      else if cstr.bytes ++ [0] <+: bc.data then
        .error ⟨"BufferChain_eq_cstr", "cstr is read past its terminator"⟩
      else .ok false := by
  rw [eqCstr, eqBuffers_eq, eqData_eq cstr (List.drop_zero ..), ← data]
  split
  · rfl
  · split <;> rfl

/-- `BufferChain_eq_cstr` is right exactly when the content is not a proper beginning of the string,
and does not itself begin with the string and its terminator. -/
theorem eqCstr_exact_iff (bc : BufferChain) (cstr : CString) :
    bc.eqCstr cstr = .ok (decide (bc.data = cstr.bytes)) ↔
      (bc.data <+: cstr.bytes → bc.data = cstr.bytes) ∧ ¬ cstr.bytes ++ [0] <+: bc.data := by
  have hlonger : ∀ l : List UInt8, l <+: cstr.bytes → ¬ cstr.bytes ++ [0] <+: l := by
    intro l hl hl'
    have h1 := hl.length_le
    have h2 := hl'.length_le
    rw [List.length_append] at h2
    exact absurd (h2.trans h1) (by simp)
  rw [eqCstr_eq]
  split
  · rename_i hpre
    rw [Except.ok.injEq, eq_comm, decide_eq_true_eq]
    rcases List.prefix_concat_iff.mp hpre with heq | hpre'
    · -- the terminator was taken for the content's last byte
      refine iff_of_false ?_ fun h => h.2 (heq ▸ List.prefix_refl _)
      intro hsame
      rw [heq] at hsame
      exact absurd (congrArg List.length hsame) (by simp)
    · exact ⟨fun h => ⟨fun _ => h, hlonger _ hpre'⟩, fun h => h.1 hpre'⟩
  · rename_i hnot
    have hne : ¬ bc.data <+: cstr.bytes := fun h => hnot (h.trans (List.prefix_append _ _))
    split
    · rename_i hpast
      exact iff_of_false (by simp) fun h => h.2 hpast
    · rename_i hpast
      have hdiff : bc.data ≠ cstr.bytes := fun h => hne (h ▸ List.prefix_refl _)
      exact iff_of_true (by simp [hdiff]) ⟨fun h => absurd h hne, hpast⟩

end BufferChain

/-- `IOBuffer_equal`. -/
def IOBuffer.equal (a b : IOBuffer) : Bool :=
  if a.dataLen ≠ b.dataLen then false
  else a.mem.strncmpEq a.bufferPtr b.mem b.bufferPtr a.dataLen

/-- `IOBuffer_equal` is right exactly when data of one length that agree up to a NUL agree. -/
theorem IOBuffer.equal_exact_iff (a b : IOBuffer) :
    a.equal b = decide (a.data = b.data) ↔
      (a.dataLen = b.dataLen → ∀ p, p ++ [0] <+: a.data → p ++ [0] <+: b.data →
        a.data = b.data) := by
  rw [IOBuffer.equal]
  split
  · rename_i hlen
    have hdiff : a.data ≠ b.data := fun h => hlen (by rw [← length_data, h, length_data])
    exact iff_of_true (by simp [hdiff]) fun h => absurd h hlen
  · rename_i hlen
    have hlen : a.dataLen = b.dataLen := not_not.mp hlen
    have hb : b.mem.read b.bufferPtr a.dataLen = b.data := by
      rw [hlen]
      rfl
    have hcmp : a.mem.strncmpEq a.bufferPtr b.mem b.bufferPtr a.dataLen ↔
        a.data = b.data ∨ ∃ p, p ++ [0] <+: a.data ∧ p ++ [0] <+: b.data := by
      have h := ByteMemory.strncmpEq_iff a.mem b.mem a.bufferPtr b.bufferPtr a.dataLen
      rwa [hb] at h
    rw [Bool.eq_iff_iff, decide_eq_true_eq, hcmp]
    constructor
    · intro h _ p hp hp'
      exact h.mp (Or.inr ⟨p, hp, hp'⟩)
    · intro h
      refine ⟨?_, Or.inl⟩
      rintro (heq | ⟨p, hp, hp'⟩)
      · exact heq
      · exact h hlen p hp hp'

/-- For which arguments the two comparisons are exact. -/
theorem comparison_exact_iff (bc : BufferChain) (cstr : CString) (a b : IOBuffer) :
    (bc.eqCstr cstr = .ok (decide (bc.data = cstr.bytes)) ↔
      (bc.data <+: cstr.bytes → bc.data = cstr.bytes) ∧ ¬ cstr.bytes ++ [0] <+: bc.data) ∧
    (a.equal b = decide (a.data = b.data) ↔
      (a.dataLen = b.dataLen → ∀ p, p ++ [0] <+: a.data → p ++ [0] <+: b.data →
        a.data = b.data)) :=
  ⟨bc.eqCstr_exact_iff cstr, a.equal_exact_iff b⟩

/-- A chain of one byte is found equal to a longer string, a chain of three bytes is compared with
what follows the string, and two buffers that differ after a NUL are found equal. -/
theorem comparison_not_exact :
    ((⟨[⟨fun _ => 97, 1, 0, 1⟩], 1⟩ : BufferChain).eqCstr ⟨[97, 98], by decide⟩ = .ok true ∧
      (⟨[⟨fun _ => 97, 1, 0, 1⟩], 1⟩ : BufferChain).data = [97]) ∧
    (⟨[⟨fun i => if i = 1 then 0 else 97, 3, 0, 3⟩], 3⟩ : BufferChain).eqCstr
        ⟨[97], by decide⟩ =
      .error ⟨"BufferChain_eq_cstr", "cstr is read past its terminator"⟩ ∧
    ((⟨fun _ => 0, 2, 0, 2⟩ : IOBuffer).equal ⟨fun i => if i = 1 then 97 else 0, 2, 0, 2⟩ = true ∧
      (⟨fun _ => 0, 2, 0, 2⟩ : IOBuffer).data ≠
        (⟨fun i => if i = 1 then 97 else 0, 2, 0, 2⟩ : IOBuffer).data) :=
  ⟨⟨rfl, rfl⟩, rfl, rfl, by decide⟩

end CHttp
