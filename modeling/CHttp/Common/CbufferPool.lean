import CHttp.Common.Cbuffer
import CHttp.ForMathlib.Machine
import Mathlib.Logic.Function.Basic

/-!
# Contiguous buffers over whole runs

Any number of `Cbuffer`s, each beside the bytes appended to it since it was last cleared and the
size of the block it was given by `malloc` or `realloc`. `Slot.Terminated` is what `Cbuffer_cstr`
and its callers rely on: the bytes are there, a NUL follows them, and it is inside the block.

The code misses it in two ways. `Cbuffer_new` does not write a NUL, so a fresh buffer has one only
if the allocator happens to leave one. And growth takes the larger of the requested length and of
twice the capacity up to the limit: a length that reaches the latter leaves no room for the NUL,
which goes to the byte after the block.
-/

namespace CHttp

namespace Cbuffer

/-- A buffer, the size of its block, and what was appended to it since it was last cleared. -/
structure Slot where
  cbuf : Cbuffer
  block : ℕ
  content : List UInt8

namespace Slot

/-- `Cbuffer_new`, with a block from `BufferStrategy_allocate`. -/
def new (junk : ByteMemory) : Slot := ⟨Cbuffer.new junk, max minSize minSize, []⟩

/-- The size of the block in `Cbuffer_append`: what is asked of `realloc`, if it is called. -/
def reallocate (s : Slot) (bs : List UInt8) : Except Abort ℕ :=
  if bs.length ≠ 0 ∧ s.cbuf.mLength + bs.length ≥ s.cbuf.mCapacity then
    reallocateSize s.cbuf.mCapacity (s.cbuf.mLength + bs.length)
  else .ok s.block

/-- `Cbuffer_append`. -/
def append (s : Slot) (bs : List UInt8) : Except Abort Slot := do
  let block ← s.reallocate bs
  return ⟨← s.cbuf.append bs, block, s.content ++ bs⟩

/-- `Cbuffer_clear`. -/
def clear (s : Slot) : Slot := { s with cbuf := s.cbuf.clear, content := [] }

/-- `Cbuffer_move`: the blocks change hands with the buffers. -/
def move (dest src : Slot) : Slot × Slot :=
  let (d, s) := dest.cbuf.move src.cbuf
  (⟨d, src.block, src.content⟩, ⟨s, dest.block, []⟩)

/-- The buffer shows the content, its capacity is its block's size and more than its length, and the
NUL after the content makes it the C string that `Cbuffer_cstr` returns. -/
structure Terminated (s : Slot) : Prop where
  data : s.cbuf.data = s.content
  length_lt : s.cbuf.mLength < s.cbuf.mCapacity
  block : s.cbuf.mCapacity = s.block
  nul : s.cbuf.mem s.cbuf.mLength = 0
  cstr : s.cbuf.cstr = .ok (s.content.takeWhile (· ≠ 0))

/-- What holds of every buffer in use, terminated or not. -/
structure Inv (s : Slot) : Prop where
  holds : s.cbuf.Holds s.content
  block : s.cbuf.mCapacity = s.block
  length_le_size : s.cbuf.mLength ≤ s.cbuf.mSize

private theorem Inv.terminated_iff {s : Slot} (h : s.Inv) :
    s.Terminated ↔ s.cbuf.HoldsCstr s.content ∧ s.content.length < s.cbuf.mCapacity := by
  have hlen := h.holds.mLength
  constructor
  · intro ht
    refine ⟨⟨h.holds, ?_, hlen ▸ ht.nul, hlen ▸ h.length_le_size⟩, hlen ▸ ht.length_lt⟩
    by_contra hne
    have hcstr := ht.cstr
    simp [cstr, hne] at hcstr
  · rintro ⟨hc, hlt⟩
    exact ⟨h.holds.data_eq, hlen.symm ▸ hlt, h.block, hlen.symm ▸ hc.nul_length, hc.cstr_eq⟩

private theorem new_inv (junk : ByteMemory) : (new junk).Inv :=
  ⟨new_holds junk, rfl, Nat.le_refl _⟩

/-- A fresh buffer is terminated exactly if its memory starts with a NUL. -/
theorem new_terminated_iff (junk : ByteMemory) : (new junk).Terminated ↔ junk 0 = 0 := by
  refine ⟨fun h => h.nul, fun h0 => (new_inv junk).terminated_iff.mpr ⟨?_, ?_⟩⟩
  · exact ⟨new_holds junk, h0, h0, Nat.zero_le _⟩
  · exact show 0 < minSize by decide

private theorem clear_inv {s : Slot} (h : s.Inv) : s.clear.Inv :=
  ⟨⟨rfl, rfl, h.holds.capacity_le, Nat.zero_le _⟩, h.block, Nat.zero_le _⟩

theorem Terminated.clear {s : Slot} (ht : s.Terminated) (h : s.Inv) : s.clear.Terminated := by
  obtain ⟨hc, hlt⟩ := h.terminated_iff.mp ht
  exact (clear_inv h).terminated_iff.mpr ⟨hc.clear, Nat.lt_of_le_of_lt (Nat.zero_le _) hlt⟩

/-- The room that growth makes is more than the length exactly if the length stays below twice the
capacity and below the limit. -/
theorem lt_growTo_iff {cbuf : Cbuffer} {len capacity : ℕ} (hcap : cbuf.mCapacity ≤ maxSize)
    (h : cbuf.growTo len = .ok capacity) :
    len < capacity ↔ len < min maxSize (2 * cbuf.mCapacity) := by
  unfold growTo at h
  split at h
  · rename_i hge
    simp only [reallocateSize, Except.bind_eq_ok] at h
    obtain ⟨⟨⟩, -, h⟩ := h
    cases h
    omega
  · rename_i hlt
    cases h
    omega

/-- An append of some bytes within the limit. It terminates the buffer, and the NUL is in the block
exactly if there is room for one byte more. -/
theorem append_spec {s : Slot} (h : s.Inv) {bs : List UInt8} (hbs : bs ≠ [])
    (hfit : s.cbuf.mLength + bs.length ≤ maxSize) :
    ∃ s', s.append bs = .ok s' ∧ s'.Inv ∧
      (s'.Terminated ↔
        s.cbuf.mLength + bs.length < min maxSize (2 * s.cbuf.mCapacity)) := by
  have hne : bs.length ≠ 0 := fun h0 => hbs (List.length_eq_zero_iff.mp h0)
  obtain ⟨cbuf, hcbuf, hc⟩ := append_holdsCstr h.holds hbs (h.holds.mLength ▸ hfit)
  have happ := hcbuf
  simp only [Cbuffer.append, hne, if_false, Except.bind_eq_ok] at happ
  obtain ⟨capacity, hgrow, heq⟩ := happ
  have hcapacity : cbuf.mCapacity = capacity := by cases heq; rfl
  have hsize : cbuf.mLength ≤ cbuf.mSize := by cases heq; exact Nat.le_refl _
  have hblock : s.reallocate bs = .ok capacity := by
    rw [reallocate, ← h.block, ← hgrow, growTo]
    simp [hne]
  have hinv : Inv ⟨cbuf, capacity, s.content ++ bs⟩ := ⟨hc.toHolds, hcapacity, hsize⟩
  refine ⟨⟨cbuf, capacity, s.content ++ bs⟩, ?_, hinv, ?_⟩
  · simp only [append, hblock, hcbuf]
    rfl
  · rw [hinv.terminated_iff, ← lt_growTo_iff h.holds.capacity_le hgrow, h.holds.mLength]
    change cbuf.HoldsCstr (s.content ++ bs) ∧ (s.content ++ bs).length < cbuf.mCapacity ↔ _
    rw [hcapacity, List.length_append]
    exact and_iff_right hc

theorem append_nil {s : Slot} : s.append [] = .ok s := by
  simp [append, reallocate, Cbuffer.append]

private theorem move_inv {dest src : Slot} (hd : dest.Inv) (hs : src.Inv) :
    (dest.move src).1.Inv ∧ (dest.move src).2.Inv :=
  ⟨⟨hs.holds, hs.block, hs.length_le_size⟩, clear_inv (clear_inv hd)⟩

theorem Terminated.move {dest src : Slot} (hd : dest.Terminated) (hdi : dest.Inv)
    (hs : src.Terminated) : (dest.move src).1.Terminated ∧ (dest.move src).2.Terminated :=
  ⟨⟨hs.data, hs.length_lt, hs.block, hs.nul, hs.cstr⟩, (hd.clear hdi).clear (clear_inv hdi)⟩

end Slot

/-! ### Any number of buffers -/

/-- The operations on buffers, which are known by numbers. -/
inductive Op
  | new (i : ℕ) (junk : ByteMemory)
  | append (i : ℕ) (bs : List UInt8)
  | appendCstr (i : ℕ) (cstr : List UInt8)
  | clear (i : ℕ)
  | move (dest src : ℕ)

/-- The buffer numbered `i`. -/
def slot (w : ℕ → Option Slot) (i : ℕ) : Except Abort Slot :=
  match w i with
  | some s => .ok s
  | none => .error ⟨"Cbuffer", "not a buffer"⟩

/-- One operation. -/
def step (w : ℕ → Option Slot) : Op → Except Abort (ℕ → Option Slot)
  | .new i junk => .ok (Function.update w i (some (Slot.new junk)))
  | .append i bs => do
    return Function.update w i (some (← (← slot w i).append bs))
  | .appendCstr i cstr => do
    return Function.update w i (some (← (← slot w i).append (cstr.takeWhile (· ≠ 0))))
  | .clear i => do
    return Function.update w i (some (← slot w i).clear)
  | .move dest src => do
    let (d, s) := (← slot w dest).move (← slot w src)
    return Function.update (Function.update w dest (some d)) src (some s)

/-- Appending `bs` to the buffer numbered `i` stays within the limit of the strategy. -/
def WithinLimit (w : ℕ → Option Slot) (i : ℕ) (bs : List UInt8) : Prop :=
  ∃ s ∈ w i, s.cbuf.mLength + bs.length ≤ maxSize

/-- Appending `bs` to the buffer numbered `i` leaves room for the NUL. -/
def LeavesRoom (w : ℕ → Option Slot) (i : ℕ) (bs : List UInt8) : Prop :=
  bs ≠ [] → ∀ s ∈ w i, s.cbuf.mLength + bs.length < min maxSize (2 * s.cbuf.mCapacity)

/-- Operations are on buffers that exist, and appends within the limit. -/
def Allowed (w : ℕ → Option Slot) : Op → Prop
  | .new _ _ => True
  | .append i bs => WithinLimit w i bs
  | .appendCstr i cstr => WithinLimit w i (cstr.takeWhile (· ≠ 0))
  | .clear i => (w i).isSome
  | .move dest src => (w dest).isSome ∧ (w src).isSome

/-- The operation leaves a NUL inside the block: a new block starts with one, and an append keeps
the length below twice the capacity and below the limit. -/
def KeepsNul (w : ℕ → Option Slot) : Op → Prop
  | .new _ junk => junk 0 = 0
  | .append i bs => LeavesRoom w i bs
  | .appendCstr i cstr => LeavesRoom w i (cstr.takeWhile (· ≠ 0))
  | .clear _ => True
  | .move _ _ => True

instance (w : ℕ → Option Slot) (i : ℕ) (bs : List UInt8) : Decidable (WithinLimit w i bs) :=
  inferInstanceAs (Decidable (∃ _ ∈ w i, _))

instance (w : ℕ → Option Slot) (i : ℕ) (bs : List UInt8) : Decidable (LeavesRoom w i bs) :=
  inferInstanceAs (Decidable (_ → _))

instance (w : ℕ → Option Slot) : (op : Op) → Decidable (Allowed w op)
  | .new _ _ => isTrue trivial
  | .append i bs => inferInstanceAs (Decidable (WithinLimit w i bs))
  | .appendCstr i cstr => inferInstanceAs (Decidable (WithinLimit w i (cstr.takeWhile (· ≠ 0))))
  | .clear _ => inferInstanceAs (Decidable (_ = true))
  | .move _ _ => inferInstanceAs (Decidable (_ ∧ _))

instance (w : ℕ → Option Slot) : (op : Op) → Decidable (KeepsNul w op)
  | .new _ _ => inferInstanceAs (Decidable (_ = (0 : UInt8)))
  | .append i bs => inferInstanceAs (Decidable (LeavesRoom w i bs))
  | .appendCstr i cstr => inferInstanceAs (Decidable (LeavesRoom w i (cstr.takeWhile (· ≠ 0))))
  | .clear _ => isTrue trivial
  | .move _ _ => isTrue trivial

/-- Every buffer has the property. -/
def Every (P : Slot → Prop) (w : ℕ → Option Slot) : Prop := ∀ i s, w i = some s → P s

private theorem every_none (P : Slot → Prop) : Every P fun _ => none := by
  intro i s h
  cases h

private theorem every_update {P : Slot → Prop} {w : ℕ → Option Slot} (h : Every P w) (i : ℕ)
    (s : Slot) :
    Every P (Function.update w i (some s)) ↔ P s := by
  constructor
  · intro hall
    exact hall i s (by simp)
  · intro hs k t hk
    rcases eq_or_ne k i with rfl | hne
    · rw [Function.update_self] at hk
      cases hk
      exact hs
    · rw [Function.update_of_ne hne] at hk
      exact h k t hk

private theorem slot_eq {w : ℕ → Option Slot} {i : ℕ} {s : Slot} (h : w i = some s) :
    slot w i = .ok s := by
  rw [slot, h]

/-- An append of any bytes to one of the buffers. -/
theorem step_append {w : ℕ → Option Slot} {i : ℕ} {bs : List UInt8} (h : Every Slot.Inv w)
    (hal : WithinLimit w i bs) :
    ∃ w', (do return Function.update w i (some (← (← slot w i).append bs))) =
        (.ok w' : Except Abort _) ∧ Every Slot.Inv w' ∧
      (Every Slot.Terminated w → (Every Slot.Terminated w' ↔ LeavesRoom w i bs)) := by
  obtain ⟨s, hs, hfit⟩ := hal
  have hs : w i = some s := hs
  rw [slot_eq hs]
  by_cases hbs : bs = []
  · subst hbs
    rw [Except.ok_bind, Slot.append_nil]
    refine ⟨_, rfl, (every_update h i s).mpr (h i s hs), fun ht => ?_⟩
    exact iff_of_true ((every_update ht i s).mpr (ht i s hs)) fun h => absurd rfl h
  · obtain ⟨s', heq, hinv, hiff⟩ := Slot.append_spec (h i s hs) hbs hfit
    rw [Except.ok_bind, heq]
    refine ⟨_, rfl, (every_update h i s').mpr hinv, fun ht => ?_⟩
    rw [every_update ht, hiff]
    constructor
    · intro hlt _ t ht
      cases hs.symm.trans ht
      exact hlt
    · exact fun hroom => hroom hbs s hs

/-- An allowed operation goes through, and leaves every buffer terminated exactly if it keeps the
NUL in its place. -/
theorem step_spec {w : ℕ → Option Slot} {op : Op} (h : Every Slot.Inv w) (hal : Allowed w op) :
    ∃ w', step w op = .ok w' ∧ Every Slot.Inv w' ∧
      (Every Slot.Terminated w → (Every Slot.Terminated w' ↔ KeepsNul w op)) := by
  cases op with
  | new i junk =>
    refine ⟨_, rfl, (every_update h i _).mpr (Slot.new_inv junk), fun ht => ?_⟩
    exact (every_update ht i _).trans (Slot.new_terminated_iff junk)
  | append i bs => exact step_append h hal
  | appendCstr i cstr => exact step_append h hal
  | clear i =>
    obtain ⟨s, hs⟩ := Option.isSome_iff_exists.mp hal
    refine ⟨Function.update w i (some s.clear), ?_, ?_, fun ht => iff_of_true ?_ trivial⟩
    · simp only [step, slot_eq hs]
      rfl
    · exact (every_update h i _).mpr (Slot.clear_inv (h i s hs))
    · exact (every_update ht i _).mpr ((ht i s hs).clear (h i s hs))
  | move dest src =>
    obtain ⟨d, hd⟩ := Option.isSome_iff_exists.mp hal.1
    obtain ⟨s, hs⟩ := Option.isSome_iff_exists.mp hal.2
    obtain ⟨hinv₁, hinv₂⟩ := Slot.move_inv (h dest d hd) (h src s hs)
    refine ⟨Function.update (Function.update w dest (some (d.move s).1)) src
      (some (d.move s).2), ?_, ?_, fun ht => iff_of_true ?_ trivial⟩
    · simp only [step, slot_eq hd, slot_eq hs]
      rfl
    · exact (every_update ((every_update h dest _).mpr hinv₁) src _).mpr hinv₂
    · obtain ⟨ht₁, ht₂⟩ := (ht dest d hd).move (h dest d hd) (ht src s hs)
      exact (every_update ((every_update ht dest _).mpr ht₁) src _).mpr ht₂

/-- Over any allowed operations on any number of buffers, all go through and every buffer is
terminated in every state, exactly if every new block starts with a NUL and no append takes a
buffer to twice its capacity or to the limit. -/
theorem terminated_iff_keepsNul (ops : List Op)
    (hal : Machine.Along step Allowed (fun _ => none) ops) :
    ((∃ w, Machine.run step (fun _ => none) ops = .ok w) ∧
      Machine.Always step (Every Slot.Terminated) (fun _ => none) ops) ↔
      Machine.Along step KeepsNul (fun _ => none) ops := by
  refine Machine.run_ok_always_iff_along_of (fun w op w' h hf hs => ?_) (fun w op h hf ht => ?_)
    (every_none Slot.Inv) (every_none Slot.Terminated) hal
  · obtain ⟨_, hs', hinv, -⟩ := step_spec h hf
    cases hs'.symm.trans hs
    exact hinv
  · obtain ⟨w', hs, -, hiff⟩ := step_spec h hf
    rw [hs]
    simpa using hiff ht

/-- Two buffers, one of them moved to the other and then cleared and used again. -/
theorem terminated_of_move :
    Machine.Always step (Every Slot.Terminated) (fun _ => none)
      [.new 0 fun _ => 0, .new 1 fun _ => 0, .append 0 [97, 98], .move 1 0, .append 1 [99],
        .clear 1, .appendCstr 0 [100, 0, 101]] :=
  ((terminated_iff_keepsNul _ (by decide)).mpr (by decide)).2

/-- A fresh buffer that gets twice its capacity at once has no room for the NUL. -/
theorem not_terminated_of_length (junk : ByteMemory) {bs : List UInt8}
    (hlen : bs.length = 2 * minSize) :
    ¬ Machine.Always step (Every Slot.Terminated) (fun _ => none)
      [.new 0 junk, .append 0 bs] := by
  intro h
  have hne : bs ≠ [] := by
    rintro rfl
    exact absurd hlen (by decide)
  have hsum : (Slot.new junk).cbuf.mLength + bs.length = 2 * minSize :=
    (Nat.zero_add _).trans hlen
  obtain ⟨s, hs, -, hiff⟩ := Slot.append_spec (Slot.new_inv junk) hne (hsum ▸ by decide)
  have hrun : Machine.run step (fun _ => none) [.new 0 junk, .append 0 bs] =
      .ok (Function.update (Function.update (fun _ => none) 0 (some (Slot.new junk))) 0
        (some s)) := by
    simp only [Machine.run, step, slot, Function.update_self, Except.ok_bind, hs]
    rfl
  have hlt := hiff.mp (h.last hrun 0 s (Function.update_self ..))
  rw [hsum] at hlt
  exact absurd (Nat.lt_of_lt_of_le hlt (Nat.min_le_right _ _)) (Nat.lt_irrefl _)

/-- A fresh buffer whose memory does not start with a NUL, and one that gets 512 bytes at once:
the block has 512 bytes then, and the NUL goes after it. -/
theorem not_terminated_new_append :
    (¬ Machine.Always step (Every Slot.Terminated) (fun _ => none) [.new 0 fun _ => 43]) ∧
      Machine.Along step Allowed (fun _ => none)
        [.new 0 fun _ => 0, .append 0 (List.replicate 512 97)] ∧
      ¬ Machine.Always step (Every Slot.Terminated) (fun _ => none)
        [.new 0 fun _ => 0, .append 0 (List.replicate 512 97)] := by
  refine ⟨fun h => ?_, by decide +kernel, not_terminated_of_length _ List.length_replicate⟩
  have hnul : (43 : UInt8) = 0 := (h.last rfl 0 _ rfl).nul
  exact absurd hnul (by decide)

end Cbuffer

end CHttp
