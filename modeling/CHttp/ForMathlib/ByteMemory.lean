import Mathlib.Data.List.Basic
import Mathlib.Data.List.TakeWhile

/-!
# Byte memory

A block of memory as the function from offsets to bytes, with the two ways a C program
writes it — a `memcpy` (`blit`) and a single store (`put`) — and the two ways it reads it:
a counted read (`read`) and a NUL-terminated one (`cstr`); `strncmp` compares two blocks.
Bytes that were never written keep whatever the function held before, so uninitialised
memory is an arbitrary function and nothing has to be said about how large the block is; a
block's bound is a number the program keeps beside it.
-/

/-- The contents of memory from a block's first byte on. -/
def ByteMemory : Type := ℕ → UInt8

namespace ByteMemory

/-- `n` bytes from offset `off`. -/
def read (m : ByteMemory) (off n : ℕ) : List UInt8 :=
  (List.range n).map fun i => m (off + i)

/-- `memcpy(m + off, bs, bs.length)`. -/
def blit (m : ByteMemory) (off : ℕ) (bs : List UInt8) : ByteMemory := fun i =>
  if off ≤ i ∧ i < off + bs.length then bs.getD (i - off) 0 else m i

/-- `m[i] = b`. -/
def put (m : ByteMemory) (i : ℕ) (b : UInt8) : ByteMemory := fun j =>
  if j = i then b else m j

/-- The C string that starts at the block's first byte, looked for in its first `n`
bytes: what `strlen`, `strcmp` and `%s` see. -/
def cstr (m : ByteMemory) (n : ℕ) : List UInt8 := (m.read 0 n).takeWhile (· ≠ 0)

/-- `strncmp(m + off, m' + off', n) == 0`: the comparison ends at a NUL. -/
def strncmpEq (m : ByteMemory) (off : ℕ) (m' : ByteMemory) (off' : ℕ) : ℕ → Bool
  | 0 => true
  | n + 1 => m off = m' off' && (m off = 0 || strncmpEq m (off + 1) m' (off' + 1) n)

variable (m : ByteMemory)

@[simp]
theorem length_read (off n : ℕ) : (m.read off n).length = n := by
  simp [read]

@[simp]
theorem read_zero (off : ℕ) : m.read off 0 = [] := rfl

theorem getD_read (off : ℕ) {n i : ℕ} (h : i < n) : (m.read off n).getD i 0 = m (off + i) := by
  simp [read, h]

/-- A counted read splits at any point. -/
theorem read_add (off a b : ℕ) :
    m.read off (a + b) = m.read off a ++ m.read (off + a) b := by
  simp only [read, List.range_add, List.map_append, List.map_map]
  congr 1
  refine List.map_congr_left fun i _ => ?_
  simp [Nat.add_assoc]

theorem read_succ (off n : ℕ) : m.read off (n + 1) = m off :: m.read (off + 1) n := by
  rw [Nat.add_comm n 1, read_add]
  simp [read]

/-- Two memories that agree on a range read alike there. -/
theorem read_congr {m m' : ByteMemory} {off n : ℕ}
    (h : ∀ i, off ≤ i → i < off + n → m i = m' i) : m.read off n = m'.read off n := by
  refine List.map_congr_left fun i hi => h _ (Nat.le_add_right _ _) ?_
  have := List.mem_range.mp hi
  omega

theorem blit_of_notMem {off i : ℕ} {bs : List UInt8} (h : i < off ∨ off + bs.length ≤ i) :
    m.blit off bs i = m i := by
  rw [blit, if_neg (by omega)]

/-- The first bytes that `memcpy` wrote are read back. -/
theorem read_blit_take (off : ℕ) {n : ℕ} {bs : List UInt8} (h : n ≤ bs.length) :
    (m.blit off bs).read off n = bs.take n := by
  refine List.ext_getElem (by simp [h]) fun i h1 h2 => ?_
  have hi : i < bs.length := (by simpa using h1 : i < n).trans_le h
  simp [read, blit, hi]

/-- `memcpy` leaves the bytes before it alone. -/
theorem read_blit_of_le {off off' n : ℕ} {bs : List UInt8} (h : off' + n ≤ off) :
    (m.blit off bs).read off' n = m.read off' n :=
  read_congr fun _ _ hi => m.blit_of_notMem (Or.inl (by omega))

@[simp]
theorem put_self (i : ℕ) (b : UInt8) : m.put i b i = b := by
  simp [put]

theorem put_of_ne {i j : ℕ} (b : UInt8) (h : j ≠ i) : m.put i b j = m j := by
  simp [put, h]

/-- A store outside the range read is not seen. -/
theorem read_put_of_notMem {i off n : ℕ} {b : UInt8} (h : i < off ∨ off + n ≤ i) :
    (m.put i b).read off n = m.read off n :=
  read_congr fun j _ _ => m.put_of_ne b (by omega)

/-- A store seen by a counted read. -/
theorem read_put (i off n : ℕ) (b : UInt8) :
    (m.put i b).read off n = if off ≤ i then (m.read off n).set (i - off) b else m.read off n := by
  split
  · rename_i hle
    refine List.ext_getElem (by simp) fun j h1 h2 => ?_
    have hiff : off + j = i ↔ i - off = j := by omega
    simp [read, put, List.getElem_set, hiff]
  · exact m.read_put_of_notMem (Or.inl (by omega))

/-- Appending at the end of a range, and reading some of the new bytes. -/
theorem read_blit_append_take (off n : ℕ) {k : ℕ} {bs : List UInt8} (h : k ≤ bs.length) :
    (m.blit (off + n) bs).read off (n + k) = m.read off n ++ bs.take k := by
  rw [read_add, read_blit_of_le _ (Nat.le_refl _), read_blit_take _ _ h]

/-- Appending at the end of a range: the old bytes, then the new ones. -/
theorem read_blit_append (off n : ℕ) (bs : List UInt8) :
    (m.blit (off + n) bs).read off (n + bs.length) = m.read off n ++ bs := by
  rw [read_blit_append_take _ _ _ (Nat.le_refl _), List.take_length]

/-- A NUL right after the first `n` bytes ends the C string there at the latest, however
far the search is allowed to run. -/
theorem cstr_eq_takeWhile {n k : ℕ} (h0 : m n = 0) (hnk : n ≤ k) :
    m.cstr k = (m.read 0 n).takeWhile (· ≠ 0) := by
  obtain ⟨d, rfl⟩ := Nat.exists_eq_add_of_le hnk
  rcases d with _ | d
  · rfl
  · have hsplit : m.read 0 (n + (d + 1)) = m.read 0 n ++ 0 :: m.read (n + 1) d := by
      rw [read_add, Nat.add_comm d 1, read_add]
      simp [read, h0]
    rw [cstr, hsplit, List.takeWhile_append]
    split
    · rename_i hall
      rw [(List.takeWhile_prefix _).eq_of_length hall]
      simp
    · rfl

/-- `strncmp` finds two ranges equal when they are, and when they agree up to and including a
NUL. -/
theorem strncmpEq_iff (m' : ByteMemory) (off off' n : ℕ) :
    strncmpEq m off m' off' n ↔ m.read off n = m'.read off' n ∨
      ∃ p, p ++ [0] <+: m.read off n ∧ p ++ [0] <+: m'.read off' n := by
  induction n generalizing off off' with
  | zero => simp [strncmpEq]
  | succ n ih =>
    rw [read_succ, read_succ, strncmpEq, Bool.and_eq_true, Bool.or_eq_true, ih,
      decide_eq_true_eq, decide_eq_true_eq, List.cons.injEq]
    constructor
    · rintro ⟨heq, h0 | hread | ⟨p, hp, hp'⟩⟩
      · exact Or.inr ⟨[], by simp [h0], by simp [← heq, h0]⟩
      · exact Or.inl ⟨heq, hread⟩
      · exact Or.inr ⟨m off :: p, by simpa using hp, by simpa [heq] using hp'⟩
    · rintro (⟨heq, hread⟩ | ⟨p, hp, hp'⟩)
      · exact ⟨heq, Or.inr (Or.inl hread)⟩
      · cases p with
        | nil =>
          have h0 : 0 = m off := (List.cons_prefix_cons.mp hp).1
          have h0' : 0 = m' off' := (List.cons_prefix_cons.mp hp').1
          exact ⟨h0.symm.trans h0', Or.inl h0.symm⟩
        | cons b p =>
          obtain ⟨hb, hp⟩ := List.cons_prefix_cons.mp hp
          obtain ⟨hb', hp'⟩ := List.cons_prefix_cons.mp hp'
          exact ⟨hb.symm.trans hb', Or.inr (Or.inr ⟨p, hp, hp'⟩)⟩

end ByteMemory
