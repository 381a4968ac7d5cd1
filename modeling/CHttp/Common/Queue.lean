import CHttp.Abort
import CHttp.ForMathlib.CyclicWindow
import CHttp.ForMathlib.Except
import CHttp.ForMathlib.Machine

/-!
# The bounded queue of accepted sockets

`queue.c`: a ring of socket descriptors shared by the listening thread and the workers, guarded
by one mutex and two condition variables. `first` and `next` are equal both when the ring is
empty and when it is full; `size`, updated after the indices, tells the two apart.

A thread runs from the lock (or from its return from `pthread_cond_wait`) to the unlock (or to
its next wait) under the mutex, so these sections are the atomic steps of the machine `step`,
and a list of actions is an interleaving of any number of threads. A sleeping thread may be
woken at any time, signalled or not: its loop tests the condition again.
-/

namespace CHttp

/-- `uint32_t` arithmetic. -/
def u32 (n : ℕ) : ℕ := n % 2 ^ 32

private theorem u32_of_lt {n : ℕ} (h : n < 2 ^ 32) : u32 n = n := Nat.mod_eq_of_lt h

/-- `QUEUE_DEFAULT_SIZE`. -/
def queueDefaultSize : ℕ := 10000

/-- `struct Queue_s`, less its mutex and condition variables. -/
structure Queue (SocketFD : Type) where
  q : ℕ → SocketFD
  size : ℕ
  maxSize : ℕ
  next : ℕ
  first : ℕ
  full : Bool

namespace Queue

variable {SocketFD : Type}

/-- `q_size`. -/
def qSize (q : Queue SocketFD) : ℕ :=
  if q.first ≤ q.next then q.next - q.first
  else u32 (u32 (q.next + q.maxSize) + 2 ^ 32 - q.first)

/-- `is_full`. -/
def isFull (q : Queue SocketFD) : Bool := q.first = q.next ∧ 0 < q.size

/-- `is_empty`. -/
def isEmpty (q : Queue SocketFD) : Bool := q.first = q.next ∧ q.size = 0

/-- `advance_next_pointer`. -/
def advanceNextPointer (q : Queue SocketFD) : Except Abort (Queue SocketFD) := do
  assertThat (!q.isFull) "advance_next_pointer" "!is_full(q)"
  let q := { q with next := u32 (q.next + 1) % q.maxSize }
  return { q with full := q.isFull }

/-- `advance_first_pointer`. -/
def advanceFirstPointer (q : Queue SocketFD) : Except Abort (Queue SocketFD) := do
  assertThat (!q.isEmpty) "advance_first_pointer" "!is_empty(q)"
  let q := { q with first := u32 (q.first + 1) % q.maxSize }
  return { q with full := q.isFull }

/-- `Queue_new_with_capacity`: the `size_t` argument is stored in a `uint32_t`. `junk` is what
the fresh array holds. -/
def newWithCapacity (capacity : ℕ) (junk : ℕ → SocketFD) : Queue SocketFD :=
  { q := junk, size := 0, maxSize := u32 capacity, next := 0, first := 0, full := false }

/-- `Queue_new`. -/
def new (junk : ℕ → SocketFD) : Queue SocketFD := newWithCapacity queueDefaultSize junk

/-- `Queue_capacity`. -/
def capacity (q : Queue SocketFD) : ℕ := q.maxSize

/-- What follows the waiting loop of `Queue_add`; the flag says whether `not_empty_cv` is
broadcast. -/
def addRest (q : Queue SocketFD) (sock : SocketFD) : Except Abort (Queue SocketFD × Bool) := do
  let q ← advanceNextPointer { q with q := Function.update q.q q.next sock }
  let q := { q with size := u32 (q.size + 1) }
  return (q, q.size = 1)

/-- What follows the waiting loop of `Queue_remove`; the flag says whether `not_full_cv` is
broadcast. -/
def removeRest (q : Queue SocketFD) : Except Abort (SocketFD × Queue SocketFD × Bool) := do
  let r := q.q q.first
  let q ← advanceFirstPointer q
  let q := { q with size := u32 (q.size + 2 ^ 32 - 1) }
  return (r, q, q.size < q.maxSize)

/-! ### The ring as a list -/

/-- The entries held, oldest first. -/
def contents (q : Queue SocketFD) : List SocketFD :=
  Cyclic.window q.q q.maxSize q.first q.size

/-- Both indices are on the ring, `size` entries apart. -/
structure Valid (q : Queue SocketFD) : Prop where
  maxSize_lt : q.maxSize < 2 ^ 32
  first_lt : q.first < q.maxSize
  next_lt : q.next < q.maxSize
  size_le : q.size ≤ q.maxSize
  next_eq : q.next = (q.first + q.size) % q.maxSize

@[simp]
theorem length_contents (q : Queue SocketFD) : q.contents.length = q.size := by
  simp [contents]

/-- The two cases of the distance from `first` to `next`. -/
theorem Valid.next_cases {q : Queue SocketFD} (h : q.Valid) :
    q.first + q.size < q.maxSize ∧ q.next = q.first + q.size ∨
      q.maxSize ≤ q.first + q.size ∧ q.next + q.maxSize = q.first + q.size := by
  have hnext := h.next_eq
  have hfirst := h.first_lt
  have hsize := h.size_le
  rcases Nat.lt_or_ge (q.first + q.size) q.maxSize with hlt | hge
  · rw [Nat.mod_eq_of_lt hlt] at hnext
    exact Or.inl ⟨hlt, hnext⟩
  · rw [Nat.mod_eq_sub_mod hge, Nat.mod_eq_of_lt (by omega)] at hnext
    exact Or.inr ⟨hge, by omega⟩

/-- The code's test for a full ring is the comparison its callers make. -/
theorem Valid.isFull_iff {q : Queue SocketFD} (h : q.Valid) : q.isFull ↔ q.size = q.maxSize := by
  have hfirst := h.first_lt
  have hsize := h.size_le
  simp only [isFull, decide_eq_true_eq]
  rcases h.next_cases with ⟨hlt, hn⟩ | ⟨hge, hn⟩ <;> omega

/-- An empty ring is one of size zero. -/
theorem Valid.isEmpty_iff {q : Queue SocketFD} (h : q.Valid) : q.isEmpty ↔ q.size = 0 := by
  have hfirst := h.first_lt
  simp only [isEmpty, decide_eq_true_eq]
  rcases h.next_cases with ⟨hlt, hn⟩ | ⟨hge, hn⟩ <;> omega

/-- `size` is the distance `q_size` measures between the indices, a full ring apart, where the
indices meet again. -/
theorem Valid.size_eq {q : Queue SocketFD} (h : q.Valid) :
    q.size = if q.isFull then q.maxSize else q.qSize := by
  have hmax := h.maxSize_lt
  have hfirst := h.first_lt
  have hsize := h.size_le
  by_cases hfull : q.isFull
  · rw [if_pos hfull, (h.isFull_iff).mp hfull]
  · rw [if_neg hfull]
    have hne : q.size ≠ q.maxSize := fun he => hfull (h.isFull_iff.mpr he)
    unfold qSize u32
    rcases h.next_cases with ⟨hlt, hn⟩ | ⟨hge, hn⟩
    · rw [if_pos (by omega)]
      omega
    · rw [if_neg (by omega)]
      omega

theorem newWithCapacity_valid (capacity : ℕ) (junk : ℕ → SocketFD)
    (h : 1 ≤ (newWithCapacity capacity junk).capacity) : (newWithCapacity capacity junk).Valid :=
  ⟨Nat.mod_lt _ (by decide), h, h, Nat.zero_le _, (Nat.zero_mod _).symm⟩

/-- Adding to a queue that is not full appends the socket. -/
theorem addRest_spec {q : Queue SocketFD} (h : q.Valid) (sock : SocketFD)
    (hroom : q.size ≠ q.maxSize) :
    ∃ q', q.addRest sock = .ok (q', decide (q'.size = 1)) ∧ q'.Valid ∧
      q'.maxSize = q.maxSize ∧ q'.size = q.size + 1 ∧ q'.contents = q.contents ++ [sock] := by
  have hmax := h.maxSize_lt
  have hsize := h.size_le
  have hnext := h.next_lt
  have hfull : q.isFull = false := by
    rw [Bool.eq_false_iff]
    exact fun hf => hroom (h.isFull_iff.mp hf)
  have hnext' : u32 (q.next + 1) % q.maxSize = (q.next + 1) % q.maxSize := by
    rw [u32_of_lt (by omega)]
  have hsize' : u32 (q.size + 1) = q.size + 1 := u32_of_lt (by omega)
  refine ⟨{ q with
      q := Function.update q.q q.next sock
      next := (q.next + 1) % q.maxSize
      size := q.size + 1
      full := decide (q.first = (q.next + 1) % q.maxSize ∧ 0 < q.size) }, ?_, ?_, rfl, rfl, ?_⟩
  · have hadv : advanceNextPointer { q with q := Function.update q.q q.next sock } = .ok { q with
        q := Function.update q.q q.next sock
        next := (q.next + 1) % q.maxSize
        full := decide (q.first = (q.next + 1) % q.maxSize ∧ 0 < q.size) } := by
      have hf : isFull { q with q := Function.update q.q q.next sock } = false := hfull
      simp only [advanceNextPointer, hf, Bool.not_false, assertThat_true, Except.ok_bind, hnext']
      rfl
    simp only [addRest, hadv, Except.ok_bind, hsize']
    rfl
  · refine ⟨hmax, h.first_lt, Nat.mod_lt _ (by omega), by change q.size + 1 ≤ q.maxSize; omega, ?_⟩
    change (q.next + 1) % q.maxSize = (q.first + (q.size + 1)) % q.maxSize
    rw [h.next_eq, Nat.mod_add_mod, Nat.add_assoc]
  · change Cyclic.window (Function.update q.q q.next sock) q.maxSize q.first (q.size + 1) = _
    rw [h.next_eq, Cyclic.window_push _ _ _ _ _ (by omega)]
    rfl

/-- Removing from a queue that is not empty takes the oldest socket. -/
theorem removeRest_spec {q : Queue SocketFD} (h : q.Valid) {r : SocketFD} {rest : List SocketFD}
    (hq : q.contents = r :: rest) :
    ∃ q', q.removeRest = .ok (r, q', true) ∧ q'.Valid ∧ q'.maxSize = q.maxSize ∧
      q'.size + 1 = q.size ∧ q'.contents = rest := by
  have hmax := h.maxSize_lt
  have hsize := h.size_le
  have hfirst := h.first_lt
  have hlen : q.size = rest.length + 1 := by
    rw [← length_contents, hq, List.length_cons]
  have hempty : q.isEmpty = false := by
    rw [Bool.eq_false_iff]
    intro he
    have h0 := h.isEmpty_iff.mp he
    omega
  have hfirst' : u32 (q.first + 1) % q.maxSize = (q.first + 1) % q.maxSize := by
    rw [u32_of_lt (by omega)]
  have hsize' : u32 (q.size + 2 ^ 32 - 1) = rest.length := by
    rw [u32]
    omega
  rw [contents, hlen, Cyclic.window_pop, Nat.mod_eq_of_lt hfirst] at hq
  injection hq with hr hrest
  refine ⟨{ q with
      first := (q.first + 1) % q.maxSize
      size := rest.length
      full := decide ((q.first + 1) % q.maxSize = q.next ∧ 0 < q.size) }, ?_, ?_, rfl, hlen.symm, ?_⟩
  · have hadv : q.advanceFirstPointer = .ok { q with
        first := (q.first + 1) % q.maxSize
        full := decide ((q.first + 1) % q.maxSize = q.next ∧ 0 < q.size) } := by
      simp only [advanceFirstPointer, hempty, Bool.not_false, assertThat_true, Except.ok_bind,
        hfirst']
      rfl
    have hlt : rest.length < q.maxSize := by omega
    simp only [removeRest, hadv, Except.ok_bind, hsize', hlt, hr, decide_true]
    rfl
  · refine ⟨hmax, Nat.mod_lt _ (by omega), h.next_lt, by change rest.length ≤ q.maxSize; omega, ?_⟩
    change q.next = ((q.first + 1) % q.maxSize + rest.length) % q.maxSize
    rw [h.next_eq, Nat.mod_add_mod, hlen, Nat.add_assoc, Nat.add_comm 1]
  · change Cyclic.window q.q q.maxSize ((q.first + 1) % q.maxSize) rest.length = rest
    rw [Cyclic.window_mod]
    exact hrest

/-! ### The threads -/

/-- Where a thread stands: outside the queue's functions, or asleep in one of them on a condition
variable, with what it was called with and whether a broadcast has reached it since. -/
inductive Waiting (SocketFD : Type)
  | outside
  | notEmptyCv (signalled : Bool)
  | notFullCv (sock : SocketFD) (signalled : Bool)

namespace Waiting

/-- The socket a thread still has to store. -/
def pending : Waiting SocketFD → List SocketFD
  | .notFullCv sock _ => [sock]
  | _ => []

/-- What a broadcast on `not_empty_cv` does to a thread. -/
def signalNotEmpty : Waiting SocketFD → Waiting SocketFD
  | .notEmptyCv _ => .notEmptyCv true
  | state => state

/-- What a broadcast on `not_full_cv` does to a thread. -/
def signalNotFull : Waiting SocketFD → Waiting SocketFD
  | .notFullCv sock _ => .notFullCv sock true
  | state => state

@[simp]
theorem pending_outside : (outside : Waiting SocketFD).pending = [] := rfl

@[simp]
theorem pending_notEmptyCv (b : Bool) : (notEmptyCv b : Waiting SocketFD).pending = [] := rfl

@[simp]
theorem pending_notFullCv (sock : SocketFD) (b : Bool) :
    (notFullCv sock b : Waiting SocketFD).pending = [sock] := rfl

@[simp]
theorem pending_signalNotEmpty (s : Waiting SocketFD) : s.signalNotEmpty.pending = s.pending := by
  cases s <;> rfl

@[simp]
theorem pending_signalNotFull (s : Waiting SocketFD) : s.signalNotFull.pending = s.pending := by
  cases s <;> rfl

/-- A broadcast leaves nobody asleep unsignalled on its own condition variable. -/
theorem signalNotEmpty_ne (s : Waiting SocketFD) : s.signalNotEmpty ≠ .notEmptyCv false := by
  cases s <;> simp [signalNotEmpty]

private theorem signalNotFull_ne (s : Waiting SocketFD) (sock : SocketFD) :
    s.signalNotFull ≠ .notFullCv sock false := by
  cases s <;> simp [signalNotFull]

/-- A broadcast does not touch those asleep on the other one. -/
theorem of_signalNotEmpty {s : Waiting SocketFD} {sock : SocketFD} {b : Bool}
    (h : s.signalNotEmpty = .notFullCv sock b) : s = .notFullCv sock b := by
  cases s with
  | notEmptyCv b' => cases h
  | outside => exact h
  | notFullCv sock' b' => exact h

private theorem of_signalNotFull {s : Waiting SocketFD} {b : Bool}
    (h : s.signalNotFull = .notEmptyCv b) : s = .notEmptyCv b := by
  cases s with
  | notFullCv sock' b' => cases h
  | outside => exact h
  | notEmptyCv b' => exact h

end Waiting

/-- The queue and the threads that use it. `calls` and `added` record the calls of `Queue_add`
and the values they stored, `removed` what `Queue_remove` returned, each with its thread. -/
structure World (T SocketFD : Type) where
  queue : Queue SocketFD
  threads : T → Waiting SocketFD
  calls : List (T × SocketFD)
  added : List (T × SocketFD)
  removed : List (T × SocketFD)

namespace World

variable {T : Type} [DecidableEq T]

/-- `pthread_cond_broadcast(&not_empty_cv)`. -/
def broadcastNotEmpty (w : World T SocketFD) : World T SocketFD :=
  { w with threads := fun t => (w.threads t).signalNotEmpty }

/-- `pthread_cond_broadcast(&not_full_cv)`. -/
def broadcastNotFull (w : World T SocketFD) : World T SocketFD :=
  { w with threads := fun t => (w.threads t).signalNotFull }

/-- `Queue_add` from its loop test on: the thread goes to sleep on a full queue, else it stores
its socket and returns. -/
def add (w : World T SocketFD) (t : T) (sock : SocketFD) : Except Abort (World T SocketFD) :=
  if w.queue.size = w.queue.maxSize then
    .ok { w with threads := Function.update w.threads t (.notFullCv sock false) }
  else do
    let (queue, broadcast) ← w.queue.addRest sock
    let w := { w with
      queue
      threads := Function.update w.threads t .outside
      added := w.added ++ [(t, sock)] }
    return if broadcast then w.broadcastNotEmpty else w

/-- `Queue_remove` from its loop test on. -/
def remove (w : World T SocketFD) (t : T) : Except Abort (World T SocketFD) :=
  if w.queue.isEmpty then
    .ok { w with threads := Function.update w.threads t (.notEmptyCv false) }
  else do
    let (r, queue, broadcast) ← w.queue.removeRest
    let w := { w with
      queue
      threads := Function.update w.threads t .outside
      removed := w.removed ++ [(t, r)] }
    return if broadcast then w.broadcastNotFull else w

/-- What can happen next: a thread calls one of the two functions, or a sleeping thread gets the
mutex again, after a broadcast or spuriously. -/
inductive Act (T SocketFD : Type)
  | add (t : T) (sock : SocketFD)
  | remove (t : T)
  | wake (t : T)

/-- One section under the mutex. A thread that is asleep makes no calls, and one that is not
asleep is not woken. -/
def step (w : World T SocketFD) : Act T SocketFD → Except Abort (World T SocketFD)
  | .add t sock =>
    match w.threads t with
    | .outside => { w with calls := w.calls ++ [(t, sock)] }.add t sock
    | _ => .ok w
  | .remove t =>
    match w.threads t with
    | .outside => w.remove t
    | _ => .ok w
  | .wake t =>
    match w.threads t with
    | .outside => .ok w
    | .notEmptyCv _ => w.remove t
    | .notFullCv sock _ => w.add t sock

/-- Threads that have not touched the queue yet. -/
def start (queue : Queue SocketFD) : World T SocketFD :=
  { queue, threads := fun _ => .outside, calls := [], added := [], removed := [] }

/-! ### The invariant -/

/-- What thread `t` did, out of a history. -/
def byThread (t : T) (history : List (T × SocketFD)) : List SocketFD :=
  (history.filter fun x => x.1 = t).map Prod.snd

theorem byThread_concat (t t' : T) (history : List (T × SocketFD)) (sock : SocketFD) :
    byThread t (history ++ [(t', sock)]) =
      byThread t history ++ if t = t' then [sock] else [] := by
  by_cases ht : t = t'
  · simp [byThread, ht]
  · simp [byThread, ht, Ne.symm ht]

/-- What holds between any two sections: the ring is sound, the values stored are those removed
and then those held, and a thread asleep unsignalled has reason to be. -/
structure Inv (w : World T SocketFD) : Prop where
  valid : w.queue.Valid
  order : w.added.map Prod.snd = w.removed.map Prod.snd ++ w.queue.contents
  calls : ∀ t, byThread t w.calls = byThread t w.added ++ (w.threads t).pending
  notEmpty : ∀ t, w.threads t = .notEmptyCv false → w.queue.size = 0
  notFull : ∀ t sock, w.threads t = .notFullCv sock false → w.queue.size = w.queue.maxSize

theorem start_inv {queue : Queue SocketFD} (h : queue.Valid) (h0 : queue.size = 0) :
    (start queue : World T SocketFD).Inv where
  valid := h
  order := by simp [start, contents, h0]
  calls _ := rfl
  notEmpty _ ht := by cases ht
  notFull _ _ ht := by cases ht

/-- A thread whose state was not just set to another one was in the same state before. -/
theorem threads_of_update {threads : T → Waiting SocketFD} {t t' : T} {x y : Waiting SocketFD}
    (h : Function.update threads t x t' = y) (hne : x ≠ y) : threads t' = y := by
  by_cases heq : t' = t
  · subst heq
    rw [Function.update_self] at h
    exact absurd h hne
  · rwa [Function.update_of_ne heq] at h

/-- After a broadcast on `not_empty_cv` nobody sleeps on it unsignalled. -/
theorem inv_broadcastNotEmpty {w : World T SocketFD} (hv : w.queue.Valid)
    (ho : w.added.map Prod.snd = w.removed.map Prod.snd ++ w.queue.contents)
    (hc : ∀ t, byThread t w.calls = byThread t w.added ++ (w.threads t).pending)
    (hf : ∀ t sock, w.threads t ≠ .notFullCv sock false) : w.broadcastNotEmpty.Inv := by
  refine ⟨hv, ho, fun t => ?_, fun t ht => ?_, fun t sock ht => ?_⟩
  · rw [show (w.broadcastNotEmpty.threads t).pending = (w.threads t).pending from
      Waiting.pending_signalNotEmpty _]
    exact hc t
  · exact absurd ht (Waiting.signalNotEmpty_ne _)
  · exact absurd (Waiting.of_signalNotEmpty ht) (hf t sock)

/-- `Queue_add` by a thread whose only pending socket is the one it adds. -/
theorem add_spec {w : World T SocketFD} {t : T} {sock : SocketFD} (hv : w.queue.Valid)
    (ho : w.added.map Prod.snd = w.removed.map Prod.snd ++ w.queue.contents)
    (hc : ∀ t', byThread t' w.calls =
      byThread t' w.added ++ if t' = t then [sock] else (w.threads t').pending)
    (he : ∀ t', w.threads t' = .notEmptyCv false → w.queue.size = 0)
    (hf : ∀ t' sock', w.threads t' = .notFullCv sock' false → w.queue.size = w.queue.maxSize) :
    ∃ w', w.add t sock = .ok w' ∧ w'.Inv := by
  by_cases hfull : w.queue.size = w.queue.maxSize
  · refine ⟨_, if_pos hfull, hv, ho, fun t' => ?_, fun t' ht => ?_, fun _ _ _ => hfull⟩
    · rw [hc t']
      by_cases heq : t' = t
      · simp [heq]
      · simp [heq]
    · exact he t' (threads_of_update ht (by simp))
  · obtain ⟨q', hq', hv', hm', hs', hc'⟩ := addRest_spec hv sock hfull
    -- The world after the store, before any broadcast.
    set w₁ : World T SocketFD := { w with
      queue := q'
      threads := Function.update w.threads t .outside
      added := w.added ++ [(t, sock)] } with hw₁
    have hadd : w.add t sock = .ok (if q'.size = 1 then w₁.broadcastNotEmpty else w₁) := by
      simp only [add, if_neg hfull, hq', Except.ok_bind, decide_eq_true_eq]
      rfl
    have horder : w₁.added.map Prod.snd = w₁.removed.map Prod.snd ++ q'.contents := by
      simp only [hw₁, List.map_append, ho, hc', List.append_assoc]
      rfl
    have hcalls : ∀ t', byThread t' w₁.calls = byThread t' w₁.added ++ (w₁.threads t').pending := by
      intro t'
      simp only [hw₁, byThread_concat, hc t']
      by_cases heq : t' = t
      · simp [heq]
      · simp [heq]
    have hnotFull : ∀ t' sock', w₁.threads t' ≠ .notFullCv sock' false := fun t' sock' ht =>
      hfull (hf t' sock' (threads_of_update ht (by simp)))
    by_cases hone : q'.size = 1
    · rw [if_pos hone] at hadd
      exact ⟨_, hadd, inv_broadcastNotEmpty hv' horder hcalls hnotFull⟩
    · rw [if_neg hone] at hadd
      refine ⟨_, hadd, hv', horder, hcalls, fun t' ht => ?_, fun t' sock' ht => ?_⟩
      · -- The queue was not empty, so nobody slept unsignalled on `not_empty_cv`.
        have h0 := he t' (threads_of_update ht (by simp))
        omega
      · exact absurd ht (hnotFull t' sock')

/-- `Queue_remove` by a thread with no pending socket. -/
theorem remove_spec {w : World T SocketFD} {t : T} (h : w.Inv)
    (ht : (w.threads t).pending = []) : ∃ w', w.remove t = .ok w' ∧ w'.Inv := by
  by_cases hempty : w.queue.isEmpty
  · have hzero := h.valid.isEmpty_iff.mp hempty
    refine ⟨_, if_pos hempty, h.valid, h.order, fun t' => ?_, fun _ _ => hzero, fun t' sock hn => ?_⟩
    · rw [h.calls t']
      by_cases heq : t' = t
      · simp [heq, ht]
      · simp [heq]
    · exact h.notFull t' sock (threads_of_update hn (by simp))
  · have hpos : w.queue.size ≠ 0 := fun h0 => hempty (h.valid.isEmpty_iff.mpr h0)
    obtain ⟨r, rest, hcons⟩ : ∃ r rest, w.queue.contents = r :: rest := by
      refine List.exists_cons_of_ne_nil fun hnil => hpos ?_
      rw [← length_contents, hnil, List.length_nil]
    obtain ⟨q', hq', hv', hm', hs', hc'⟩ := removeRest_spec h.valid hcons
    refine ⟨broadcastNotFull { w with
        queue := q'
        threads := Function.update w.threads t .outside
        removed := w.removed ++ [(t, r)] }, ?_, hv', ?_, fun t' => ?_, fun t' hn => ?_,
      fun t' sock hn => ?_⟩
    · simp only [remove, if_neg hempty, hq', Except.ok_bind]
      rfl
    · change w.added.map Prod.snd = (w.removed ++ [(t, r)]).map Prod.snd ++ q'.contents
      rw [h.order, hcons, hc', List.map_append, List.append_assoc]
      rfl
    · change byThread t' w.calls = byThread t' w.added ++
        (Function.update w.threads t .outside t').signalNotFull.pending
      rw [Waiting.pending_signalNotFull, h.calls t']
      by_cases heq : t' = t
      · simp [heq, ht]
      · simp [heq]
    · -- The queue was not empty, so nobody slept unsignalled on `not_empty_cv`.
      have hn' : w.threads t' = .notEmptyCv false :=
        threads_of_update (Waiting.of_signalNotFull hn) (by simp)
      exact absurd (h.notEmpty t' hn') hpos
    · exact absurd hn (Waiting.signalNotFull_ne _ sock)

/-- **One section.** No assertion fails and the invariant is kept. -/
theorem step_spec {w : World T SocketFD} (h : w.Inv) (a : Act T SocketFD) :
    ∃ w', w.step a = .ok w' ∧ w'.Inv := by
  cases a with
  | add t sock =>
    cases ht : w.threads t with
    | outside =>
      simp only [step, ht]
      refine add_spec h.valid h.order (fun t' => ?_) h.notEmpty h.notFull
      simp only [byThread_concat, h.calls t']
      by_cases heq : t' = t
      · simp [heq, ht]
      · simp [heq]
    | notEmptyCv b => exact ⟨w, by simp only [step, ht], h⟩
    | notFullCv sock' b => exact ⟨w, by simp only [step, ht], h⟩
  | remove t =>
    cases ht : w.threads t with
    | outside =>
      simp only [step, ht]
      exact remove_spec h (by simp [ht])
    | notEmptyCv b => exact ⟨w, by simp only [step, ht], h⟩
    | notFullCv sock' b => exact ⟨w, by simp only [step, ht], h⟩
  | wake t =>
    cases ht : w.threads t with
    | outside => exact ⟨w, by simp only [step, ht], h⟩
    | notEmptyCv b =>
      simp only [step, ht]
      exact remove_spec h (by simp [ht])
    | notFullCv sock b =>
      simp only [step, ht]
      refine add_spec h.valid h.order (fun t' => ?_) h.notEmpty h.notFull
      rw [h.calls t']
      by_cases heq : t' = t
      · simp [heq, ht]
      · simp [heq]

/-! ### Every interleaving -/

/-- What the queue promises between any two sections. -/
structure Correct (w : World T SocketFD) : Prop where
  /-- What has been removed is, in order, what was added first; the rest is still held. -/
  order : w.added.map Prod.snd = w.removed.map Prod.snd ++ w.queue.contents
  /-- Each `Queue_add` stores its socket once, unless it is still waiting to do so. -/
  calls : ∀ t, byThread t w.calls = byThread t w.added ++ (w.threads t).pending
  /-- `size` counts the entries from `first` to `next`. -/
  size_eq : w.queue.size = if w.queue.isFull then w.queue.maxSize else w.queue.qSize
  next_eq : w.queue.next = (w.queue.first + w.queue.size) % w.queue.maxSize
  size_le : w.queue.size ≤ w.queue.maxSize
  first_lt : w.queue.first < w.queue.maxSize
  next_lt : w.queue.next < w.queue.maxSize
  /-- No wake-up is lost. -/
  notEmpty : ∀ t, w.threads t = .notEmptyCv false → w.queue.isEmpty
  notFull : ∀ t sock, w.threads t = .notFullCv sock false → w.queue.isFull

private theorem Inv.correct {w : World T SocketFD} (h : w.Inv) : w.Correct where
  order := h.order
  calls := h.calls
  size_eq := h.valid.size_eq
  next_eq := h.valid.next_eq
  size_le := h.valid.size_le
  first_lt := h.valid.first_lt
  next_lt := h.valid.next_lt
  notEmpty t ht := h.valid.isEmpty_iff.mpr (h.notEmpty t ht)
  notFull t sock ht := h.valid.isFull_iff.mpr (h.notFull t sock ht)

/-- **The bounded queue.** On a queue whose capacity is not zero, over every interleaving of any
number of threads' sections and waits, spurious wake-ups included, no assertion fails and every
state is correct. -/
theorem queue_correct (capacity : ℕ) (junk : ℕ → SocketFD)
    (h : 1 ≤ (newWithCapacity capacity junk).capacity) (as : List (Act T SocketFD)) :
    (∃ w, Machine.run step (start (newWithCapacity capacity junk)) as = .ok w) ∧
      Machine.Always step Correct (start (newWithCapacity capacity junk)) as := by
  have h0 : (start (newWithCapacity capacity junk) : World T SocketFD).Inv :=
    start_inv (newWithCapacity_valid capacity junk h) rfl
  have hrun := Machine.run_ok_always as (fun _ a hw => step_spec hw a) h0
  exact ⟨hrun.1, hrun.2.mono fun _ => Inv.correct⟩

/-- A queue of one entry, a consumer asleep before two producers call: the first one's broadcast
reaches the consumer, and the second one waits until the entry is taken. -/
theorem queue_correct_one :
    1 ≤ (newWithCapacity 1 fun _ => (0 : ℤ)).capacity ∧
      Machine.Always step Correct
        (start (newWithCapacity 1 fun _ => (0 : ℤ)) : World ℕ ℤ)
        [.remove 0, .add 1 7, .add 2 8, .wake 2, .wake 0, .wake 2] :=
  ⟨by decide, (queue_correct 1 (fun _ => 0) (by decide) _).2⟩

end World

end Queue

end CHttp
