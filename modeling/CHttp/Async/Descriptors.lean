import CHttp.ForMathlib.Machine
import CHttp.Runloop.FunctorList

/-!
# Descriptors and teardown

Which `close` hits which socket. The kernel keeps one table of descriptors for the process and
`accept` returns the lowest free number below the limit of the process; every reactor thread accepts
from the shared listening socket (`on_event_listening`) and tears its own connections down
(`async_connection_destroy`).
A teardown makes three system calls: `rtor_stream_deregister` takes the descriptor out of the
thread's `epoll` set, `rtor_stream_free` closes `stream->fd`, and `async_connection_close` closes
`cref->socket`, which is the same number. Between two system calls of one thread any other
thread may run.

`ClearAccept` is the condition under which no close goes astray: `accept` never hands out
the number of a connection that stands between its two closes. A single reactor thread meets it
always (`along_clearAccept_of_single`), since it does not accept in the middle of a teardown.
-/

namespace CHttp

namespace Descriptors

/-- What an open descriptor belongs to: the process (standard streams, the listening socket,
`epoll` sets) or a connection, given by its index. -/
inductive Owner
  | process
  | conn (i : ℕ)
  deriving DecidableEq, Repr

/-- How far `async_connection_destroy` has come. -/
inductive Teardown
  | live
  | deregistered
  | streamFreed
  | gone
  deriving DecidableEq, Repr

/-- An `AsyncConnection` as far as its descriptor goes: the thread of its reactor, the stream
watcher's `fd`, its own `socket`, and the state of its teardown. -/
structure Conn where
  thread : ℕ
  fd : ℕ
  socket : ℤ
  teardown : Teardown
  deriving DecidableEq, Repr

/-- One executed `close`: the connection being torn down, and what the number stood for. -/
structure CloseCall where
  caller : ℕ
  hit : Option Owner
  deriving DecidableEq, Repr

/-- The process: the kernel's table, each thread's `FdTable`, the connections accepted so far
and the closes executed by teardowns, oldest first. -/
structure Process where
  table : ℕ → Option Owner
  fdTable : ℕ → ℕ → Option ℕ
  conns : List Conn
  closes : List CloseCall

namespace Process

/-- A process that has the descriptors up to `reserved` open, the listening socket among
them. -/
def init (reserved : ℕ) : Process where
  table n := if n ≤ reserved then some .process else none
  fdTable _ _ := none
  conns := []
  closes := []

/-- The lowest free number among the `k` from `n` on. -/
def lowestFreeFrom (table : ℕ → Option Owner) : ℕ → ℕ → Option ℕ
  | 0, _ => none
  | k + 1, n => if (table n).isNone then some n else lowestFreeFrom table k (n + 1)

/-- The number `accept` returns; `limit` is the `RLIMIT_NOFILE` of the process. -/
def lowestFree (limit : ℕ) (p : Process) : Option ℕ := lowestFreeFrom p.table limit 0

/-- `close(n)` in the teardown of connection `i`; an `EBADF` is not looked at. -/
def close (p : Process) (i n : ℕ) : Process :=
  { p with
    table := Function.update p.table n none
    closes := p.closes ++ [⟨i, p.table n⟩] }

/-- Connection `i` as changed by its teardown. -/
def setConn (p : Process) (i : ℕ) (c : Conn) : Process := { p with conns := p.conns.set i c }

/-- Thread `t` is inside `async_connection_destroy`. -/
def busy (p : Process) (t : ℕ) : Bool :=
  p.conns.any fun c => c.thread = t ∧ (c.teardown = .deregistered ∨ c.teardown = .streamFreed)

/-- `FdTable_insert`, in the table of thread `t`. -/
def fdTableInsert (p : Process) (t fd watcher : ℕ) : Except Abort Process := do
  assertThat (fd < rtorFdtableMax) "FdTable_insert" "entries[fd] is past the end of the array"
  assertThat (p.fdTable t fd).isNone "FdTable_insert" "this->entries[fd] == NULL"
  return { p with
    fdTable := Function.update p.fdTable t (Function.update (p.fdTable t) fd (some watcher)) }

/-- `FdTable_remove`. -/
def fdTableRemove (p : Process) (t fd : ℕ) : Except Abort Process := do
  assertThat (p.fdTable t fd).isSome "FdTable_remove" "athis->entries[fd] != NULL"
  return { p with
    fdTable := Function.update p.fdTable t (Function.update (p.fdTable t) fd none) }

/-- `async_handler_new` on thread `t` as far as descriptors go: the new connection's stream
watcher is registered with the thread's reactor. `EPOLL_CTL_ADD` of a fresh descriptor
succeeds. -/
def asyncHandlerNew (p : Process) (t socket : ℕ) : Except Abort Process := do
  let p ← p.fdTableInsert t socket p.conns.length
  return { p with conns := p.conns ++ [⟨t, socket, socket, .live⟩] }

/-- `on_event_listening` on thread `t` with a connection waiting. -/
def onEventListening (limit : ℕ) (p : Process) (t : ℕ) : Except Abort Process :=
  match p.lowestFree limit with
  | none => .error ⟨"on_event_listening", "accept returns invalid socket"⟩
  | some sock2 => do
    assertThat (0 < sock2) "on_event_listening" "accept returns invalid socket"
    asyncHandlerNew
      { p with table := Function.update p.table sock2 (some (.conn p.conns.length)) } t sock2

/-- `EPOLL_CTL_DEL` finds the descriptor in the thread's `epoll` set: the number is open and
stands for a connection of that thread. -/
def epollKnows (p : Process) (t fd : ℕ) : Bool :=
  match p.table fd with
  | some (.conn i) => p.conns[i]?.any fun c => c.thread = t
  | _ => false

/-- `rtor_stream_deregister`, the first step of `async_connection_destroy`. -/
def rtorStreamDeregister (p : Process) (i : ℕ) (c : Conn) : Except Abort Process := do
  assertThat (p.fdTable c.thread c.fd).isSome "rtor_reactor_deregister" "fd not in FdTable"
  assertThat (p.epollKnows c.thread c.fd) "rtor_epoll_ctl" "epoll ctl call failed"
  let p ← p.fdTableRemove c.thread c.fd
  return p.setConn i { c with teardown := .deregistered }

/-- `rtor_stream_free`, the second step. -/
def rtorStreamFree (p : Process) (i : ℕ) (c : Conn) : Process :=
  (p.close i c.fd).setConn i { c with teardown := .streamFreed }

/-- `async_connection_close`. -/
def asyncConnectionClose (p : Process) (i : ℕ) (c : Conn) : Except Abort Process := do
  assertThat (0 < c.socket) "async_connection_close" "socket should be positive"
  return (p.close i c.socket.toNat).setConn i { c with socket := -1, teardown := .gone }

/-- The third step: `if(this->socket > 0) async_connection_close(this)`. -/
def closeIfOpen (p : Process) (i : ℕ) (c : Conn) : Except Abort Process :=
  if 0 < c.socket then p.asyncConnectionClose i c
  else .ok (p.setConn i { c with teardown := .gone })

/-- What can happen next: a thread accepts, or the teardown of connection `i` takes its next
system call (the first one when its peer closed or its reading or writing failed). -/
inductive Act
  | accept (t : ℕ)
  | destroy (i : ℕ)
  deriving DecidableEq, Repr

/-- One step. A thread accepts, or begins another teardown, only between teardowns. -/
def step (limit : ℕ) (p : Process) : Act → Except Abort Process
  | .accept t => if p.busy t then .ok p else p.onEventListening limit t
  | .destroy i =>
    match p.conns[i]? with
    | none => .ok p
    | some c =>
      match c.teardown with
      | .live => if p.busy c.thread then .ok p else p.rtorStreamDeregister i c
      | .deregistered => .ok (p.rtorStreamFree i c)
      | .streamFreed => p.closeIfOpen i c
      | .gone => .ok p

/-- The teardown has not come to its first close. -/
def holds (c : Conn) : Bool := c.teardown = .live ∨ c.teardown = .deregistered

/-! ### Ownership -/

/-- How often a `close` was applied to the socket of connection `i`. -/
def closedTimes (p : Process) (i : ℕ) : ℕ := p.closes.countP fun k => k.hit = some (.conn i)

/-- What teardown is meant to guarantee: no close applies to a descriptor of another
connection, and every socket is closed exactly once, by its own teardown: not before it, and by
the end of it. -/
structure Owned (p : Process) : Prop where
  own : ∀ k ∈ p.closes, ∀ o, k.hit = some o → o = .conn k.caller
  once : ∀ i c, p.conns[i]? = some c →
    (c.teardown = .live → p.closedTimes i = 0) ∧ p.closedTimes i ≤ 1 ∧
      (c.teardown = .gone → p.closedTimes i = 1)

/-- The condition on a step: the number `accept` is about to return is not the number of a
connection between its two closes. -/
def ClearAccept (limit : ℕ) (p : Process) : Act → Prop
  | .accept t => p.busy t = false → ∀ fd, p.lowestFree limit = some fd →
      ∀ c ∈ p.conns, c.teardown = .streamFreed → c.fd ≠ fd
  | .destroy _ => True

instance (limit : ℕ) (p : Process) : ∀ a, Decidable (p.ClearAccept limit a)
  | .accept t => inferInstanceAs (Decidable (p.busy t = false → ∀ fd ∈ p.lowestFree limit,
      ∀ c ∈ p.conns, c.teardown = .streamFreed → c.fd ≠ fd))
  | .destroy _ => isTrue trivial

/-! ### The invariant of clear runs -/

/-- What a run of clear accepts keeps: the kernel's table and the threads' tables list exactly
the connections that have not come to their first close, or been deregistered; the number of
a connection between its two closes is free; and each socket was closed as often as its
teardown says. -/
structure Inv (p : Process) : Prop where
  zero : p.table 0 = some .process
  table_iff : ∀ n i, p.table n = some (.conn i) ↔
    ∃ c, p.conns[i]? = some c ∧ c.fd = n ∧ holds c
  fdTable_iff : ∀ t n i, p.fdTable t n = some i ↔
    ∃ c, p.conns[i]? = some c ∧ c.thread = t ∧ c.fd = n ∧ c.teardown = .live
  fd_pos : ∀ (i : ℕ) (c : Conn), p.conns[i]? = some c → 0 < c.fd
  fd_lt : ∀ (i : ℕ) (c : Conn), p.conns[i]? = some c → c.fd < rtorFdtableMax
  socket : ∀ (i : ℕ) (c : Conn), p.conns[i]? = some c → c.teardown ≠ .gone → c.socket = c.fd
  freed : ∀ (i : ℕ) (c : Conn), p.conns[i]? = some c → c.teardown = .streamFreed →
    p.table c.fd = none
  closed : ∀ (i : ℕ) (c : Conn), p.conns[i]? = some c → p.closedTimes i = if holds c then 0 else 1
  fresh : ∀ i : ℕ, p.conns[i]? = none → p.closedTimes i = 0
  own : ∀ k ∈ p.closes, ∀ o, k.hit = some o → o = .conn k.caller

theorem init_inv (reserved : ℕ) : (init reserved).Inv := by
  refine ⟨rfl, fun n i => ?_, ?_, ?_, ?_, ?_, ?_, ?_, fun i _ => rfl, ?_⟩
  · simp only [init]
    split <;> simp
  all_goals simp [init]

theorem Inv.owned {p : Process} (h : p.Inv) : p.Owned := by
  refine ⟨h.own, fun i c hc => ?_⟩
  have hcl := h.closed i c hc
  refine ⟨fun ht => ?_, ?_, fun ht => ?_⟩
  · simpa [holds, ht] using hcl
  · rw [hcl]
    split <;> simp
  · simpa [holds, ht] using hcl

private theorem table_lowestFreeFrom {table : ℕ → Option Owner} {k n fd : ℕ}
    (h : lowestFreeFrom table k n = some fd) : table fd = none := by
  induction k generalizing n with
  | zero => cases h
  | succ k ih =>
    simp only [lowestFreeFrom] at h
    split at h
    · rename_i hfree
      cases h
      exact Option.isNone_iff_eq_none.mp hfree
    · exact ih h

private theorem lowestFreeFrom_lt {table : ℕ → Option Owner} {k n fd : ℕ}
    (h : lowestFreeFrom table k n = some fd) : fd < n + k := by
  induction k generalizing n with
  | zero => cases h
  | succ k ih =>
    simp only [lowestFreeFrom] at h
    split at h
    · cases h
      omega
    · have := ih h
      omega

variable {limit : ℕ}

/-- The number `accept` returns is free. -/
theorem table_lowestFree {p : Process} {fd : ℕ} (h : p.lowestFree limit = some fd) :
    p.table fd = none := table_lowestFreeFrom h

/-- And within the limit. -/
theorem lowestFree_lt {p : Process} {fd : ℕ} (h : p.lowestFree limit = some fd) : fd < limit := by
  have := lowestFreeFrom_lt h
  omega

/-- An index into the connections after one was added at the end. -/
theorem getElem?_append_singleton {l : List Conn} {d c : Conn} {i : ℕ} :
    (l ++ [d])[i]? = some c ↔ l[i]? = some c ∨ i = l.length ∧ c = d := by
  grind

private theorem exists_getElem?_append_singleton {l : List Conn} {d : Conn} {i : ℕ}
    {P : Conn → Prop} :
    (∃ c, (l ++ [d])[i]? = some c ∧ P c) ↔
      (∃ c, l[i]? = some c ∧ P c) ∨ i = l.length ∧ P d := by
  simp only [getElem?_append_singleton, or_and_right, exists_or, and_assoc, exists_and_left,
    exists_eq_left]

/-- An index into the connections after one was changed. -/
theorem getElem?_set_some {l : List Conn} {d c c₀ : Conn} {i k : ℕ} (hk : l[k]? = some c₀) :
    (l.set k d)[i]? = some c ↔ i = k ∧ c = d ∨ i ≠ k ∧ l[i]? = some c := by
  grind

private theorem exists_getElem?_set {l : List Conn} {d c₀ : Conn} {i k : ℕ} {P : Conn → Prop}
    (hk : l[k]? = some c₀) :
    (∃ c, (l.set k d)[i]? = some c ∧ P c) ↔
      i = k ∧ P d ∨ i ≠ k ∧ ∃ c, l[i]? = some c ∧ P c := by
  simp only [getElem?_set_some hk, or_and_right, exists_or, and_assoc, exists_and_left,
    exists_eq_left]

/-- The process after thread `t` accepted a connection with number `fd`. -/
def accepted (p : Process) (t fd : ℕ) : Process :=
  { p with
    table := Function.update p.table fd (some (.conn p.conns.length))
    fdTable := Function.update p.fdTable t
      (Function.update (p.fdTable t) fd (some p.conns.length))
    conns := p.conns ++ [⟨t, fd, fd, .live⟩] }

private theorem Inv.lowestFree_pos {p : Process} (h : p.Inv) {fd : ℕ}
    (hf : p.lowestFree limit = some fd) : 0 < fd := by
  rcases Nat.eq_zero_or_pos fd with rfl | hp
  · have := table_lowestFree hf
    rw [h.zero] at this
    cases this
  · exact hp

/-- A number free in the kernel's table is free in every thread's table. -/
theorem Inv.fdTable_eq_none {p : Process} (h : p.Inv) {fd : ℕ} (hfree : p.table fd = none)
    (t : ℕ) : p.fdTable t fd = none := by
  cases hs : p.fdTable t fd with
  | none => rfl
  | some i =>
    obtain ⟨c, hc, -, hn, hl⟩ := (h.fdTable_iff t fd i).mp hs
    have := (h.table_iff fd i).mpr ⟨c, hc, hn, by simp [holds, hl]⟩
    rw [hfree] at this
    cases this

private theorem onEventListening_eq {p : Process} (h : p.Inv) {fd : ℕ}
    (hf : p.lowestFree limit = some fd) (hlt : fd < rtorFdtableMax) (t : ℕ) :
    p.onEventListening limit t = .ok (p.accepted t fd) := by
  unfold onEventListening
  rw [hf]
  simp only [asyncHandlerNew, fdTableInsert, h.fdTable_eq_none (table_lowestFree hf) t,
    h.lowestFree_pos hf, hlt, decide_true, Option.isNone_none, assertThat_true]
  rfl

/-- The number has no entry in the reactor's table. -/
def pastTable : Abort := ⟨"FdTable_insert", "entries[fd] is past the end of the array"⟩

private theorem onEventListening_error {p : Process} (h : p.Inv) {fd : ℕ}
    (hf : p.lowestFree limit = some fd) (hge : ¬ fd < rtorFdtableMax) (t : ℕ) :
    p.onEventListening limit t = .error pastTable := by
  unfold onEventListening
  rw [hf]
  simp only [asyncHandlerNew, fdTableInsert, h.lowestFree_pos hf, hge, decide_true, decide_false,
    assertThat_true, assertThat_false]
  rfl

/-- A clear accept. -/
theorem accepted_inv {p : Process} (h : p.Inv) {fd : ℕ} (hf : p.lowestFree limit = some fd)
    (hlt : fd < rtorFdtableMax) (t : ℕ)
    (hclear : ∀ c ∈ p.conns, c.teardown = .streamFreed → c.fd ≠ fd) :
    (p.accepted t fd).Inv := by
  have hfree := table_lowestFree hf
  have hpos := h.lowestFree_pos hf
  have hslot := h.fdTable_eq_none hfree
  have hnew : p.closedTimes p.conns.length = 0 := h.fresh _ (by simp)
  refine ⟨?_, fun n j => ?_, fun t' n j => ?_, fun j c hc => ?_, fun j c hc => ?_,
    fun j c hc ht => ?_, fun j c hc ht => ?_, fun j c hc => ?_, fun j hj => ?_, h.own⟩
  · simp [accepted, hpos.ne, h.zero]
  · simp only [accepted, exists_getElem?_append_singleton, Function.update_apply, ← h.table_iff]
    by_cases hn : n = fd
    · simp [hn, hfree, holds, eq_comm]
    · simp [hn, Ne.symm hn]
  · simp only [accepted, exists_getElem?_append_singleton, ← h.fdTable_iff]
    by_cases ht : t' = t
    · by_cases hn : n = fd
      · simp [ht, hn, hslot, eq_comm]
      · simp [ht, hn, Ne.symm hn]
    · simp [ht, Ne.symm ht]
  · rcases getElem?_append_singleton.mp hc with hc | ⟨-, rfl⟩
    · exact h.fd_pos j c hc
    · exact hpos
  · rcases getElem?_append_singleton.mp hc with hc | ⟨-, rfl⟩
    · exact h.fd_lt j c hc
    · exact hlt
  · rcases getElem?_append_singleton.mp hc with hc | ⟨-, rfl⟩
    · exact h.socket j c hc ht
    · rfl
  · rcases getElem?_append_singleton.mp hc with hc | ⟨-, rfl⟩
    · -- clear: the number given out is not that of a connection between its closes
      have hne := hclear c (List.mem_of_getElem? hc) ht
      exact (Function.update_of_ne hne _ _).trans (h.freed j c hc ht)
    · cases ht
  · rcases getElem?_append_singleton.mp hc with hc | ⟨rfl, rfl⟩
    · exact h.closed j c hc
    · exact hnew
  · have hj' : p.conns[j]? = none := by
      simp only [accepted, List.getElem?_eq_none_iff, List.length_append] at hj ⊢
      omega
    exact h.fresh j hj'

/-- Where the threads' tables have connection `i`. -/
theorem Inv.fdTable_conn {p : Process} (h : p.Inv) {i : ℕ} {c : Conn} (hc : p.conns[i]? = some c)
    (t n : ℕ) : p.fdTable t n = some i ↔ c.thread = t ∧ c.fd = n ∧ c.teardown = .live := by
  rw [h.fdTable_iff]
  simp [hc]

/-- Where the kernel's table has connection `i`. -/
theorem Inv.table_conn {p : Process} (h : p.Inv) {i : ℕ} {c : Conn} (hc : p.conns[i]? = some c)
    (n : ℕ) : p.table n = some (.conn i) ↔ c.fd = n ∧ holds c = true := by
  rw [h.table_iff]
  simp [hc]

/-- **Teardown steps.** A step that puts `d` in the place of connection `i`, the same connection
further in its teardown, keeps the invariant if the tables lose at most what `i` had in them and the
closes are those `d` should have seen. -/
theorem Inv.of_set {p p' : Process} (h : p.Inv) {i : ℕ} {c d : Conn} (hc : p.conns[i]? = some c)
    (hconns : p'.conns = p.conns.set i d) (hfd : d.fd = c.fd) (hlive : d.teardown ≠ .live)
    (hholds : holds d = true → holds c = true) (hsocket : d.teardown ≠ .gone → d.socket = d.fd)
    (hzero : p'.table 0 = p.table 0) (hnone : ∀ n, p.table n = none → p'.table n = none)
    (htable : ∀ n j, p'.table n = some (.conn j) ↔
      p.table n = some (.conn j) ∧ (j = i → holds d = true))
    (hfdTable : ∀ t n j, p'.fdTable t n = some j ↔ p.fdTable t n = some j ∧ j ≠ i)
    (hfreed : d.teardown = .streamFreed → p'.table c.fd = none)
    (hself : p'.closedTimes i = if holds d then 0 else 1)
    (hother : ∀ j, j ≠ i → p'.closedTimes j = p.closedTimes j)
    (hown : ∀ k ∈ p'.closes, ∀ o, k.hit = some o → o = .conn k.caller) : p'.Inv where
  zero := hzero.trans h.zero
  table_iff n j := by
    rw [htable, hconns, exists_getElem?_set hc, h.table_iff]
    by_cases hj : j = i
    · subst hj
      simp only [hc, Option.some.injEq, exists_eq_left', hfd]
      tauto
    · simp [hj]
  fdTable_iff t n j := by
    rw [hfdTable, hconns, exists_getElem?_set hc, h.fdTable_iff]
    by_cases hj : j = i
    · simp [hj, hlive]
    · simp [hj]
  fd_pos j e he := by
    rw [hconns, getElem?_set_some hc] at he
    rcases he with ⟨rfl, rfl⟩ | ⟨-, he⟩
    · rw [hfd]
      exact h.fd_pos _ c hc
    · exact h.fd_pos j e he
  fd_lt j e he := by
    rw [hconns, getElem?_set_some hc] at he
    rcases he with ⟨rfl, rfl⟩ | ⟨-, he⟩
    · rw [hfd]
      exact h.fd_lt _ c hc
    · exact h.fd_lt j e he
  socket j e he ht := by
    rw [hconns, getElem?_set_some hc] at he
    rcases he with ⟨rfl, rfl⟩ | ⟨-, he⟩
    · exact hsocket ht
    · exact h.socket j e he ht
  freed j e he ht := by
    rw [hconns, getElem?_set_some hc] at he
    rcases he with ⟨rfl, rfl⟩ | ⟨-, he⟩
    · rw [hfd]
      exact hfreed ht
    · exact hnone _ (h.freed j e he ht)
  closed j e he := by
    rw [hconns, getElem?_set_some hc] at he
    rcases he with ⟨rfl, rfl⟩ | ⟨hj, he⟩
    · exact hself
    · rw [hother j hj, h.closed j e he]
  fresh j hj := by
    rw [hconns, List.getElem?_eq_none_iff, List.length_set, ← List.getElem?_eq_none_iff] at hj
    have hne : j ≠ i := by
      rintro rfl
      rw [hc] at hj
      cases hj
    rw [hother j hne, h.fresh j hj]
  own := hown

/-- Deregistering the stream of a live connection. -/
theorem rtorStreamDeregister_spec {p : Process} (h : p.Inv) {i : ℕ} {c : Conn}
    (hc : p.conns[i]? = some c) (hl : c.teardown = .live) :
    ∃ p', p.rtorStreamDeregister i c = .ok p' ∧ p'.Inv ∧
      p'.conns = p.conns.set i { c with teardown := .deregistered } := by
  have hslot : p.fdTable c.thread c.fd = some i := (h.fdTable_conn hc _ _).mpr ⟨rfl, rfl, hl⟩
  have htab : p.table c.fd = some (.conn i) :=
    (h.table_conn hc _).mpr ⟨rfl, by simp [holds, hl]⟩
  have hknows : p.epollKnows c.thread c.fd = true := by
    simp [epollKnows, htab, hc]
  refine ⟨{ p with
    fdTable := Function.update p.fdTable c.thread
      (Function.update (p.fdTable c.thread) c.fd none)
    conns := p.conns.set i { c with teardown := .deregistered } }, ?_, ?_, rfl⟩
  · simp only [rtorStreamDeregister, fdTableRemove, hslot, hknows, Option.isSome_some,
      assertThat_true]
    rfl
  · refine h.of_set hc rfl rfl nofun (fun _ => by simp [holds, hl])
      (fun _ => h.socket i c hc (by simp [hl])) rfl (fun _ hn => hn) (fun n j => ?_)
      (fun t n j => ?_) nofun ?_ (fun _ _ => rfl) h.own
    · simp [holds]
    · -- the entry removed is the only one that connection `i` has
      have honly := h.fdTable_conn hc t n
      by_cases ht : c.thread = t
      · subst ht
        by_cases hn : c.fd = n
        · subst hn
          simp [hslot, eq_comm]
        · have hne : p.fdTable c.thread n = some j → j ≠ i := by
            rintro hj rfl
            exact hn (honly.mp hj).2.1
          simpa [Function.update_apply, Ne.symm hn] using hne
      · have hne : p.fdTable t n = some j → j ≠ i := by
          rintro hj rfl
          exact ht (honly.mp hj).1
        simpa [Function.update_apply, Ne.symm ht] using hne
    · change p.closedTimes i = _
      rw [h.closed i c hc]
      simp [holds, hl]

private theorem closedTimes_close (p : Process) (i n j : ℕ) :
    (p.close i n).closedTimes j =
      p.closedTimes j + if p.table n = some (.conn j) then 1 else 0 := by
  simp [closedTimes, close, List.countP_append, List.countP_singleton]

/-- A connection that is not live is in no thread's table. -/
theorem Inv.fdTable_ne {p : Process} (h : p.Inv) {i : ℕ} {c : Conn} (hc : p.conns[i]? = some c)
    (hl : c.teardown ≠ .live) (t n j : ℕ) :
    p.fdTable t n = some j ↔ p.fdTable t n = some j ∧ j ≠ i := by
  refine ⟨fun hj => ⟨hj, ?_⟩, fun hj => hj.1⟩
  rintro rfl
  exact hl ((h.fdTable_conn hc t n).mp hj).2.2

/-- A close in the teardown of connection `i` that hits nothing of another connection. -/
theorem own_close {p : Process} (h : p.Inv) {i n : ℕ}
    (hn : ∀ o, p.table n = some o → o = .conn i) :
    ∀ k ∈ (p.close i n).closes, ∀ o, k.hit = some o → o = .conn k.caller := by
  intro k hk
  rcases List.mem_append.mp hk with hk | hk
  · exact h.own k hk
  · rw [List.mem_singleton.mp hk]
    exact hn

/-- The first close hits the connection's own socket. -/
theorem rtorStreamFree_inv {p : Process} (h : p.Inv) {i : ℕ} {c : Conn}
    (hc : p.conns[i]? = some c) (hd : c.teardown = .deregistered) :
    (p.rtorStreamFree i c).Inv := by
  have hholds : holds c = true := by simp [holds, hd]
  have htab : p.table c.fd = some (.conn i) := (h.table_conn hc _).mpr ⟨rfl, hholds⟩
  have hcount : ∀ j, (p.rtorStreamFree i c).closedTimes j =
      p.closedTimes j + if j = i then 1 else 0 := by
    intro j
    change (p.close i c.fd).closedTimes j = _
    rw [closedTimes_close, htab]
    simp [eq_comm]
  refine h.of_set hc rfl rfl nofun (fun _ => hholds) (fun _ => h.socket i c hc (by simp [hd])) ?_
    (fun n hn => ?_) (fun n j => ?_) (h.fdTable_ne hc (by simp [hd])) (fun _ => ?_) ?_
    (fun j hj => ?_) (own_close h fun o ho => ?_)
  · have hpos := h.fd_pos i c hc
    exact Function.update_of_ne hpos.ne _ _
  · by_cases hfd : n = c.fd
    · rw [hfd]
      exact Function.update_self _ _ _
    · exact (Function.update_of_ne hfd _ _).trans hn
  · -- only connection `i` had the number that was closed
    have honly := h.table_conn hc n
    by_cases hfd : n = c.fd
    · subst hfd
      simp [rtorStreamFree, close, setConn, htab, holds, eq_comm]
    · have hne : p.table n = some (.conn j) → j ≠ i := by
        rintro hj rfl
        exact hfd (honly.mp hj).1.symm
      simpa [rtorStreamFree, close, setConn, Function.update_apply, hfd, holds] using hne
  · exact Function.update_self _ _ _
  · rw [hcount, h.closed i c hc]
    simp [holds, hd]
  · rw [hcount, if_neg hj, Nat.add_zero]
  · rw [htab] at ho
    exact (Option.some.inj ho).symm

/-- The second close finds the number free. -/
theorem closeIfOpen_spec {p : Process} (h : p.Inv) {i : ℕ} {c : Conn}
    (hc : p.conns[i]? = some c) (hd : c.teardown = .streamFreed) :
    ∃ p', p.closeIfOpen i c = .ok p' ∧ p'.Inv ∧
      p'.conns = p.conns.set i { c with socket := -1, teardown := .gone } := by
  have hsock : c.socket = c.fd := h.socket i c hc (by simp [hd])
  have hpos : (0 : ℤ) < c.socket := by
    have := h.fd_pos i c hc
    omega
  have hnat : c.socket.toNat = c.fd := by omega
  have hfree := h.freed i c hc hd
  refine ⟨(p.close i c.fd).setConn i { c with socket := -1, teardown := .gone }, ?_, ?_, rfl⟩
  · simp only [closeIfOpen, hpos, if_true, asyncConnectionClose, decide_true, assertThat_true,
      hnat]
    rfl
  have hupd : Function.update p.table c.fd none = p.table :=
    Function.update_eq_self_iff.mpr hfree.symm
  have hcount : ∀ j, ((p.close i c.fd).setConn i
      { c with socket := -1, teardown := .gone }).closedTimes j = p.closedTimes j := by
    intro j
    change (p.close i c.fd).closedTimes j = _
    rw [closedTimes_close, hfree]
    simp
  refine h.of_set hc rfl rfl nofun nofun (fun hne => absurd rfl hne) (congrFun hupd 0)
    (fun n hn => (congrFun hupd n).trans hn) (fun n j => ?_) (h.fdTable_ne hc (by simp [hd]))
    nofun ?_ (fun j _ => hcount j) (own_close h fun o ho => ?_)
  · have hne : p.table n = some (.conn j) → j ≠ i := by
      rintro hj rfl
      have := ((h.table_conn hc n).mp hj).2
      simp [holds, hd] at this
    simpa [close, setConn, hupd, holds] using hne
  · rw [hcount, h.closed i c hc]
    simp [holds, hd]
  · rw [hfree] at ho
    cases ho

/-! ### Runs -/

/-- `accept` with every descriptor in use. -/
def outOfDescriptors : Abort := ⟨"on_event_listening", "accept returns invalid socket"⟩

/-- The aborts a clear step can end in. The second needs a limit above the size of the table. -/
def NoDescriptor (limit : ℕ) (e : Abort) : Prop :=
  e = outOfDescriptors ∨ rtorFdtableMax < limit ∧ e = pastTable

/-- Every connection of `p'` belongs to a thread that had one before, or that accepts in the
step `a`. -/
def ThreadsFrom (p : Process) (a : Act) (p' : Process) : Prop :=
  ∀ c' ∈ p'.conns, (∃ c ∈ p.conns, c.thread = c'.thread) ∨ a = .accept c'.thread

private theorem threadsFrom_of_conns_eq {p p' : Process} (a : Act) (h : p'.conns = p.conns) :
    p.ThreadsFrom a p' := fun c' hc' => Or.inl ⟨c', h ▸ hc', rfl⟩

private theorem threadsFrom_of_set {p p' : Process} {i : ℕ} {c d : Conn} (a : Act)
    (hc : p.conns[i]? = some c) (h : p'.conns = p.conns.set i d) (hd : d.thread = c.thread) :
    p.ThreadsFrom a p' := by
  intro c' hc'
  rw [h] at hc'
  rcases List.mem_or_eq_of_mem_set hc' with hmem | rfl
  · exact Or.inl ⟨c', hmem, rfl⟩
  · exact Or.inl ⟨c, List.mem_of_getElem? hc, hd.symm⟩

/-- **One step.** A clear step keeps the invariant, or there is no descriptor for `accept`. -/
theorem step_spec {p : Process} (h : p.Inv) {a : Act} (ha : p.ClearAccept limit a) :
    (∃ p', p.step limit a = .ok p' ∧ p'.Inv ∧ p.ThreadsFrom a p') ∨
      ∃ e, p.step limit a = .error e ∧ NoDescriptor limit e := by
  cases a with
  | accept t =>
    cases hb : p.busy t with
    | true => exact Or.inl ⟨p, by simp [step, hb], h, threadsFrom_of_conns_eq _ rfl⟩
    | false =>
      simp only [step, hb, Bool.false_eq_true, if_false]
      cases hf : p.lowestFree limit with
      | none =>
        refine Or.inr ⟨outOfDescriptors, ?_, Or.inl rfl⟩
        unfold onEventListening
        rw [hf]
        rfl
      | some fd =>
        by_cases hlt : fd < rtorFdtableMax
        · refine Or.inl ⟨_, onEventListening_eq h hf hlt t,
            accepted_inv h hf hlt t (ha hb fd hf), fun c' hc' => ?_⟩
          rcases List.mem_append.mp hc' with hmem | hnew
          · exact Or.inl ⟨c', hmem, rfl⟩
          · rw [List.mem_singleton.mp hnew]
            exact Or.inr rfl
        · have hlimit := lowestFree_lt hf
          exact Or.inr ⟨pastTable, onEventListening_error h hf hlt t, Or.inr ⟨by omega, rfl⟩⟩
  | destroy i =>
    left
    cases hc : p.conns[i]? with
    | none => exact ⟨p, by simp [step, hc], h, threadsFrom_of_conns_eq _ rfl⟩
    | some c =>
      simp only [step, hc]
      cases ht : c.teardown with
      | live =>
        cases hb : p.busy c.thread with
        | true => exact ⟨p, rfl, h, threadsFrom_of_conns_eq _ rfl⟩
        | false =>
          obtain ⟨p', hp', hinv, hset⟩ := rtorStreamDeregister_spec h hc ht
          exact ⟨p', hp', hinv, threadsFrom_of_set _ hc hset rfl⟩
      | deregistered =>
        exact ⟨_, rfl, rtorStreamFree_inv h hc ht, threadsFrom_of_set _ hc rfl rfl⟩
      | streamFreed =>
        obtain ⟨p', hp', hinv, hset⟩ := closeIfOpen_spec h hc ht
        exact ⟨p', hp', hinv, threadsFrom_of_set _ hc hset rfl⟩
      | gone => exact ⟨p, rfl, h, threadsFrom_of_conns_eq _ rfl⟩

/-- A clear step that succeeds keeps the invariant. -/
theorem step_inv (p : Process) (a : Act) (p' : Process) (h : p.Inv) (ha : p.ClearAccept limit a)
    (hs : p.step limit a = .ok p') : p'.Inv := by
  rcases step_spec h ha with ⟨p'', hs', hinv, -⟩ | ⟨e, he, -⟩
  · cases hs.symm.trans hs'
    exact hinv
  · cases hs.symm.trans he

/-- A clear step aborts only for want of descriptors. -/
theorem step_error (p : Process) (a : Act) (e : Abort) (h : p.Inv) (ha : p.ClearAccept limit a)
    (hs : p.step limit a = .error e) : NoDescriptor limit e := by
  rcases step_spec h ha with ⟨p'', hs', -⟩ | ⟨e', he', hno⟩
  · cases hs.symm.trans hs'
  · cases hs.symm.trans he'
    exact hno

/-- **A stolen number.** If `accept` hands out the number of a connection between its two
closes, that connection's second close is applied to the new connection. -/
theorem stolen_not_owned {p : Process} (h : p.Inv) {t : ℕ}
    (ha : ¬ p.ClearAccept limit (.accept t)) :
    ∃ i p', Machine.run (step limit) p [.accept t, .destroy i] = .ok p' ∧ ¬ p'.Owned := by
  simp only [ClearAccept, not_forall, not_not] at ha
  obtain ⟨hb, fd, hf, c, hmem, hd, rfl⟩ := ha
  obtain ⟨i, hc⟩ := List.mem_iff_getElem?.mp hmem
  have hlt : i < p.conns.length := (List.getElem?_eq_some_iff.mp hc).1
  have hpos := h.fd_pos i c hc
  have hsock : c.socket = c.fd := h.socket i c hc (by simp [hd])
  have hget : (p.accepted t c.fd).conns[i]? = some c := by
    rw [accepted, getElem?_append_singleton]
    exact Or.inl hc
  have hstep : p.step limit (.accept t) = .ok (p.accepted t c.fd) := by
    simp only [step, hb, Bool.false_eq_true, if_false]
    exact onEventListening_eq h hf (h.fd_lt i c hc) t
  have hclose : (p.accepted t c.fd).step limit (.destroy i) = .ok
      (((p.accepted t c.fd).close i c.fd).setConn i
        { c with socket := -1, teardown := .gone }) := by
    simp only [step, hget, hd, closeIfOpen, asyncConnectionClose, hsock, Int.natCast_pos, hpos,
      if_true, decide_true, assertThat_true, Int.toNat_natCast]
    rfl
  refine ⟨i, _, (Machine.run_cons_ok hstep).trans (Machine.run_cons_ok hclose), fun ho => ?_⟩
  have hcall := ho.own ⟨i, some (.conn p.conns.length)⟩
    (by simp [setConn, close, accepted]) (.conn p.conns.length) rfl
  injection hcall with hcall
  exact absurd hcall hlt.ne'

/-- With every connection on thread `t`, an accept of thread `t` is clear: a connection
between its closes keeps the thread busy. -/
theorem clearAccept_of_single {p : Process} {t : ℕ} (h : ∀ c ∈ p.conns, c.thread = t) {a : Act}
    (ha : ∀ u, a = .accept u → u = t) : p.ClearAccept limit a := by
  cases a with
  | accept u =>
    obtain rfl := ha u rfl
    intro hb fd _ c hc hd
    rw [busy, List.any_eq_false] at hb
    exact absurd (by simp [h c hc, hd]) (hb c hc)
  | destroy i => trivial

/-- **One reactor thread.** A thread does not accept in the middle of a teardown, so with a
single thread every accept is clear. -/
theorem along_clearAccept_of_single {p : Process} (h : p.Inv) {t : ℕ}
    (ht : ∀ c ∈ p.conns, c.thread = t) {as : List Act}
    (has : ∀ u, Act.accept u ∈ as → u = t) :
    Machine.Along (step limit) (ClearAccept limit) p as := by
  induction as generalizing p with
  | nil => trivial
  | cons a as ih =>
    have hclear : p.ClearAccept limit a :=
      clearAccept_of_single ht fun u hu => has u (hu ▸ List.mem_cons_self)
    rcases step_spec h hclear with ⟨p', hs, hinv, hfrom⟩ | ⟨e, he, -⟩
    · refine (Machine.along_cons_ok hs).mpr ⟨hclear, ih hinv (fun c' hc' => ?_) ?_⟩
      · rcases hfrom c' hc' with ⟨c, hc, hcc⟩ | ha
        · exact hcc ▸ ht c hc
        · exact has c'.thread (ha ▸ List.mem_cons_self)
      · exact fun u hu => has u (List.mem_cons_of_mem _ hu)
    · simp [Machine.Along, he, hclear]

/-- **Descriptor ownership.** Over every interleaving of accepts and teardowns on any number
of threads: while no `accept` returns the number of a connection that stands between its two
closes, every close applies to its own connection's socket, every socket is closed exactly
once, and the process aborts only when `accept` runs out of descriptors, or out of entries of the
reactor's table where the limit of the process is above their number. The condition is
sharp: from any state so reached, an `accept` that breaks it is followed by a close of the
wrong connection's socket as soon as the interrupted teardown goes on. -/
theorem teardown_owned_of_clear (limit reserved : ℕ) (as : List Act)
    (h : Machine.Along (step limit) (ClearAccept limit) (init reserved) as) :
    Machine.Always (step limit) Owned (init reserved) as ∧
      (∀ e, Machine.run (step limit) (init reserved) as = .error e → NoDescriptor limit e) ∧
      ∀ p t, Machine.run (step limit) (init reserved) as = .ok p →
        ¬ p.ClearAccept limit (.accept t) → ∃ i p',
          Machine.run (step limit) (init reserved) (as ++ [.accept t, .destroy i]) = .ok p' ∧
            ¬ p'.Owned := by
  have hinv : Machine.Always (step limit) Inv (init reserved) as :=
    Machine.always_of_along step_inv (init_inv reserved) h
  refine ⟨hinv.mono fun p hp => hp.owned, fun e he => ?_, fun p t hp ha => ?_⟩
  · exact Machine.error_of_along step_inv step_error (init_inv reserved) h he
  · obtain ⟨i, p', hr, hno⟩ := stolen_not_owned (hinv.last hp) ha
    exact ⟨i, p', (Machine.run_append hp).trans hr, hno⟩

/-- Two threads whose accepts keep clear of each other's teardowns. -/
theorem teardown_owned_two_threads :
    Machine.Always (step 1024) Owned (init 4)
      [.accept 0, .accept 1, .destroy 0, .destroy 0, .destroy 0, .accept 1] :=
  (teardown_owned_of_clear 1024 4 _ (by decide)).1

/-- Thread 1 accepts between the two closes of a teardown on thread 0 and is given the number
just released; the second close then closes thread 1's new connection. -/
theorem second_close_hits_other :
    ∃ p, Machine.run (step 1024) (init 4)
        [.accept 0, .destroy 0, .destroy 0, .accept 1, .destroy 0] = .ok p ∧
      p.closes = [⟨0, some (.conn 0)⟩, ⟨0, some (.conn 1)⟩] ∧ ¬ p.Owned := by
  refine ⟨_, rfl, by decide, fun h => ?_⟩
  have := h.own ⟨0, some (.conn 1)⟩ (by decide) (.conn 1) rfl
  exact absurd this (by decide)

end Process

end Descriptors

end CHttp
