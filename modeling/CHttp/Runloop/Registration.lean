import CHttp.Runloop.ReactorSteps

/-!
# One descriptor of a reactor

A watcher for one descriptor uses three functions of the reactor: `rtor_reactor_register`,
`rtor_reactor_reregister` and `rtor_reactor_deregister`. What they do for that descriptor, and when
they abort, depends on the interest that `epoll` has for it and on nothing else: `Registration` is
that interest, and `RtorReactor.Holds` says that a reactor is in a state where the watcher's
descriptor is in the table exactly if `epoll` watches it.
-/

namespace CHttp

namespace Epoll

/-- `EPOLLIN`. -/
def epollin : UInt32 := 0x001

/-- `EPOLLOUT`. -/
def epollout : UInt32 := 0x004

/-- `EPOLLERR`. -/
def epollerr : UInt32 := 0x008

/-- `EPOLLHUP`. -/
def epollhup : UInt32 := 0x010

/-- `EPOLLRDHUP`. -/
def epollrdhup : UInt32 := 0x2000

/-- `EPOLLET`. -/
def epollet : UInt32 := 0x80000000

end Epoll

/-- What a reactor has for one descriptor: the interest of its watcher, if it is registered. -/
abbrev Registration := Option UInt32

namespace Registration

/-- `rtor_reactor_register`. -/
def register (this : Registration) (interest : UInt32) : Except Abort Registration := do
  assertThat this.isNone "rtor_epoll_ctl" "epoll ctl call failed"
  return some interest

/-- `rtor_reactor_reregister`. -/
def reregister (this : Registration) (interest : UInt32) : Except Abort Registration := do
  assertThat this.isSome "FdTable_lookup" "this->entries[fd] != NULL"
  return some interest

/-- `rtor_reactor_deregister`. -/
def deregister (this : Registration) : Except Abort Registration := do
  assertThat this.isSome "FdTable_lookup" "this->entries[fd] != NULL"
  return none

end Registration

namespace RtorReactor

variable {W F A : Type} {r : RtorReactor W F A} {fd : ℕ} {wref : W}

/-- A reactor that is open, and has a watcher for a descriptor that fits the table as long as
`epoll` watches it. -/
structure Holds (r : RtorReactor W F A) (fd : ℕ) (wref : W) : Prop where
  epollOpen : r.epollOpen = true
  lt : fd < rtorFdtableMax
  entry : r.table.entry fd = (r.epoll fd).map fun _ => wref

/-- The reactor has a registration for the descriptor. -/
def Has (fd : ℕ) (wref : W) (r : RtorReactor W F A) (reg : Registration) : Prop :=
  r.Holds fd wref ∧ r.epoll fd = reg

theorem Holds.entries (h : r.Holds fd wref) :
    r.table.entries ⟨fd, h.lt⟩ = (r.epoll fd).map fun _ => wref := by
  have hentry := h.entry
  rwa [FdTable.entry, dif_pos h.lt] at hentry

/-- Writing the entry and the interest. -/
theorem Holds.update (h : r.Holds fd wref) (count : ℕ) (reg : Registration) :
    Has fd wref { r with
      epoll := Function.update r.epoll fd reg
      table := ⟨count, Function.update r.table.entries ⟨fd, h.lt⟩ (reg.map fun _ => wref)⟩ }
      reg := by
  have hself : Function.update r.epoll fd reg fd = reg := Function.update_self ..
  refine ⟨⟨h.epollOpen, h.lt, ?_⟩, hself⟩
  have hentry : FdTable.entry ⟨count, Function.update r.table.entries ⟨fd, h.lt⟩
      (reg.map fun _ => wref)⟩ fd = if fd = fd then reg.map fun _ => wref else r.table.entry fd :=
    FdTable.entry_update
  simpa [hself] using hentry

/-- `rtor_epoll_ctl` on the descriptor. -/
theorem Holds.rtorEpollCtl_eq (h : r.Holds fd wref) (op : EpollCtl) (interest : UInt32) :
    r.rtorEpollCtl op fd interest =
      if (r.epoll fd).isSome = decide (op ≠ .add) then
        .ok { r with
          epoll := Function.update r.epoll fd (if op = .del then none else some interest) }
      else .error ⟨"rtor_epoll_ctl", "epoll ctl call failed"⟩ := by
  have hopen := h.epollOpen
  unfold rtorEpollCtl assertThat
  by_cases hreg : (r.epoll fd).isSome = decide (op ≠ .add)
  · rw [if_pos hreg, if_pos (by simpa [hopen] using hreg)]
    rfl
  · rw [if_neg hreg, if_neg (by simpa [hopen] using hreg)]
    rfl

private theorem Holds.lookup_eq (h : r.Holds fd wref) :
    r.table.lookup fd =
      if (r.epoll fd).isSome then .ok wref
      else .error ⟨"FdTable_lookup", "this->entries[fd] != NULL"⟩ := by
  have hentries := h.entries
  rw [FdTable.lookup, dif_pos h.lt]
  cases hreg : r.epoll fd with
  | none => simp [hreg, hentries]
  | some i => simp [hreg, hentries]

/-- `rtor_reactor_register`, for the descriptor. -/
theorem Holds.register_rel (h : r.Holds fd wref) (interest : UInt32) :
    Except.Rel (Has fd wref) (r.register fd interest wref)
      (Registration.register (r.epoll fd) interest) := by
  have hentries := h.entries
  rw [register, h.rtorEpollCtl_eq]
  cases hreg : r.epoll fd with
  | none =>
    rw [hreg] at hentries
    have hinsert : r.table.insert wref fd = .ok ⟨r.table.count + 1,
        Function.update r.table.entries ⟨fd, h.lt⟩ (some wref)⟩ := by
      simp [FdTable.insert, h.lt, hentries]
    have htest : Option.isSome (none : Registration) = decide (EpollCtl.add ≠ .add) := by decide
    rw [if_pos htest, Except.ok_bind]
    simp only [hinsert]
    exact .ok (h.update _ (some interest))
  | some i => exact .error _

/-- `rtor_reactor_reregister`, for the descriptor and its watcher. -/
theorem Holds.reregister_rel [DecidableEq W] (h : r.Holds fd wref) (interest : UInt32) :
    Except.Rel (Has fd wref) (r.reregister fd interest wref)
      (Registration.reregister (r.epoll fd) interest) := by
  rw [reregister, h.lookup_eq, h.rtorEpollCtl_eq]
  cases hreg : r.epoll fd with
  | none => exact .error _
  | some i =>
    have hself : Function.update r.epoll fd (some interest) fd = some interest :=
      Function.update_self ..
    have hentry : r.table.entry fd = some wref := by
      rw [h.entry, hreg]
      rfl
    have hlookup : r.table.lookup fd = .ok wref := FdTable.lookup_eq_ok.mpr hentry
    simp only [Option.isSome_some, if_true, Except.ok_bind, ne_eq, reduceCtorEq, not_false_eq_true,
      decide_true, if_false, hlookup, assertThat_true, Except.pure_eq_ok]
    refine .ok ⟨⟨h.epollOpen, h.lt, ?_⟩, hself⟩
    exact hentry.trans (congrArg (Option.map fun _ => wref) hself).symm

/-- `rtor_reactor_deregister`, for the descriptor. -/
theorem Holds.deregister_rel (h : r.Holds fd wref) :
    Except.Rel (Has fd wref) (r.deregister fd) (Registration.deregister (r.epoll fd)) := by
  have hentries := h.entries
  rw [deregister, h.lookup_eq, h.rtorEpollCtl_eq]
  cases hreg : r.epoll fd with
  | none => exact .error _
  | some i =>
    rw [hreg] at hentries
    have hremove : r.table.remove fd = .ok ⟨r.table.count - 1,
        Function.update r.table.entries ⟨fd, h.lt⟩ none⟩ := by
      simp [FdTable.remove, h.lt, hentries]
    simp only [Option.isSome_some, if_true, Except.ok_bind, ne_eq, reduceCtorEq, not_false_eq_true,
      decide_true, hremove, Except.pure_eq_ok]
    exact .ok (h.update _ none)

end RtorReactor

end CHttp
