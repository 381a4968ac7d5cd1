import CHttp.Runloop.ReactorSteps

/-!
# Iterating over the table of watchers

`FdTable_iterator` and `FdTable_next_iterator`, and the loop of `rtor_reactor_close` that closes
every registered descriptor. The iterator asserts that the descriptor it goes on from is not the
last of the table, although that one can be registered; and nothing keeps a descriptor past the
table from being registered.
-/

namespace CHttp

namespace FdTable

variable {W : Type} {this : FdTable W}

/-- A descriptor has an entry. -/
def registered (this : FdTable W) (fd : ℕ) : Bool := (this.entry fd).isSome

/-- The loop of both iterators: the first entry in use among the `n` from `i` on. -/
def firstFrom (this : FdTable W) : ℕ → ℕ → Option ℕ
  | 0, _ => none
  | n + 1, i => if this.registered i then some i else this.firstFrom n (i + 1)

/-- `FdTable_iterator`; −1 is `none`. -/
def iterator (this : FdTable W) : Option ℕ := this.firstFrom rtorFdtableMax 0

/-- `FdTable_next_iterator`. -/
def nextIterator (this : FdTable W) (iter : ℕ) : Except Abort (Option ℕ) := do
  assertThat (iter + 1 < rtorFdtableMax) "FdTable_next_iterator" "iter+1 < RTOR_FDTABLE_MAX"
  return this.firstFrom (rtorFdtableMax - (iter + 1)) (iter + 1)

private theorem le_of_firstFrom {n i fd : ℕ} (h : this.firstFrom n i = some fd) : i ≤ fd := by
  induction n generalizing i with
  | zero => cases h
  | succ n ih =>
    rw [firstFrom] at h
    split at h
    · cases h
      exact Nat.le_refl fd
    · exact Nat.le_of_succ_le (ih h)

private theorem nextIterator_of_lt {iter : ℕ} (h : iter + 1 < rtorFdtableMax) :
    this.nextIterator iter =
      .ok (this.firstFrom (rtorFdtableMax - (iter + 1)) (iter + 1)) := by
  simp [nextIterator, h]

/-- The assertion of the iterator, when it fails. -/
def iteratorFailed : Abort := ⟨"FdTable_next_iterator", "iter+1 < RTOR_FDTABLE_MAX"⟩

private theorem nextIterator_of_not_lt {iter : ℕ} (h : ¬ iter + 1 < rtorFdtableMax) :
    this.nextIterator iter = .error iteratorFailed := by
  simp [nextIterator, h, iteratorFailed]

private theorem of_nextIterator_eq_ok {iter : ℕ} {next : Option ℕ}
    (h : this.nextIterator iter = .ok next) :
    iter + 1 < rtorFdtableMax ∧
      next = this.firstFrom (rtorFdtableMax - (iter + 1)) (iter + 1) := by
  by_cases hlt : iter + 1 < rtorFdtableMax
  · rw [nextIterator_of_lt hlt] at h
    exact ⟨hlt, (Except.ok.inj h).symm⟩
  · rw [nextIterator_of_not_lt hlt] at h
    cases h

/-- The loop of `rtor_reactor_close`: the descriptors it closes, from `next_fd` on. -/
def closeFrom (this : FdTable W) : Option ℕ → Except Abort (List ℕ)
  | none => .ok []
  | some nextFd =>
    match _h : this.nextIterator nextFd with
    | .error e => .error e
    | .ok next =>
      match this.closeFrom next with
      | .error e => .error e
      | .ok fds => .ok (nextFd :: fds)
termination_by next => next.elim 0 fun fd => rtorFdtableMax + 1 - fd
decreasing_by
  obtain ⟨hlt, hnext⟩ := of_nextIterator_eq_ok _h
  cases next with
  | none => exact Nat.sub_pos_of_lt (by omega)
  | some fd =>
    have hle := le_of_firstFrom hnext.symm
    simp only [Option.elim_some]
    omega

/-- The descriptors that `rtor_reactor_close` closes, in order. -/
def closeAll (this : FdTable W) : Except Abort (List ℕ) := this.closeFrom this.iterator

private theorem closeFrom_none : this.closeFrom none = .ok [] := by
  rw [closeFrom]

/-- One turn of the loop. -/
theorem closeFrom_some (fd : ℕ) : this.closeFrom (some fd) = (do
    let next ← this.nextIterator fd
    let fds ← this.closeFrom next
    return fd :: fds) := by
  rw [closeFrom]
  split
  · rename_i e h
    rw [h]
    rfl
  · rename_i next h
    rw [h, Except.ok_bind]
    cases this.closeFrom next with
    | ok fds => rfl
    | error e => rfl

/-- The registered descriptors among the `n` from `i` on. -/
def descriptorsFrom (this : FdTable W) (n i : ℕ) : List ℕ :=
  (List.range' i n).filter this.registered

/-- **The loop.** As long as the last entry of the table is not in use, it closes the registered
descriptors in increasing order; otherwise the iterator's assertion fails. -/
theorem closeFrom_firstFrom {n i : ℕ} (hi : i + n = rtorFdtableMax) :
    this.closeFrom (this.firstFrom n i) =
      if n ≠ 0 ∧ this.registered (rtorFdtableMax - 1) then .error iteratorFailed
      else .ok (this.descriptorsFrom n i) := by
  induction n generalizing i with
  | zero => exact closeFrom_none
  | succ n ih =>
    have hsub : rtorFdtableMax - (i + 1) = n := by omega
    rw [firstFrom, descriptorsFrom, List.range'_succ]
    by_cases hreg : this.registered i
    · rw [if_pos hreg, closeFrom_some, List.filter_cons_of_pos hreg]
      by_cases hlast : n = 0
      · -- going on from the last entry
        have heq : rtorFdtableMax - 1 = i := by omega
        rw [nextIterator_of_not_lt (by omega), heq, if_pos ⟨by omega, hreg⟩]
        rfl
      · rw [nextIterator_of_lt (by omega), Except.ok_bind, hsub, ih (by omega)]
        by_cases hr : this.registered (rtorFdtableMax - 1)
        · rw [if_pos ⟨hlast, hr⟩, if_pos ⟨by omega, hr⟩]
          rfl
        · rw [if_neg (fun h => hr h.2), if_neg (fun h => hr h.2)]
          rfl
    · rw [if_neg hreg, ih (by omega), List.filter_cons_of_neg hreg]
      by_cases hlast : n = 0
      · have heq : rtorFdtableMax - 1 = i := by omega
        rw [heq, if_neg (fun h => hreg h.2), if_neg (fun h => hreg h.2)]
        rfl
      · simp [hlast, descriptorsFrom]

/-- `rtor_reactor_close` goes through exactly if the last entry is not in use. -/
theorem closeAll_eq (this : FdTable W) :
    this.closeAll = if this.registered (rtorFdtableMax - 1) then .error iteratorFailed
      else .ok (this.descriptorsFrom rtorFdtableMax 0) := by
  have hne : rtorFdtableMax ≠ 0 := by decide
  rw [closeAll, iterator, closeFrom_firstFrom (Nat.zero_add _)]
  simp [hne]

end FdTable

/-- The loop of `rtor_reactor_close` in its place. -/
theorem RtorReactor.close_eq {W F A : Type} (athis : RtorReactor W F A) : athis.close = (do
    assertThat athis.epollOpen "rtor_reactor_close" "close epoll_fd failed"
    let _ ← athis.table.closeAll
    return { athis with epollOpen := false, epoll := fun _ => none }) := by
  unfold close
  rw [FdTable.closeAll_eq, FdTable.registered]
  cases athis.table.entry (rtorFdtableMax - 1) with
  | none => rfl
  | some w => rfl

/-! ### Runs -/

/-- A table, and the descriptors that are registered in it according to the calls made. -/
structure TableRun (W : Type) where
  table : FdTable W
  registered : List ℕ

namespace TableRun

variable {W : Type} {s s' : TableRun W}

/-- A call. -/
inductive Act (W : Type)
  | insert (watcher : W) (fd : ℕ)
  | remove (fd : ℕ)

/-- A new table. -/
def new : TableRun W := ⟨.new, []⟩

/-- One call. -/
def step (s : TableRun W) : Act W → Except Abort (TableRun W)
  | .insert watcher fd => do return ⟨← s.table.insert watcher fd, fd :: s.registered⟩
  | .remove fd => do return ⟨← s.table.remove fd, s.registered.erase fd⟩

/-- A descriptor is registered once, and removed only when it is there. -/
def Contract (s : TableRun W) : Act W → Prop
  | .insert _ fd => fd ∉ s.registered
  | .remove fd => fd ∈ s.registered

instance decidableContract (s : TableRun W) : ∀ a, Decidable (s.Contract a)
  | .insert _ fd => inferInstanceAs (Decidable (fd ∉ s.registered))
  | .remove fd => inferInstanceAs (Decidable (fd ∈ s.registered))

/-- The size is right, and `rtor_reactor_close`, iterating over the table, closes each registered
descriptor once, in increasing order. -/
structure Sound (s : TableRun W) : Prop where
  size : s.table.size = s.registered.length
  closes : ∃ fds, s.table.closeAll = .ok fds ∧ fds.Pairwise (· < ·) ∧
    ∀ fd, fd ∈ fds ↔ fd ∈ s.registered

/-- The descriptor is neither past the table nor its last. -/
def Inside (_ : TableRun W) : Act W → Prop
  | .insert _ fd => fd + 1 < rtorFdtableMax
  | .remove _ => True

/-- The table and the calls agree. -/
structure Agrees (s : TableRun W) : Prop where
  count : s.table.count = s.registered.length
  nodup : s.registered.Nodup
  registered : ∀ fd, s.table.registered fd = true ↔ fd ∈ s.registered

private theorem new_agrees : Agrees (new : TableRun W) := by
  refine ⟨rfl, List.nodup_nil, fun fd => ?_⟩
  have hnone : (FdTable.new : FdTable W).entry fd = none := by
    simp only [FdTable.entry, FdTable.new]
    split
    · rfl
    · rfl
  simp [FdTable.registered, new, hnone]

/-- The registered descriptors lie in the table. -/
theorem Agrees.lt (h : s.Agrees) {fd : ℕ} (hfd : fd ∈ s.registered) : fd < rtorFdtableMax := by
  have hreg := (h.registered fd).mpr hfd
  by_cases hlt : fd < rtorFdtableMax
  · exact hlt
  · simp [FdTable.registered, FdTable.entry, hlt] at hreg

/-- `FdTable_insert` of a descriptor that is not registered. -/
theorem Agrees.step_insert (h : s.Agrees) (watcher : W) {fd : ℕ} (hnot : fd ∉ s.registered) :
    (rtorFdtableMax ≤ fd ∧ ∃ e, s.step (.insert watcher fd) = .error e) ∨
      (fd < rtorFdtableMax ∧ ∃ s', s.step (.insert watcher fd) = .ok s' ∧ Agrees s' ∧
        s'.registered = fd :: s.registered) := by
  by_cases hlt : fd < rtorFdtableMax
  · have hnone : s.table.entries ⟨fd, hlt⟩ = none := by
      have hreg : ¬ s.table.registered fd = true := fun hr => hnot ((h.registered fd).mp hr)
      simpa [FdTable.registered, FdTable.entry, hlt] using hreg
    refine .inr ⟨hlt, ⟨⟨s.table.count + 1,
      Function.update s.table.entries ⟨fd, hlt⟩ (some watcher)⟩, fd :: s.registered⟩, ?_, ?_, rfl⟩
    · simp [step, FdTable.insert, hlt, hnone]
    · refine ⟨congrArg (· + 1) h.count, List.nodup_cons.mpr ⟨hnot, h.nodup⟩, fun fd' => ?_⟩
      have hentry : FdTable.entry ⟨s.table.count + 1, Function.update s.table.entries ⟨fd, hlt⟩
          (some watcher)⟩ fd' = if fd' = fd then some watcher else s.table.entry fd' :=
        FdTable.entry_update
      rw [FdTable.registered, hentry, List.mem_cons, ← h.registered fd']
      by_cases heq : fd' = fd
      · simp [heq]
      · simp [heq, FdTable.registered]
  · refine .inl ⟨Nat.le_of_not_lt hlt,
      ⟨"FdTable_insert", "entries[fd] is past the end of the array"⟩, ?_⟩
    simp only [step, FdTable.insert, dif_neg hlt]
    rfl

/-- `FdTable_remove` of a registered descriptor. -/
theorem Agrees.step_remove (h : s.Agrees) {fd : ℕ} (hmem : fd ∈ s.registered) :
    ∃ s', s.step (.remove fd) = .ok s' ∧ Agrees s' ∧ s'.registered = s.registered.erase fd := by
  have hlt := h.lt hmem
  have hsome : (s.table.entries ⟨fd, hlt⟩).isSome = true := by
    have hreg := (h.registered fd).mpr hmem
    simpa [FdTable.registered, FdTable.entry, hlt] using hreg
  refine ⟨⟨⟨s.table.count - 1, Function.update s.table.entries ⟨fd, hlt⟩ none⟩,
    s.registered.erase fd⟩, ?_, ?_, rfl⟩
  · simp [step, FdTable.remove, hlt, hsome]
  · refine ⟨?_, h.nodup.erase fd, fun fd' => ?_⟩
    · rw [List.length_erase_of_mem hmem, ← h.count]
    · have hentry : FdTable.entry ⟨s.table.count - 1, Function.update s.table.entries ⟨fd, hlt⟩
          none⟩ fd' = if fd' = fd then none else s.table.entry fd' := FdTable.entry_update
      rw [FdTable.registered, hentry, h.nodup.mem_erase_iff, ← h.registered fd']
      by_cases heq : fd' = fd
      · simp [heq]
      · simp [heq, FdTable.registered]

/-- The table can be iterated over as long as its last entry is not in use. -/
theorem Agrees.sound_iff (h : s.Agrees) : Sound s ↔ rtorFdtableMax - 1 ∉ s.registered := by
  rw [← h.registered]
  constructor
  · intro hsound hlast
    obtain ⟨fds, hfds, -⟩ := hsound.closes
    rw [FdTable.closeAll_eq, if_pos hlast] at hfds
    cases hfds
  · intro hlast
    refine ⟨h.count, _, (FdTable.closeAll_eq _).trans (if_neg hlast), ?_, fun fd => ?_⟩
    · exact List.Pairwise.filter _ List.pairwise_lt_range'
    · rw [FdTable.descriptorsFrom, List.mem_filter, h.registered, List.mem_range'_1]
      exact and_iff_right_of_imp fun hfd => ⟨Nat.zero_le fd, by rw [Nat.zero_add]; exact h.lt hfd⟩

private theorem agrees_step {a : Act W} (h : Agrees s) (hc : s.Contract a)
    (hs : s.step a = .ok s') :
    Agrees s' := by
  cases a with
  | insert watcher fd =>
    rcases h.step_insert watcher hc with ⟨-, e, he⟩ | ⟨-, t, ht, hagrees, -⟩
    · cases hs.symm.trans he
    · cases hs.symm.trans ht
      exact hagrees
  | remove fd =>
    obtain ⟨t, ht, hagrees, -⟩ := h.step_remove hc
    cases hs.symm.trans ht
    exact hagrees

/-- **One call.** It goes through and leaves a table that can be iterated over, exactly if the
descriptor is neither past the table nor its last. -/
theorem sound_step_iff {a : Act W} (h : Agrees s) (hc : s.Contract a) (hsound : Sound s) :
    (∃ s', s.step a = .ok s' ∧ Sound s') ↔ s.Inside a := by
  have hlast := h.sound_iff.mp hsound
  cases a with
  | insert watcher fd =>
    rcases h.step_insert watcher hc with ⟨hle, e, he⟩ | ⟨hlt, t, ht, hagrees, hregistered⟩
    · refine iff_of_false ?_ (Nat.not_lt.mpr (Nat.le_succ_of_le hle))
      rintro ⟨t, ht, -⟩
      cases he.symm.trans ht
    · have hiff : Sound t ↔ fd + 1 < rtorFdtableMax := by
        rw [hagrees.sound_iff, hregistered, List.mem_cons, not_or, and_iff_left hlast]
        omega
      rw [ht]
      constructor
      · rintro ⟨t', ht', hsound'⟩
        cases ht'
        exact hiff.mp hsound'
      · exact fun hin => ⟨t, rfl, hiff.mpr hin⟩
  | remove fd =>
    obtain ⟨t, ht, hagrees, hregistered⟩ := h.step_remove hc
    refine iff_of_true ⟨t, ht, hagrees.sound_iff.mpr fun hmem => hlast ?_⟩ trivial
    rw [hregistered] at hmem
    exact List.mem_of_mem_erase hmem

/-- **The table of watchers.** Descriptors are registered once and removed when they are there.
Every access lies in the table, the size is the number of registered descriptors, and after every
call `rtor_reactor_close` would close each of them once in increasing order, exactly if every
descriptor registered is below the last of the table. -/
theorem tableRun_sound_iff {as : List (Act W)}
    (hc : Machine.Along step Contract (new : TableRun W) as) :
    ((∃ t, Machine.run step (new : TableRun W) as = .ok t) ∧
      Machine.Always step Sound (new : TableRun W) as) ↔
      Machine.Along step Inside (new : TableRun W) as :=
  Machine.run_ok_always_iff_along_of (fun _ _ _ => agrees_step) (fun _ _ => sound_step_iff)
    new_agrees (new_agrees.sound_iff.mpr List.not_mem_nil) hc

/-- Two descriptors are registered, and the smaller removed. -/
theorem tableRun_sound_two :
    (∃ t, Machine.run step (new : TableRun Unit) [.insert () 5, .insert () 3, .remove 3] = .ok t) ∧
      Machine.Always step Sound (new : TableRun Unit)
        [.insert () 5, .insert () 3, .remove 3] := by
  have hc : Machine.Along step Contract (new : TableRun Unit)
      [.insert () 5, .insert () 3, .remove 3] := by
    decide +kernel
  refine (tableRun_sound_iff hc).mpr (Machine.along_of_forall ?_)
  simp [Inside, rtorFdtableMax, rtorMaxFds]

/-- The last descriptor of the table is registered: the reactor cannot be closed. -/
theorem not_sound_last :
    Machine.Along step Contract (new : TableRun Unit) [.insert () 1023] ∧
      ¬ Machine.Always step Sound (new : TableRun Unit) [.insert () 1023] := by
  have hc : (new : TableRun Unit).Contract (.insert () 1023) := List.not_mem_nil
  rcases new_agrees.step_insert () hc with ⟨hle, -⟩ | ⟨-, t, ht, hagrees, hregistered⟩
  · exact absurd hle (by decide)
  · refine ⟨(Machine.along_cons_ok ht).mpr ⟨hc, trivial⟩, fun hall => ?_⟩
    have hsound : Sound t := ((Machine.always_cons_ok ht).mp hall).2
    refine hagrees.sound_iff.mp hsound ?_
    rw [hregistered]
    exact List.mem_cons_self

end TableRun

end CHttp
