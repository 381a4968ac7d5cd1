import CHttp.ForMathlib.Except
import CHttp.Runloop.ReactorRun

/-!
# What one step of the loop can do

The parts of `rtor_reactor_run` between two calls of foreign code leave the history alone
(`Moved`), and the operations that handlers and functors call add to the ready list what they post
and change nothing else of the history (`Ran`). `Stepped` puts them together: every step that does
not abort is one of seven, with the state afterwards written out.
-/

namespace CHttp

namespace FdTable

variable {W : Type} {this this' : FdTable W} {fd : ℕ}

/-- Writing one entry. -/
theorem entry_update {entries : Fin rtorFdtableMax → Option W} {count count' fd' : ℕ}
    {h : fd < rtorFdtableMax} {v : Option W} :
    entry ⟨count', Function.update entries ⟨fd, h⟩ v⟩ fd' =
      if fd' = fd then v else entry ⟨count, entries⟩ fd' := by
  unfold entry
  by_cases heq : fd' = fd
  · subst heq
    rw [if_pos rfl, dif_pos h]
    exact Function.update_self ..
  · rw [if_neg heq]
    split
    · exact Function.update_of_ne (by simpa using heq) ..
    · rfl

/-- `FdTable_insert` keeps the entries that are there. -/
theorem entry_of_insert {watcher w : W} {fd' : ℕ} (h : this.insert watcher fd = .ok this')
    (he : this.entry fd' = some w) : this'.entry fd' = some w := by
  unfold insert at h
  split at h
  · rename_i hlt
    rw [Except.bind_eq_ok] at h
    obtain ⟨⟨⟩, hnone, heq⟩ := h
    cases heq
    -- the entry to be written is empty
    have hne : fd' ≠ fd := by
      rintro rfl
      rw [entry, dif_pos hlt] at he
      rw [he] at hnone
      cases hnone
    exact (entry_update.trans (if_neg hne)).trans he
  · cases h

/-- `FdTable_remove` keeps the other entries. -/
theorem entry_of_remove {fd' : ℕ} (h : this.remove fd = .ok this') (hne : fd' ≠ fd) :
    this'.entry fd' = this.entry fd' := by
  unfold remove at h
  split at h
  · rw [Except.bind_eq_ok] at h
    obtain ⟨⟨⟩, -, heq⟩ := h
    cases heq
    exact entry_update.trans (if_neg hne)
  · cases h

end FdTable

namespace RtorReactor

variable {W F A : Type} {r r' : RtorReactor W F A} {fd : ℕ}

/-- The ready list was left alone, and so were the entries of all descriptors but some. -/
structure Kept (r r' : RtorReactor W F A) (fds : List ℕ) : Prop where
  readyList : r'.readyList = r.readyList
  entry : ∀ fd ∉ fds, ∀ w, r.table.entry fd = some w → r'.table.entry fd = some w

private theorem kept_of_epollCtl {op : EpollCtl} {interest : UInt32}
    (h : r.rtorEpollCtl op fd interest = .ok r') : Kept r r' [] := by
  simp only [rtorEpollCtl, Except.bind_eq_ok] at h
  obtain ⟨⟨⟩, -, heq⟩ := h
  cases heq
  exact ⟨rfl, fun _ _ _ he => he⟩

private theorem kept_of_register {interest : UInt32} {wref : W}
    (h : r.register fd interest wref = .ok r') : Kept r r' [] := by
  simp only [register, Except.bind_eq_ok] at h
  obtain ⟨r₁, h₁, table, hinsert, heq⟩ := h
  have hkept := kept_of_epollCtl h₁
  cases heq
  exact ⟨hkept.readyList, fun fd' hfd w he =>
    FdTable.entry_of_insert hinsert (hkept.entry fd' hfd w he)⟩

private theorem kept_of_enableInterthreadQueue {wref : W}
    (h : r.enableInterthreadQueue fd wref = .ok r') : Kept r r' [] := by
  have hkept := kept_of_register (r := { r with interthreadQueue := some fd }) h
  exact ⟨hkept.readyList, hkept.entry⟩

private theorem kept_of_deregister (h : r.deregister fd = .ok r') : Kept r r' [fd] := by
  simp only [deregister, Except.bind_eq_ok] at h
  obtain ⟨-, -, r₁, h₁, table, hremove, heq⟩ := h
  have hkept := kept_of_epollCtl h₁
  cases heq
  refine ⟨hkept.readyList, fun fd' hfd w he => ?_⟩
  rw [FdTable.entry_of_remove hremove (List.ne_of_not_mem_cons hfd)]
  exact hkept.entry fd' List.not_mem_nil w he

private theorem kept_of_reregister [DecidableEq W] {interest : UInt32} {wref : W}
    (h : r.reregister fd interest wref = .ok r') : Kept r r' [] := by
  simp only [reregister, Except.bind_eq_ok] at h
  obtain ⟨-, -, r₁, h₁, -, -, ⟨⟩, -, heq⟩ := h
  cases heq
  exact kept_of_epollCtl h₁

private theorem kept_of_delete (h : r.delete fd = .ok r') : Kept r r' [fd] := by
  simp only [delete, Except.bind_eq_ok] at h
  obtain ⟨-, -, table, hremove, heq⟩ := h
  cases heq
  refine ⟨rfl, fun fd' hfd w he => ?_⟩
  rw [FdTable.entry_of_remove hremove (List.ne_of_not_mem_cons hfd)]
  exact he

private theorem kept_of_close (h : r.close = .ok r') : Kept r r' [] := by
  simp only [close, Except.bind_eq_ok] at h
  obtain ⟨⟨⟩, -, ⟨⟩, -, heq⟩ := h
  cases heq
  exact ⟨rfl, fun _ _ _ he => he⟩

end RtorReactor

namespace ReactorRun

variable {W F A : Type} {s s' : ReactorRun W F A}

/-! ### What the loop does between calls -/

/-- Nothing was posted, executed or dispatched. -/
structure Moved (s s' : ReactorRun W F A) : Prop where
  posted : s'.posted = s.posted
  executed : s'.executed = s.executed
  dispatched : s'.dispatched = s.dispatched
  readyList : s'.reactor.readyList = s.reactor.readyList

private theorem epollWait_moved (h : s.epollWait = .ok s') :
    Moved s s' ∧ s'.control = .waiting ∧ s.reactor.readyList.size = 0 := by
  unfold epollWait at h
  split at h
  · cases h
    exact ⟨⟨rfl, rfl, rfl, rfl⟩, rfl, ‹_›⟩
  · cases h

/-- The top of the loop: it waits, with an empty ready list, or returns. -/
theorem top_moved (h : s.top = .ok s') : Moved s s' ∧
    (s'.control = .waiting ∧ s.reactor.readyList.size = 0 ∨ s'.control = .returned) := by
  unfold top at h
  split at h
  · cases h
    exact ⟨⟨rfl, rfl, rfl, rfl⟩, Or.inr rfl⟩
  · split at h
    · split at h
      · rw [Except.bind_eq_ok] at h
        obtain ⟨r, hr, heq⟩ := h
        have hready := (RtorReactor.kept_of_deregister (Except.mapError_eq_ok.mp hr)).readyList
        cases heq
        exact ⟨⟨rfl, rfl, rfl, hready⟩, Or.inr rfl⟩
      · exact (epollWait_moved h).imp_right Or.inl
    · exact (epollWait_moved h).imp_right Or.inl

/-- The start of the inner loop: it is over when the ready list is empty. -/
theorem drain_moved (h : s.drain = .ok s') : Moved s s' ∧
    (s.reactor.readyList.size = 0 ∨ s'.control = .draining) := by
  unfold drain at h
  split at h
  · exact (top_moved h).imp_right fun _ => Or.inl ‹_›
  · cases h
    exact ⟨⟨rfl, rfl, rfl, rfl⟩, Or.inr rfl⟩

theorem nextEvent_moved {rest : List (Event W)} (h : s.nextEvent rest = .ok s') : Moved s s' ∧
    (s.reactor.readyList.size = 0 ∨ s'.control ≠ .waiting ∧ s'.control ≠ .returned) := by
  cases rest with
  | nil =>
    refine (drain_moved h).imp_right (Or.imp_right fun hc => ?_)
    rw [hc]
    exact ⟨nofun, nofun⟩
  | cons ev rest =>
    cases h
    exact ⟨⟨rfl, rfl, rfl, rfl⟩, Or.inr ⟨nofun, nofun⟩⟩

theorem wait_moved {ready : Option (List (ℕ × UInt32))} (h : s.wait ready = .ok s') :
    Moved s s' := by
  cases ready with
  | none =>
    cases h
    exact ⟨rfl, rfl, rfl, rfl⟩
  | some ps =>
    cases ps with
    | nil =>
      cases h
      exact ⟨rfl, rfl, rfl, rfl⟩
    | cons p ps =>
      simp only [wait] at h
      split at h
      · have hmoved := (nextEvent_moved h).1
        exact ⟨hmoved.posted, hmoved.executed, hmoved.dispatched, hmoved.readyList⟩
      · cases h
        exact ⟨rfl, rfl, rfl, rfl⟩

/-- The two assertions at the top of the loop. -/
theorem top_error {e : RunFault} (h : s.top = .error e) :
    e = .notDrained ∧ s.reactor.readyList.size ≠ 0 ∨ ∃ abort, e = .loop abort := by
  have hwait : s.epollWait = .error e → e = .notDrained ∧ s.reactor.readyList.size ≠ 0 := by
    intro hw
    unfold epollWait at hw
    split at hw
    · cases hw
    · cases hw
      exact ⟨rfl, ‹_›⟩
  unfold top at h
  split at h
  · cases h
  · split at h
    · split at h
      · rw [Except.bind_eq_error, Except.mapError_eq_error] at h
        obtain ⟨abort, -, rfl⟩ | ⟨r, -, heq⟩ := h
        · exact Or.inr ⟨abort, rfl⟩
        · cases heq
      · exact Or.inl (hwait h)
    · exact Or.inl (hwait h)

/-- After the inner loop the ready list is empty. -/
theorem drain_error {e : RunFault} (h : s.drain = .error e) : ∃ abort, e = .loop abort := by
  unfold drain at h
  split at h
  · rcases top_error h with ⟨-, hne⟩ | hloop
    · exact absurd ‹_› hne
    · exact hloop
  · cases h

private theorem nextEvent_error {rest : List (Event W)} {e : RunFault}
    (h : s.nextEvent rest = .error e) :
    ∃ abort, e = .loop abort := by
  cases rest with
  | nil => exact drain_error h
  | cons ev rest => cases h

private theorem wait_error {ready : Option (List (ℕ × UInt32))} {e : RunFault}
    (h : s.wait ready = .error e) : ∃ abort, e = .loop abort := by
  cases ready with
  | none => cases h
  | some ps =>
    cases ps with
    | nil => cases h
    | cons p ps =>
      simp only [wait] at h
      split at h
      · exact nextEvent_error h
      · cases h

/-! ### What operations do -/

/-- What operations leave alone, what they add to the ready list, and which entries they keep. -/
structure Ran (s s' : ReactorRun W F A) : Prop where
  control : s'.control = s.control
  executed : s'.executed = s.executed
  dispatched : s'.dispatched = s.dispatched
  posted : ∃ fs, s'.posted = s.posted ++ fs ∧ (s.reactor.readyList.Valid →
    s'.reactor.readyList.Valid ∧
      s'.reactor.readyList.toList = s.reactor.readyList.toList ++ fs)
  removed : s.removed ⊆ s'.removed
  entry : ∀ fd ∉ s'.removed, ∀ w,
    s.reactor.table.entry fd = some w → s'.reactor.table.entry fd = some w

theorem Ran.refl (s : ReactorRun W F A) : Ran s s :=
  ⟨rfl, rfl, rfl, ⟨[], by simp, fun h => ⟨h, by simp⟩⟩, List.Subset.refl _, fun _ _ _ he => he⟩

theorem Ran.trans {s s' s'' : ReactorRun W F A} (h : Ran s s') (h' : Ran s' s'') : Ran s s'' := by
  obtain ⟨fs, hp, hq⟩ := h.posted
  obtain ⟨fs', hp', hq'⟩ := h'.posted
  refine ⟨h'.control.trans h.control, h'.executed.trans h.executed,
    h'.dispatched.trans h.dispatched, ⟨fs ++ fs', ?_, fun hv => ?_⟩,
    List.Subset.trans h.removed h'.removed, fun fd hfd w he => ?_⟩
  · rw [hp', hp, List.append_assoc]
  · obtain ⟨hv₁, hl₁⟩ := hq hv
    obtain ⟨hv₂, hl₂⟩ := hq' hv₁
    exact ⟨hv₂, by rw [hl₂, hl₁, List.append_assoc]⟩
  · exact h'.entry fd hfd w (h.entry fd (fun hmem => hfd (h'.removed hmem)) w he)

/-- An operation that changes the reactor and does not post. -/
theorem Ran.of_kept {x : Except Abort (RtorReactor W F A)} {fds : List ℕ}
    (hx : ∀ r, x = .ok r → s.reactor.Kept r fds)
    (h : (do return { s with reactor := ← x, removed := fds ++ s.removed }) = .ok s') :
    Ran s s' := by
  rw [Except.bind_eq_ok] at h
  obtain ⟨r, hr, heq⟩ := h
  have hkept := hx r hr
  cases heq
  refine ⟨rfl, rfl, rfl, ⟨[], by simp, fun hv => ?_⟩, List.subset_append_right .., ?_⟩
  · simpa [hkept.readyList] using hv
  · intro fd hfd w he
    exact hkept.entry fd (fun hmem => hfd (List.mem_append_left _ hmem)) w he

section
variable [DecidableEq W]

/-- **One operation.** -/
theorem ran_of_operation {op : ReactorOp W F A} (h : s.operation op = .ok s') : Ran s s' := by
  cases op with
  | register => exact .of_kept (fun _ => RtorReactor.kept_of_register) h
  | deregister => exact .of_kept (fun _ => RtorReactor.kept_of_deregister) h
  | reregister => exact .of_kept (fun _ => RtorReactor.kept_of_reregister) h
  | delete => exact .of_kept (fun _ => RtorReactor.kept_of_delete) h
  | enableInterthreadQueue =>
    exact .of_kept (fun _ => RtorReactor.kept_of_enableInterthreadQueue) h
  | post cb arg =>
    simp only [operation, RtorReactor.post, Except.bind_eq_ok] at h
    obtain ⟨r, ⟨lst, hadd, hr⟩, heq⟩ := h
    cases hr
    cases heq
    exact ⟨rfl, rfl, rfl, ⟨[⟨cb, arg⟩], rfl, fun hv => FunctorList.toList_of_add hv hadd⟩,
      List.Subset.refl _, fun _ _ _ he => he⟩
  | closeReactor => exact .of_kept (fun _ => RtorReactor.kept_of_close) h
  | close fd =>
    cases h
    exact ⟨rfl, rfl, rfl, ⟨[], by simp, fun hv => ⟨hv, by simp⟩⟩, List.Subset.refl _,
      fun _ _ _ he => he⟩
  | free wref =>
    cases h
    exact ⟨rfl, rfl, rfl, ⟨[], by simp, fun hv => ⟨hv, by simp⟩⟩, List.Subset.refl _,
      fun _ _ _ he => he⟩

/-- **All of a handler's operations.** -/
theorem ran_of_operations {ops : List (ReactorOp W F A)} (h : s.operations ops = .ok s') :
    Ran s s' := by
  rw [operations, Except.mapError_eq_ok] at h
  induction ops generalizing s with
  | nil =>
    cases h
    exact .refl _
  | cons op ops ih =>
    rw [List.foldlM_cons, Except.bind_eq_ok] at h
    obtain ⟨s₁, h₁, h₂⟩ := h
    exact (ran_of_operation h₁).trans (ih h₂)

/-- Operations abort with their own assertions only. -/
theorem operations_error {ops : List (ReactorOp W F A)} {e : RunFault}
    (h : s.operations ops = .error e) : ∃ abort, e = .operation abort := by
  rw [operations, Except.mapError_eq_error] at h
  obtain ⟨abort, -, rfl⟩ := h
  exact ⟨abort, rfl⟩

/-! ### Steps -/

/-- The action is for the point where the loop stands. -/
def Fits (s : ReactorRun W F A) : Act W F A → Prop
  | .operation _ | .run => s.control = .outside ∨ s.control = .returned
  | .wait _ => s.control = .waiting
  | .dispatch => ∃ ev rest, s.control = .dispatching ev rest
  | .handler _ => ∃ wref rest, s.control = .handling wref rest
  | .functor _ => s.control = .draining

/-- What a step can do. -/
inductive Stepped (s : ReactorRun W F A) : Act W F A → ReactorRun W F A → Prop
  | stay {a : Act W F A} (hfit : ¬ s.Fits a) : Stepped s a s
  | operation {op : ReactorOp W F A} {s₁ : ReactorRun W F A}
      (hc : s.control = .outside ∨ s.control = .returned) (hran : Ran s s₁) :
      Stepped s (.operation op) { s₁ with control := .outside }
  | run {s' : ReactorRun W F A} (hc : s.control = .outside ∨ s.control = .returned)
      (htop : s.top = .ok s') : Stepped s .run s'
  | wait {ready : Option (List (ℕ × UInt32))} {s' : ReactorRun W F A} (hc : s.control = .waiting)
      (hwait : s.wait ready = .ok s') : Stepped s (.wait ready) s'
  | dispatch {ev : Event W} {rest : List (Event W)} {wref : W}
      (hc : s.control = .dispatching ev rest) (hentry : s.reactor.table.entry ev.fd = some wref)
      (hlive : wref ∉ s.freed) :
      Stepped s .dispatch { s with
        control := .handling wref rest
        dispatched := s.dispatched ++ [⟨ev.fd, ev.reported, ev.fd ∈ s.removed, wref⟩] }
  | handler {wref : W} {rest : List (Event W)} {ops : List (ReactorOp W F A)}
      {s₁ s' : ReactorRun W F A} (hc : s.control = .handling wref rest) (hran : Ran s s₁)
      (hnext : s₁.nextEvent rest = .ok s') : Stepped s (.handler ops) s'
  | functor {ops : List (ReactorOp W F A)} {func : Functor F A}
      {readyList : FunctorList (Functor F A)} {s₁ s' : ReactorRun W F A}
      (hc : s.control = .draining) (hremove : s.reactor.readyList.remove = .ok (func, readyList))
      (hran : Ran { s with reactor.readyList := readyList, executed := s.executed ++ [func] } s₁)
      (hdrain : s₁.drain = .ok s') : Stepped s (.functor ops) s'

/-- The dispatch of an event. -/
theorem dispatch_eq_ok {ev : Event W} {rest : List (Event W)} :
    s.dispatch ev rest = .ok s' ↔ ∃ wref, s.reactor.table.entry ev.fd = some wref ∧
      wref ∉ s.freed ∧ s' = { s with
        control := .handling wref rest
        dispatched := s.dispatched ++ [⟨ev.fd, ev.reported, ev.fd ∈ s.removed, wref⟩] } := by
  simp only [dispatch, Except.bind_eq_ok, Except.mapError_eq_ok, FdTable.lookup_eq_ok]
  refine exists_congr fun wref => and_congr_right fun _ => ?_
  by_cases hfreed : wref ∈ s.freed
  · rw [if_pos hfreed]
    exact iff_of_false nofun fun h => h.1 hfreed
  · rw [if_neg hfreed, Except.pure_eq_ok, Except.ok.injEq, eq_comm]
    exact (and_iff_right hfreed).symm

private theorem dispatch_error {ev : Event W} {rest : List (Event W)} {e : RunFault}
    (h : s.dispatch ev rest = .error e) : ∃ abort, e = .dispatch abort := by
  rw [dispatch, Except.bind_eq_error, Except.mapError_eq_error] at h
  obtain ⟨abort, -, rfl⟩ | ⟨wref, -, hs⟩ := h
  · exact ⟨abort, rfl⟩
  · split at hs
    · cases hs
      exact ⟨_, rfl⟩
    · cases hs

/-- **Steps.** Every step that does not abort is one of these. -/
theorem stepped_of_step {a : Act W F A} (h : s.step a = .ok s') : Stepped s a s' := by
  have hop : ∀ {op}, s.control = .outside ∨ s.control = .returned →
      (do return { ← s.operations [op] with control := .outside } :
        Except RunFault (ReactorRun W F A)) = .ok s' → Stepped s (.operation op) s' := by
    intro op hc hs
    rw [Except.bind_eq_ok] at hs
    obtain ⟨s₁, h₁, heq⟩ := hs
    cases heq
    exact .operation hc (ran_of_operations h₁)
  unfold step at h
  split at h
  · exact hop (Or.inl ‹_›) h
  · exact hop (Or.inr ‹_›) h
  · exact .run (Or.inl ‹_›) h
  · exact .run (Or.inr ‹_›) h
  · exact .wait ‹_› h
  · obtain ⟨wref, hentry, hlive, rfl⟩ := dispatch_eq_ok.mp h
    exact .dispatch ‹_› hentry hlive
  · rw [Except.bind_eq_ok] at h
    obtain ⟨s₁, h₁, h₂⟩ := h
    exact .handler ‹_› (ran_of_operations h₁) h₂
  · simp only [functor, Except.bind_eq_ok, Except.mapError_eq_ok] at h
    obtain ⟨⟨func, readyList⟩, hremove, s₁, h₁, h₂⟩ := h
    exact .functor ‹_› hremove (ran_of_operations h₁) h₂
  · rename_i act _ _ hop₁ hop₂ hrun₁ hrun₂ hwait hdispatch hhandler hfunctor
    cases h
    refine .stay fun hfit => ?_
    cases act with
    | operation op => exact hfit.elim (hop₁ op · rfl) (hop₂ op · rfl)
    | run => exact hfit.elim (hrun₁ · rfl) (hrun₂ · rfl)
    | wait ready => exact hwait ready hfit rfl
    | dispatch =>
      obtain ⟨ev, rest, hc⟩ := hfit
      exact hdispatch ev rest hc rfl
    | handler ops =>
      obtain ⟨wref, rest, hc⟩ := hfit
      exact hhandler wref rest ops hc rfl
    | functor ops => exact hfunctor ops hfit rfl

/-- How a step can abort. -/
inductive Faulted (s : ReactorRun W F A) : Act W F A → RunFault → Prop
  | operation {a : Act W F A} {e : Abort} (hd : a ≠ .dispatch) (hr : a ≠ .run) :
      Faulted s a (.operation e)
  | dispatch {ev : Event W} {rest : List (Event W)} {e : Abort}
      (hc : s.control = .dispatching ev rest)
      (hdispatch : s.dispatch ev rest = .error (.dispatch e)) : Faulted s .dispatch (.dispatch e)
  | notDrained (hc : s.control = .outside ∨ s.control = .returned)
      (hsize : s.reactor.readyList.size ≠ 0) : Faulted s .run .notDrained
  | loop {a : Act W F A} {e : Abort} (hd : a ≠ .dispatch) : Faulted s a (.loop e)

/-- **Aborts.** Every step that aborts does so in one of these ways. -/
theorem faulted_of_step {a : Act W F A} {e : RunFault} (h : s.step a = .error e) :
    Faulted s a e := by
  have hop : ∀ {op}, (do return { ← s.operations [op] with control := .outside } :
      Except RunFault (ReactorRun W F A)) = .error e → Faulted s (.operation op) e := by
    intro op hs
    rw [Except.bind_eq_error] at hs
    obtain hs | ⟨s₁, -, heq⟩ := hs
    · obtain ⟨abort, rfl⟩ := operations_error hs
      exact .operation nofun nofun
    · cases heq
  have htop : s.control = .outside ∨ s.control = .returned → s.top = .error e →
      Faulted s .run e := by
    intro hc hs
    obtain ⟨rfl, hsize⟩ | ⟨abort, rfl⟩ := top_error hs
    · exact .notDrained hc hsize
    · exact .loop nofun
  unfold step at h
  split at h
  · exact hop h
  · exact hop h
  · exact htop (Or.inl ‹_›) h
  · exact htop (Or.inr ‹_›) h
  · obtain ⟨abort, rfl⟩ := wait_error h
    exact .loop nofun
  · obtain ⟨abort, rfl⟩ := dispatch_error h
    exact .dispatch ‹_› h
  · rw [Except.bind_eq_error] at h
    obtain hs | ⟨s₁, -, hs⟩ := h
    · obtain ⟨abort, rfl⟩ := operations_error hs
      exact .operation nofun nofun
    · obtain ⟨abort, rfl⟩ := nextEvent_error hs
      exact .loop nofun
  · rw [functor, Except.bind_eq_error, Except.mapError_eq_error] at h
    obtain ⟨abort, -, rfl⟩ | ⟨⟨func, readyList⟩, -, hs⟩ := h
    · exact .loop nofun
    · rw [Except.bind_eq_error] at hs
      obtain hs | ⟨s₁, -, hs⟩ := hs
      · obtain ⟨abort, rfl⟩ := operations_error hs
        exact .operation nofun nofun
      · obtain ⟨abort, rfl⟩ := drain_error hs
        exact .loop nofun
  · cases h

end

end ReactorRun

end CHttp
