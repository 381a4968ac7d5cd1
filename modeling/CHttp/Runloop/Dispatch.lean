import CHttp.ForMathlib.Machine
import CHttp.Runloop.ReactorSteps

/-!
# Dispatch

`epoll_wait` reports a batch of descriptors, and `rtor_reactor_run` looks each of them up in the
table when its turn comes. By then the handlers of the events before it have run, and the table may
not be the one the batch was reported for: the loop keeps no record of what was deregistered. So a
handler that deregisters a descriptor later in the batch, as the one in `test_timer_disarm.c` does,
makes the lookup fail, and if it registers another watcher for the same number, that one is called
for an event that was not its own.

`Current` is what the loop does keep: a pending event whose descriptor was not removed from the
table still has its entry. With it, `dispatch_safe_iff` says exactly which runs are safe.
-/

namespace CHttp

variable {W F A : Type}

/-- The events of the batch that are still to be dispatched. -/
def ReactorControl.pending : ReactorControl W → List (Event W)
  | .dispatching ev rest => ev :: rest
  | .handling _ rest => rest
  | .outside | .waiting | .draining | .returned => []

/-- The watcher called is the one that the descriptor had when the event was reported, and the
descriptor was not removed from the table since. -/
def Dispatch.Safe (d : Dispatch W) : Prop :=
  d.stale = false ∧ d.reported = some d.called

instance [DecidableEq W] (d : Dispatch W) : Decidable d.Safe :=
  inferInstanceAs (Decidable (_ ∧ _))

namespace ReactorRun

variable {s s' : ReactorRun W F A} {evs rest : List (Event W)}

/-! ### The entries of pending events -/

/-- An event whose descriptor was not removed from the table since the batch was reported still has
the entry it was reported with. -/
def Current (s : ReactorRun W F A) (evs : List (Event W)) : Prop :=
  ∀ ev ∈ evs, ev.fd ∉ s.removed → ∀ w, ev.reported = some w →
    s.reactor.table.entry ev.fd = some w

private theorem current_nil : s.Current [] := fun _ hmem => absurd hmem List.not_mem_nil

/-- What a handler does keeps the entries of the events after it. -/
theorem Ran.current (h : Ran s s') (hc : s.Current evs) : s'.Current evs := by
  intro ev hmem hfd w hw
  have hfd' : ev.fd ∉ s.removed := fun hin => hfd (h.removed hin)
  exact h.entry ev.fd hfd w (hc ev hmem hfd' w hw)

private theorem top_pending (h : s.top = .ok s') : s'.control.pending = [] := by
  obtain ⟨-, ⟨hc, -⟩ | hc⟩ := top_moved h
  · rw [hc, ReactorControl.pending]
  · rw [hc, ReactorControl.pending]

private theorem drain_pending (h : s.drain = .ok s') : s'.control.pending = [] := by
  unfold drain at h
  split at h
  · exact top_pending h
  · cases h
    rfl

private theorem nextEvent_current (hc : s.Current rest) (h : s.nextEvent rest = .ok s') :
    s'.Current s'.control.pending := by
  cases rest with
  | nil =>
    rw [drain_pending h]
    exact current_nil
  | cons ev rest =>
    cases h
    exact hc

/-- When the batch is reported, the entries are the reported ones. -/
theorem wait_current {ready : Option (List (ℕ × UInt32))} (hc : s.Current s.control.pending)
    (h : s.wait ready = .ok s') : s'.Current s'.control.pending := by
  cases ready with
  | none =>
    cases h
    exact current_nil
  | some ps =>
    cases ps with
    | nil =>
      cases h
      exact current_nil
    | cons p ps =>
      simp only [wait] at h
      split at h
      · refine nextEvent_current ?_ h
        intro ev hmem _ w hw
        obtain ⟨q, -, rfl⟩ := List.mem_map.mp hmem
        exact hw
      · cases h
        exact hc

/-- **Current entries.** Every step keeps the entries of pending events current. -/
theorem Stepped.current {a : Act W F A} (h : Stepped s a s') (hc : s.Current s.control.pending) :
    s'.Current s'.control.pending := by
  cases h with
  | stay => exact hc
  | operation => exact current_nil
  | run _ htop =>
    rw [top_pending htop]
    exact current_nil
  | wait _ hwait => exact wait_current hc hwait
  | dispatch hcontrol =>
    rw [hcontrol] at hc
    exact fun ev hmem => hc ev (List.mem_cons_of_mem _ hmem)
  | handler hcontrol hran hnext =>
    rw [hcontrol] at hc
    exact nextEvent_current (hran.current hc) hnext
  | functor _ _ _ hdrain =>
    rw [drain_pending hdrain]
    exact current_nil

/-! ### Safe dispatch -/

/-- Every call of a handler so far was safe. -/
def SafeSoFar (s : ReactorRun W F A) : Prop := ∀ d ∈ s.dispatched, d.Safe

/-- The event whose turn it is was reported for a watcher that has not been freed, and its
descriptor was not removed from the table since. -/
def Undisturbed (s : ReactorRun W F A) (a : Act W F A) : Prop :=
  a = .dispatch → ∀ ev rest, s.control = .dispatching ev rest →
    ev.fd ∉ s.removed ∧ ∃ w, ev.reported = some w ∧ w ∉ s.freed

/-- A step other than a dispatch calls no handler. -/
theorem Stepped.dispatched {a : Act W F A} (h : Stepped s a s') (ha : ¬ (a = .dispatch ∧ s.Fits a)) :
    s'.dispatched = s.dispatched := by
  cases h with
  | stay => rfl
  | operation _ hran => exact hran.dispatched
  | run _ htop => exact (top_moved htop).1.dispatched
  | wait _ hwait => exact (wait_moved hwait).dispatched
  | dispatch hcontrol => exact absurd ⟨rfl, _, _, hcontrol⟩ ha
  | handler _ hran hnext => exact (nextEvent_moved hnext).1.dispatched.trans hran.dispatched
  | functor _ _ hran hdrain => exact (drain_moved hdrain).1.dispatched.trans hran.dispatched

private theorem undisturbed_of_not_fits {a : Act W F A} (ha : ¬ (a = .dispatch ∧ s.Fits a)) :
    s.Undisturbed a := by
  rintro rfl ev rest hc
  exact absurd ⟨rfl, ev, rest, hc⟩ ha

/-- An undisturbed event finds its watcher. -/
theorem Undisturbed.entry {ev : Event W} (h : s.Undisturbed .dispatch)
    (hcontrol : s.control = .dispatching ev rest) (hc : s.Current s.control.pending) :
    ∃ w, ev.reported = some w ∧ w ∉ s.freed ∧ s.reactor.table.entry ev.fd = some w := by
  obtain ⟨hfd, w, hw, hlive⟩ := h rfl ev rest hcontrol
  rw [hcontrol] at hc
  exact ⟨w, hw, hlive, hc ev List.mem_cons_self hfd w hw⟩

/-- **A dispatch.** It is safe exactly when its event is undisturbed. -/
theorem safeSoFar_iff_undisturbed {a : Act W F A} (h : Stepped s a s')
    (hc : s.Current s.control.pending) (hs : s.SafeSoFar) : s'.SafeSoFar ↔ s.Undisturbed a := by
  by_cases ha : a = .dispatch ∧ s.Fits a
  · cases h with
    | stay hfit => exact absurd ha.2 hfit
    | @dispatch ev rest wref hcontrol hentry hlive =>
      constructor
      · intro hs' _ ev' rest' hcontrol'
        rw [hcontrol] at hcontrol'
        cases hcontrol'
        obtain ⟨hstale, hreported⟩ := hs' _ (List.mem_append_right _ List.mem_cons_self)
        exact ⟨of_decide_eq_false hstale, wref, hreported, hlive⟩
      · intro hu d hd
        obtain hd | hd := List.mem_append.mp hd
        · exact hs d hd
        · rw [List.mem_singleton] at hd
          subst hd
          obtain ⟨w, hw, -, hentry'⟩ := hu.entry hcontrol hc
          rw [hentry, Option.some.injEq] at hentry'
          subst hentry'
          exact ⟨decide_eq_false (hu rfl ev rest hcontrol).1, hw⟩
    | operation | run | wait | handler | functor => cases ha.1
  · rw [SafeSoFar, h.dispatched ha]
    exact iff_of_true hs (undisturbed_of_not_fits ha)

section
variable [DecidableEq W]

/-- The dispatch of an undisturbed event does not abort, and other steps do not abort in one. -/
theorem fault_iff_undisturbed {a : Act W F A} {e : RunFault} (hc : s.Current s.control.pending)
    (h : s.step a = .error e) : (¬ ∃ abort, e = .dispatch abort) ↔ s.Undisturbed a := by
  cases faulted_of_step h with
  | operation hd => exact iff_of_true nofun fun ha => absurd ha hd
  | dispatch hcontrol hdispatch =>
    refine iff_of_false (fun hne => hne ⟨_, rfl⟩) fun hu => ?_
    obtain ⟨w, -, hlive, hentry⟩ := hu.entry hcontrol hc
    rw [dispatch_eq_ok.mpr ⟨w, hentry, hlive, rfl⟩] at hdispatch
    cases hdispatch
  | notDrained => exact iff_of_true nofun nofun
  | loop hd => exact iff_of_true nofun fun ha => absurd ha hd

/-- **Dispatch safety.** Whatever the handlers do, no lookup of the loop fails, no freed watcher is
used, and every event goes to the watcher that its descriptor had when it was reported, if and only
if no event's descriptor was removed from the table, and no event's watcher freed, before its
turn. -/
theorem dispatch_safe_iff (r : RtorReactor W F A) (as : List (Act W F A)) :
    ((∀ e, Machine.run step (start r) as = .error e → ¬ ∃ abort, e = .dispatch abort) ∧
      Machine.Always step SafeSoFar (start r) as) ↔ Machine.Along step Undisturbed (start r) as := by
  have hstep : ∀ (s : ReactorRun W F A) a s', s.Current s.control.pending → s.step a = .ok s' →
      s'.Current s'.control.pending :=
    fun s a s' hc hs => (stepped_of_step hs).current hc
  refine Machine.error_always_iff_along hstep
    (fun s a s' hc hsafe hs => safeSoFar_iff_undisturbed (stepped_of_step hs) hc hsafe)
    (fun s a e hc _ hs => fault_iff_undisturbed hc hs)
    current_nil (fun _ hmem => absurd hmem List.not_mem_nil)

end

/-- Two descriptors are ready at once. When the first handler deregisters the second descriptor, the
lookup fails; when it registers another watcher for that number, that watcher gets the event. -/
theorem handler_disturbs_batch : ∃ r : RtorReactor ℕ Unit Unit,
    RtorReactor.new (fun _ => ⟨(), ()⟩) = .ok r ∧
    Machine.run step (start r) [.operation (.register 5 1 50), .operation (.register 6 1 60), .run,
      .wait (some [(5, 1), (6, 1)]), .dispatch, .handler [.deregister 6], .dispatch] =
        .error (.dispatch ⟨"FdTable_lookup", "this->entries[fd] != NULL"⟩) ∧
    ∃ t, Machine.run step (start r) [.operation (.register 5 1 50), .operation (.register 6 1 60),
      .run, .wait (some [(5, 1), (6, 1)]), .dispatch, .handler [.deregister 6, .register 6 1 61],
      .dispatch] = .ok t ∧ t.dispatched = [⟨5, some 50, false, 50⟩, ⟨6, some 60, true, 61⟩] ∧
        ¬ t.SafeSoFar := by
  refine ⟨_, rfl, rfl, _, rfl, rfl, fun hsafe => ?_⟩
  have hlast : Dispatch.Safe (⟨6, some 60, true, 61⟩ : Dispatch ℕ) :=
    hsafe _ (List.mem_cons_of_mem _ List.mem_cons_self)
  exact absurd hlast (by decide)

end ReactorRun

end CHttp
