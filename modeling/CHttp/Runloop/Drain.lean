import CHttp.ForMathlib.Machine
import CHttp.Runloop.ReactorSteps

/-!
# Draining the ready list

The inner loop of `rtor_reactor_run` runs posted functors until the ready list is empty, those that
the functors post in their turn included. It comes after the handlers of a batch, so once the loop
has waited it waits again only with nothing left to run. Before the first wait there is no inner
loop: what was posted before the call meets the assertion at the top of the loop, or is left over
when the loop has nothing to watch and returns.

`Accounted` relates the ready list to the history: what was posted is what was executed, in the same
order, and then what is queued.
-/

namespace CHttp

namespace ReactorRun

variable {W F A : Type} {s s' : ReactorRun W F A} {a : Act W F A}

/-! ### Posted, executed and queued -/

/-- The ready list holds what was posted and not yet executed. -/
structure Accounted (s : ReactorRun W F A) : Prop where
  valid : s.reactor.readyList.Valid
  posted : s.posted = s.executed ++ s.reactor.readyList.toList

/-- Everything was executed when the ready list is empty. -/
theorem Accounted.executed_eq_posted_iff (h : s.Accounted) :
    s.executed = s.posted ↔ s.reactor.readyList.size = 0 := by
  rw [h.posted, ← FunctorList.toList_eq_nil_iff, List.self_eq_append_right]

private theorem Moved.accounted (hm : Moved s s') (h : s.Accounted) : s'.Accounted := by
  refine ⟨?_, ?_⟩
  · rw [hm.readyList]
    exact h.valid
  · rw [hm.posted, hm.executed, hm.readyList]
    exact h.posted

private theorem Ran.accounted (hr : Ran s s') (h : s.Accounted) : s'.Accounted := by
  obtain ⟨fs, hposted, hready⟩ := hr.posted
  obtain ⟨hv, hl⟩ := hready h.valid
  refine ⟨hv, ?_⟩
  rw [hposted, hr.executed, hl, h.posted, List.append_assoc]

/-- Taking the oldest functor to run it. -/
theorem Accounted.remove (h : s.Accounted) {func : Functor F A}
    {readyList : FunctorList (Functor F A)}
    (hremove : s.reactor.readyList.remove = .ok (func, readyList)) :
    Accounted { s with reactor.readyList := readyList, executed := s.executed ++ [func] } := by
  obtain ⟨hv, hl⟩ := FunctorList.toList_of_remove h.valid hremove
  refine ⟨hv, ?_⟩
  change s.posted = s.executed ++ [func] ++ readyList.toList
  rw [h.posted, hl, List.append_assoc, List.singleton_append]

/-- **Accounts.** Every step keeps the account. -/
theorem Stepped.accounted (h : Stepped s a s') (hacc : s.Accounted) : s'.Accounted := by
  cases h with
  | stay => exact hacc
  | operation _ hran => exact ⟨(hran.accounted hacc).valid, (hran.accounted hacc).posted⟩
  | run _ htop => exact (top_moved htop).1.accounted hacc
  | wait _ hwait => exact (wait_moved hwait).accounted hacc
  | dispatch => exact ⟨hacc.valid, hacc.posted⟩
  | handler _ hran hnext => exact (nextEvent_moved hnext).1.accounted (hran.accounted hacc)
  | functor _ hremove hran hdrain =>
    exact (drain_moved hdrain).1.accounted (hran.accounted (hacc.remove hremove))

/-! ### Drained -/

/-- Functors are executed in the order in which they were posted, and all of them when the loop is
in `epoll_wait` or has returned. -/
def Drained (s : ReactorRun W F A) : Prop :=
  s.executed <+: s.posted ∧
    (s.control = .waiting ∨ s.control = .returned → s.executed = s.posted)

/-- When the loop is run nothing is queued. -/
def StartsEmpty (s : ReactorRun W F A) (a : Act W F A) : Prop :=
  a = .run → s.control = .outside ∨ s.control = .returned → s.reactor.readyList.size = 0

private theorem Accounted.drained_iff (h : s.Accounted) : s.Drained ↔
    (s.control = .waiting ∨ s.control = .returned → s.reactor.readyList.size = 0) := by
  have hpre : s.executed <+: s.posted := ⟨_, h.posted.symm⟩
  rw [Drained, h.executed_eq_posted_iff]
  exact and_iff_right hpre

/-- In the middle of a batch, of the inner loop or outside the loop, functors may be queued. -/
theorem Accounted.drained_of_ne (h : s.Accounted) (hwait : s.control ≠ .waiting)
    (hret : s.control ≠ .returned) : s.Drained :=
  h.drained_iff.mpr fun hend => absurd hend (not_or.mpr ⟨hwait, hret⟩)

/-- **A step of the loop.** Only the start of the loop can leave functors behind. -/
theorem drained_iff_startsEmpty (h : Stepped s a s') (hacc : s.Accounted) (hd : s.Drained) :
    s'.Drained ↔ s.StartsEmpty a := by
  have hacc' := h.accounted hacc
  cases h with
  | stay hfit =>
    refine iff_of_true hd ?_
    rintro rfl hc
    exact absurd hc hfit
  | operation => exact iff_of_true (hacc'.drained_of_ne nofun nofun) nofun
  | run hc htop =>
    obtain ⟨hmoved, hstop⟩ := top_moved htop
    have hend : s'.control = .waiting ∨ s'.control = .returned := hstop.imp_left And.left
    rw [hacc'.drained_iff, hmoved.readyList]
    exact ⟨fun hs _ _ => hs hend, fun hs _ => hs rfl hc⟩
  | wait hc hwait =>
    refine iff_of_true (hacc'.drained_iff.mpr fun _ => ?_) nofun
    rw [(wait_moved hwait).readyList]
    exact hacc.drained_iff.mp hd (Or.inl hc)
  | dispatch => exact iff_of_true (hacc'.drained_of_ne nofun nofun) nofun
  | handler _ hran hnext =>
    refine iff_of_true ?_ nofun
    obtain ⟨hmoved, hsize | ⟨hwait, hret⟩⟩ := nextEvent_moved hnext
    · exact hacc'.drained_iff.mpr fun _ => by rw [hmoved.readyList, hsize]
    · exact hacc'.drained_of_ne hwait hret
  | functor _ _ hran hdrain =>
    refine iff_of_true ?_ nofun
    obtain ⟨hmoved, hsize | hc⟩ := drain_moved hdrain
    · exact hacc'.drained_iff.mpr fun _ => by rw [hmoved.readyList, hsize]
    · exact hacc'.drained_of_ne (by simp [hc]) (by simp [hc])

/-- The account of a new reactor. -/
theorem accounted_of_new {junk : ℕ → Functor F A} {r : RtorReactor W F A}
    (hnew : RtorReactor.new junk = .ok r) : (start r).Accounted := by
  obtain ⟨lst, hlst, hv, -, -⟩ :=
    FunctorList.new_spec rtorReadyListMax junk (by decide) (le_refl _)
  rw [RtorReactor.new, hlst] at hnew
  cases hnew
  exact ⟨hv, rfl⟩

private theorem drained_start (r : RtorReactor W F A) (h : (start r).Accounted) :
    (start r).Drained :=
  h.drained_of_ne nofun nofun

section
variable [DecidableEq W]

/-- The assertion at the top of the loop fails only when the loop is run with functors queued. -/
theorem not_startsEmpty_of_notDrained (h : s.step a = .error .notDrained) : ¬ s.StartsEmpty a := by
  cases faulted_of_step h with
  | notDrained hc hsize => exact fun hempty => hsize (hempty rfl hc)

/-- A step that aborts elsewhere is not the start of the loop, unless the loop's own call of
`rtor_reactor_deregister` aborts. -/
theorem startsEmpty_of_error {e : RunFault} (h : s.step a = .error e) (hne : e ≠ .notDrained)
    (hloop : ∀ abort, e ≠ .loop abort) : s.StartsEmpty a := by
  cases faulted_of_step h with
  | operation _ hr => exact fun ha => absurd ha hr
  | dispatch => exact nofun
  | notDrained => exact absurd rfl hne
  | loop => exact absurd rfl (hloop _)

/-- **Draining.** If nothing is queued whenever the loop is run, its assertion holds and it drains
the ready list. -/
theorem drained_of_startsEmpty {as : List (Act W F A)} (hacc : s.Accounted) (hd : s.Drained)
    (hal : Machine.Along step StartsEmpty s as) :
    Machine.run step s as ≠ .error .notDrained ∧ Machine.Always step Drained s as := by
  have hstep : ∀ (s : ReactorRun W F A) a s', s.Accounted ∧ s.Drained → s.StartsEmpty a →
      s.step a = .ok s' → s'.Accounted ∧ s'.Drained := by
    intro s a s' h hp hs
    have hstepped := stepped_of_step hs
    exact ⟨hstepped.accounted h.1, (drained_iff_startsEmpty hstepped h.1 h.2).mpr hp⟩
  refine ⟨fun hrun => ?_, (Machine.always_of_along hstep ⟨hacc, hd⟩ hal).mono fun _ h => h.2⟩
  refine Machine.error_of_along (E := (· ≠ .notDrained)) hstep ?_ ⟨hacc, hd⟩ hal hrun rfl
  rintro s a _ - hp hs rfl
  exact not_startsEmpty_of_notDrained hs hp

/-- A run of the loop that drains the ready list, and is not stopped by the loop's own calls, found
it empty whenever the loop was run. -/
theorem startsEmpty_of_drained {as : List (Act W F A)} (hacc : s.Accounted)
    (hloop : ∀ abort, Machine.run step s as ≠ .error (.loop abort))
    (hrun : Machine.run step s as ≠ .error .notDrained) (hd : Machine.Always step Drained s as) :
    Machine.Along step StartsEmpty s as := by
  have hstep : ∀ (s : ReactorRun W F A) a s', s.Accounted → True → s.step a = .ok s' →
      s'.Accounted := fun s a s' h _ hs => (stepped_of_step hs).accounted h
  refine Machine.along_of_error_always (E := fun e => e = .notDrained ∨ ∃ abort, e = .loop abort)
    hstep ?_ ?_ hacc (Machine.along_of_forall fun _ _ _ => trivial) ?_ hd
  · intro s a s' h _ hq hs hq'
    exact (drained_iff_startsEmpty (stepped_of_step hs) h hq).mp hq'
  · intro s a e h _ _ hs he
    obtain ⟨hne, hl⟩ := not_or.mp he
    exact startsEmpty_of_error hs hne fun abort heq => hl ⟨abort, heq⟩
  · rintro e he (rfl | ⟨abort, rfl⟩)
    · exact hrun he
    · exact hloop abort he

/-- **Draining, exactly.** Whatever handlers and functors post, in every run in which nothing is
queued when `rtor_reactor_run` is called, the assertion at the top of the loop holds, functors are
executed once and in the order in which they were posted, and all of them before each `epoll_wait`
and before the loop returns. A run with these properties met the condition, unless the loop's own
call of `rtor_reactor_deregister` stopped it. -/
theorem drained_iff_starts_empty {junk : ℕ → Functor F A} {r : RtorReactor W F A}
    (hnew : RtorReactor.new junk = .ok r) (as : List (Act W F A)) :
    (Machine.Along step StartsEmpty (start r) as →
      Machine.run step (start r) as ≠ .error .notDrained ∧
        Machine.Always step Drained (start r) as) ∧
    ((∀ abort, Machine.run step (start r) as ≠ .error (.loop abort)) →
      Machine.run step (start r) as ≠ .error .notDrained ∧
        Machine.Always step Drained (start r) as →
      Machine.Along step StartsEmpty (start r) as) := by
  have hacc := accounted_of_new hnew
  constructor
  · exact drained_of_startsEmpty hacc (drained_start r hacc)
  · rintro hloop ⟨hrun, hd⟩
    exact startsEmpty_of_drained hacc hloop hrun hd

end

/-- A handler posts a functor, which is executed before the loop returns. -/
theorem drained_iff_starts_empty_post : ∃ r : RtorReactor ℕ Unit Unit,
    RtorReactor.new (fun _ => ⟨(), ()⟩) = .ok r ∧
    Machine.run step (start r) [.operation (.register 5 1 50), .run, .wait (some [(5, 1)]),
      .dispatch, .handler [.post () (), .deregister 5], .functor []] ≠ .error .notDrained ∧
    Machine.Always step Drained (start r) [.operation (.register 5 1 50), .run,
      .wait (some [(5, 1)]), .dispatch, .handler [.post () (), .deregister 5], .functor []] := by
  refine ⟨_, rfl, (drained_iff_starts_empty rfl _).1 ?_⟩
  exact ⟨nofun, fun _ _ => rfl, nofun, nofun, nofun, nofun, trivial⟩

/-- A functor posted before the run. With a descriptor to watch the assertion fails; with none the
loop returns and leaves the functor queued. -/
theorem posted_before_run : ∃ r : RtorReactor ℕ Unit Unit,
    RtorReactor.new (fun _ => ⟨(), ()⟩) = .ok r ∧
    Machine.run step (start r) [.operation (.post () ()), .operation (.register 5 1 50), .run] =
      .error .notDrained ∧
    ∃ t, Machine.run step (start r) [.operation (.post () ()), .run] = .ok t ∧
      t.control = .returned ∧ t.posted = [⟨(), ()⟩] ∧ t.executed = [] :=
  ⟨_, rfl, rfl, _, rfl, rfl, rfl, rfl⟩

end ReactorRun

end CHttp
