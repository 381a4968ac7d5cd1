import CHttp.ForMathlib.Machine
import CHttp.Runloop.Registration

/-!
# The timer watcher

`w_timerfd.c`. A timer has a descriptor made by `timerfd_create`, whose kernel timer is set through
`timerfd_settime`, and it is registered with the reactor for that descriptor. Every operation sets
the kernel timer to the interval, `rtor_timer_disarm` too, and a timer that is not repeating is set
to go off again after eleven seconds; `rtor_timer_update` leaves the descriptor without `EPOLLIN` in
its interest.
-/

namespace CHttp

/-- `struct itimerspec`. -/
structure Itimerspec where
  valueSec : UInt64
  valueNsec : UInt64
  intervalSec : UInt64
  intervalNsec : UInt64
  deriving DecidableEq, Repr

/-- The kernel's timer: its setting, whether it is running, and the expirations that were not read
yet. -/
structure Timerfd where
  its : Itimerspec
  running : Bool
  ticks : ℕ
  deriving DecidableEq, Repr

namespace Timerfd

/-- `timerfd_create`. -/
def create : Timerfd := ⟨⟨0, 0, 0, 0⟩, false, 0⟩

/-- `timerfd_settime` with a relative time: a value of zero stops the timer, and expirations that
were not read are dropped. -/
def settime (its : Itimerspec) : Timerfd := ⟨its, its.valueSec ≠ 0 ∨ its.valueNsec ≠ 0, 0⟩

/-- The timer goes off; an interval of zero stops it. -/
def expire (this : Timerfd) : Timerfd :=
  if this.running then
    { this with
      running := this.its.intervalSec ≠ 0 ∨ this.its.intervalNsec ≠ 0
      ticks := this.ticks + 1 }
  else this

end Timerfd

/-- The operations that set the timer. -/
inductive TimerOp
  | register
  | update
  | disarm
  | rearm
  deriving DecidableEq, Repr

/-- `RtorTimer`, with the kernel's timer and what the reactor has for its descriptor. `reported`
says that the loop has an event for the descriptor in its batch. The history: the last operation
that set the timer, whether a timer that is not repeating went off since, and for each call of
`timer_handler` whether the timer had been disarmed. -/
structure RtorTimer (H : Type) where
  interval : UInt64
  repeating : Bool
  timerHandler : Option H
  timerfd : Timerfd
  registration : Registration
  reported : Bool
  lastOp : Option TimerOp
  fired : Bool
  calls : List Bool

namespace RtorTimer

variable {H : Type} {s s' : RtorTimer H}

/-- `rtor_timer_new`. -/
def new : RtorTimer H := ⟨0, false, none, .create, none, false, none, false, []⟩

/-- `WTimerFd_update_interval`: what it returns. -/
def itimerspec (intervalMs : UInt64) (repeating : Bool) : Itimerspec :=
  let exTimeNs := 1000 * intervalMs
  if repeating then
    ⟨exTimeNs / 1000000, exTimeNs % 1000000, exTimeNs / 1000000, exTimeNs % 1000000⟩
  else ⟨exTimeNs / 1000000, exTimeNs % 1000000, 11, 0⟩

/-- `WTimerFd_update_interval` and `timerfd_settime`, in the operation `op`. -/
def set (s : RtorTimer H) (op : TimerOp) (intervalMs : UInt64) (repeating : Bool) : RtorTimer H :=
  { s with
    interval := intervalMs
    repeating := repeating
    timerfd := .settime (itimerspec intervalMs repeating)
    lastOp := some op
    fired := false }

/-- `rtor_timer_register`. -/
def register (s : RtorTimer H) (cb : Option H) (intervalMs : UInt64) (repeating : Bool) :
    Except Abort (RtorTimer H) := do
  let s := { s with timerHandler := cb }.set .register intervalMs repeating
  return { s with registration := ← s.registration.register (Epoll.epollin ||| Epoll.epollerr) }

/-- `rtor_timer_update`. The interest is 0. -/
def update (s : RtorTimer H) (intervalMs : UInt64) (repeating : Bool) :
    Except Abort (RtorTimer H) := do
  let s := s.set .update intervalMs repeating
  return { s with registration := ← s.registration.reregister 0 }

/-- `rtor_timer_disarm`. -/
def disarm (s : RtorTimer H) : RtorTimer H := s.set .disarm s.interval s.repeating

/-- `rtor_timer_rearm`. -/
def rearm (s : RtorTimer H) : RtorTimer H := s.set .rearm s.interval s.repeating

/-- `rtor_timer_deregister`. -/
def deregister (s : RtorTimer H) : Except Abort (RtorTimer H) := do
  return { s with registration := ← s.registration.deregister }

/-- A timer that is not repeating is deregistered before its handler is called. -/
def deregisterOneShot (s : RtorTimer H) : Except Abort (RtorTimer H) :=
  if s.repeating then .ok s else s.deregister

/-- The watcher is looked up, and its `handler` called. -/
def handler (s : RtorTimer H) : Except Abort (RtorTimer H) := do
  assertThat s.registration.isSome "FdTable_lookup" "this->entries[fd] != NULL"
  let s ← { s with reported := false, timerfd.ticks := 0 }.deregisterOneShot
  assertThat s.timerHandler.isSome "handler" "timer_handler should not be NULL"
  return { s with calls := s.calls ++ [s.lastOp == some .disarm] }

/-- What happens next: the program calls an operation, from inside a handler or outside the loop;
the kernel's timer goes off; `epoll_wait` returns with an event for it; the event is dispatched. -/
inductive Act (H : Type)
  | register (cb : Option H) (intervalMs : UInt64) (repeating : Bool)
  | update (intervalMs : UInt64) (repeating : Bool)
  | disarm
  | rearm
  | deregister
  | expire
  | report
  | dispatch

/-- One action. An event is reported when `epoll` watches the descriptor for input and there are
expirations to read. -/
def step (s : RtorTimer H) : Act H → Except Abort (RtorTimer H)
  | .register cb intervalMs repeating => s.register cb intervalMs repeating
  | .update intervalMs repeating => s.update intervalMs repeating
  | .disarm => .ok s.disarm
  | .rearm => .ok s.rearm
  | .deregister => s.deregister
  | .expire => .ok { s with
      timerfd := s.timerfd.expire
      fired := s.fired || (s.timerfd.running && !s.repeating) }
  | .report => .ok { s with
      reported := s.reported ||
        (s.registration.any (· &&& Epoll.epollin ≠ 0) && s.timerfd.ticks ≠ 0) }
  | .dispatch => if s.reported then s.handler else .ok s

/-- Intervals are positive, and the timer is registered when another operation is called. -/
def Contract (s : RtorTimer H) : Act H → Prop
  | .register _ intervalMs _ => 0 < intervalMs
  | .update intervalMs _ => 0 < intervalMs ∧ s.registration.isSome
  | .disarm | .rearm | .deregister => s.registration.isSome
  | .expire | .report | .dispatch => True

instance decidableContract (s : RtorTimer H) : ∀ a, Decidable (s.Contract a)
  | .register _ intervalMs _ => inferInstanceAs (Decidable (0 < intervalMs))
  | .update intervalMs _ => inferInstanceAs (Decidable (0 < intervalMs ∧ s.registration.isSome))
  | .disarm | .rearm | .deregister => inferInstanceAs (Decidable (s.registration.isSome = true))
  | .expire | .report | .dispatch => inferInstanceAs (Decidable True)

/-- The kernel's timer is running exactly if it was set, the last time not to be disarmed, and did
not go off if it is not repeating; the descriptor is watched for input while it is registered; and
`timer_handler` was never called while the timer was disarmed. -/
structure Follows (s : RtorTimer H) : Prop where
  running : s.timerfd.running = true ↔
    (∃ op, s.lastOp = some op ∧ op ≠ .disarm) ∧ s.fired = false
  interest : ∀ interest, s.registration = some interest → interest &&& Epoll.epollin ≠ 0
  calls : ∀ disarmed ∈ s.calls, disarmed = false

/-- The timer is neither updated nor disarmed, one that is not repeating does not go off, and the
interval in nanoseconds is not a multiple of `2 ^ 64`. -/
def Steady (s : RtorTimer H) : Act H → Prop
  | .register _ intervalMs _ => s.registration.isSome ∨ 1000 * intervalMs ≠ 0
  | .update _ _ | .disarm => False
  | .expire => s.timerfd.running = true → s.repeating = true
  | .rearm | .deregister | .report | .dispatch => True

instance decidableSteady (s : RtorTimer H) : ∀ a, Decidable (s.Steady a)
  | .register _ intervalMs _ =>
    inferInstanceAs (Decidable (s.registration.isSome = true ∨ 1000 * intervalMs ≠ 0))
  | .update _ _ | .disarm => inferInstanceAs (Decidable False)
  | .expire => inferInstanceAs (Decidable (s.timerfd.running = true → s.repeating = true))
  | .rearm | .deregister | .report | .dispatch => inferInstanceAs (Decidable True)

/-! ### The kernel's timer -/

/-- A time is zero only if both its parts are. -/
theorem div_or_mod_ne_zero (x : UInt64) :
    (x / 1000000 ≠ 0 ∨ x % 1000000 ≠ 0) ↔ x ≠ 0 := by
  have hdiv : (x / 1000000).toNat = x.toNat / 1000000 := UInt64.toNat_div x 1000000
  have hmod : (x % 1000000).toNat = x.toNat % 1000000 := UInt64.toNat_mod x 1000000
  simp only [ne_eq, ← UInt64.toNat_inj, hdiv, hmod, UInt64.toNat_zero]
  omega

private theorem settime_running (intervalMs : UInt64) (repeating : Bool) :
    (Timerfd.settime (itimerspec intervalMs repeating)).running = true ↔
      1000 * intervalMs ≠ 0 := by
  rw [← div_or_mod_ne_zero]
  cases repeating with
  | true => exact decide_eq_true_iff
  | false => exact decide_eq_true_iff

/-- A timer that is set goes on after it went off. -/
theorem expire_running {timerfd : Timerfd} {intervalMs : UInt64} {repeating : Bool}
    (hits : timerfd.its = itimerspec intervalMs repeating) (hne : 1000 * intervalMs ≠ 0)
    (hrunning : timerfd.running = true) : timerfd.expire.running = true := by
  rw [Timerfd.expire, if_pos hrunning, hits]
  cases repeating with
  | true => exact decide_eq_true ((div_or_mod_ne_zero _).mpr hne)
  | false =>
    have h11 : (11 : UInt64) ≠ 0 ∨ (0 : UInt64) ≠ 0 := .inl (by decide)
    exact decide_eq_true h11

private theorem expire_its (timerfd : Timerfd) : timerfd.expire.its = timerfd.its := by
  unfold Timerfd.expire
  split
  · rfl
  · rfl

/-! ### Steps -/

/-- The kernel's timer follows the fields, and has been running since it was first set. -/
structure Ticking (s : RtorTimer H) : Prop where
  set : ∀ op, s.lastOp = some op → s.timerfd.its = itimerspec s.interval s.repeating ∧
    1000 * s.interval ≠ 0 ∧ s.timerfd.running = true
  unset : s.lastOp = none → s.timerfd.running = false
  registered : s.registration.isSome = true → ∃ op, s.lastOp = some op

private theorem new_ticking : Ticking (new : RtorTimer H) := ⟨nofun, fun _ => rfl, nofun⟩

private theorem new_follows : Follows (new : RtorTimer H) :=
  ⟨iff_of_false (by simp [new, Timerfd.create]) (by simp [new]), nofun, nofun⟩

/-- A timer that is running was not disarmed last. -/
theorem Follows.ne_disarm (hq : s.Follows) (h : s.Ticking) : s.lastOp ≠ some .disarm := by
  intro hop
  obtain ⟨⟨op, hop', hne⟩, -⟩ := hq.running.mp (h.set _ hop).2.2
  rw [hop] at hop'
  exact hne (Option.some.inj hop').symm

private theorem set_ticking (op : TimerOp) {intervalMs : UInt64} (repeating : Bool)
    (hne : 1000 * intervalMs ≠ 0) : Ticking (s.set op intervalMs repeating) :=
  ⟨fun _ _ => ⟨rfl, hne, (settime_running intervalMs repeating).mpr hne⟩, nofun,
    fun _ => ⟨op, rfl⟩⟩

/-- After an operation other than `rtor_timer_disarm` the timer is to be running. -/
theorem set_running_iff {op : TimerOp} (hop : op ≠ .disarm) (intervalMs : UInt64)
    (repeating : Bool) :
    ((s.set op intervalMs repeating).timerfd.running = true ↔
      (∃ op', (s.set op intervalMs repeating).lastOp = some op' ∧ op' ≠ .disarm) ∧
        (s.set op intervalMs repeating).fired = false) ↔ 1000 * intervalMs ≠ 0 := by
  rw [show (s.set op intervalMs repeating).timerfd = .settime (itimerspec intervalMs repeating) from
    rfl, settime_running]
  have hright : (∃ op', (s.set op intervalMs repeating).lastOp = some op' ∧ op' ≠ .disarm) ∧
      (s.set op intervalMs repeating).fired = false := ⟨⟨op, rfl, hop⟩, rfl⟩
  exact ⟨fun h => h.mpr hright, fun h => iff_of_true h hright⟩

/-- What a step does to the property: it keeps it, and the timer running, when the step is one of
the good ones, and loses it otherwise. -/
def Exact (s s' : RtorTimer H) (a : Act H) : Prop :=
  (Follows s' → s.Steady a) ∧ (s.Steady a → Ticking s' ∧ Follows s')

private theorem exact_register (hq : s.Follows) {cb : Option H} {intervalMs : UInt64}
    {repeating : Bool}
    (hs : s.register cb intervalMs repeating = .ok s') :
    Exact s s' (.register cb intervalMs repeating) := by
  simp only [register, Registration.register, Except.bind_eq_ok] at hs
  obtain ⟨reg, ⟨⟨⟩, hnone, hreg⟩, hs⟩ := hs
  cases hreg
  cases hs
  have hunreg : s.registration.isSome = false := by
    cases hr : s.registration with
    | none => rfl
    | some i => simp [set, hr] at hnone
  have hregister : TimerOp.register ≠ .disarm := by decide
  have hrun := set_running_iff (s := { s with timerHandler := cb }) hregister intervalMs repeating
  refine ⟨fun h => .inr (hrun.mp h.running), fun h => ?_⟩
  have hne : 1000 * intervalMs ≠ 0 := h.resolve_left (by simp [hunreg])
  have htick : Ticking ({ s with timerHandler := cb }.set .register intervalMs repeating) :=
    set_ticking .register repeating hne
  refine ⟨⟨htick.set, htick.unset, fun _ => ⟨.register, rfl⟩⟩, hrun.mpr hne, ?_, hq.calls⟩
  intro interest hi
  cases hi
  decide

private theorem exact_update {intervalMs : UInt64} {repeating : Bool}
    (hs : s.update intervalMs repeating = .ok s') : Exact s s' (.update intervalMs repeating) := by
  simp only [update, Registration.reregister, Except.bind_eq_ok] at hs
  obtain ⟨reg, ⟨⟨⟩, -, hreg⟩, hs⟩ := hs
  cases hreg
  cases hs
  -- the descriptor is watched for nothing
  exact ⟨fun h => absurd rfl (h.interest 0 rfl), False.elim⟩

private theorem exact_disarm (h : s.Ticking) (hc : s.registration.isSome = true) :
    Exact s s.disarm .disarm := by
  obtain ⟨op, hop⟩ := h.registered hc
  have htick : Ticking s.disarm := set_ticking .disarm s.repeating (h.set op hop).2.1
  exact ⟨fun hq => hq.ne_disarm htick rfl, False.elim⟩

private theorem exact_rearm (h : s.Ticking) (hq : s.Follows) (hc : s.registration.isSome = true) :
    Exact s s.rearm .rearm := by
  obtain ⟨op, hop⟩ := h.registered hc
  have hne := (h.set op hop).2.1
  refine ⟨fun _ => trivial, fun _ => ⟨set_ticking .rearm s.repeating hne, ?_, hq.interest,
    hq.calls⟩⟩
  exact (set_running_iff (by decide) s.interval s.repeating).mpr hne

private theorem exact_deregister (h : s.Ticking) (hq : s.Follows) (hs : s.deregister = .ok s') :
    Ticking s' ∧ Follows s' := by
  simp only [deregister, Registration.deregister, Except.bind_eq_ok] at hs
  obtain ⟨reg, ⟨⟨⟩, -, hreg⟩, hs⟩ := hs
  cases hreg
  cases hs
  exact ⟨⟨h.set, h.unset, nofun⟩, hq.running, nofun, hq.calls⟩

private theorem exact_expire (h : s.Ticking) (hq : s.Follows) (hs : s.step .expire = .ok s') :
    Exact s s' .expire := by
  cases hs
  by_cases hrunning : s.timerfd.running = true
  · obtain ⟨⟨op, hop, hdisarm⟩, hfired⟩ := hq.running.mp hrunning
    obtain ⟨hits, hne, -⟩ := h.set op hop
    have hexpire := expire_running hits hne hrunning
    have hiff : (s.fired || (s.timerfd.running && !s.repeating)) = false ↔
        s.repeating = true := by
      simp [hfired, hrunning]
    refine ⟨fun hf _ => hiff.mp (hf.running.mp hexpire).2, fun hp => ⟨⟨fun op' hop' => ?_,
      fun hnone => ?_, h.registered⟩, ?_, hq.interest, hq.calls⟩⟩
    · exact ⟨(expire_its _).trans hits, hne, hexpire⟩
    · cases hop.symm.trans hnone
    · exact iff_of_true hexpire ⟨⟨op, hop, hdisarm⟩, hiff.mpr (hp hrunning)⟩
  · -- a timer that is not running does not go off
    have hstop : s.timerfd.expire = s.timerfd := if_neg hrunning
    have hfired : (s.fired || (s.timerfd.running && !s.repeating)) = s.fired := by
      simp [hrunning]
    rw [hstop, hfired]
    exact ⟨fun _ hr => absurd hr hrunning, fun _ => ⟨⟨h.set, h.unset, h.registered⟩, hq.running,
      hq.interest, hq.calls⟩⟩

private theorem exact_handler (h : s.Ticking) (hq : s.Follows) (hs : s.handler = .ok s') :
    Ticking s' ∧ Follows s' := by
  simp only [handler, Except.bind_eq_ok] at hs
  obtain ⟨⟨⟩, -, t, ht, ⟨⟩, -, hs⟩ := hs
  cases hs
  have htick : Ticking { s with reported := false, timerfd.ticks := 0 } :=
    ⟨h.set, h.unset, h.registered⟩
  have hfollow : Follows { s with reported := false, timerfd.ticks := 0 } :=
    ⟨hq.running, hq.interest, hq.calls⟩
  obtain ⟨htick', hfollow'⟩ : Ticking t ∧ Follows t := by
    rw [deregisterOneShot] at ht
    split at ht
    · cases ht
      exact ⟨htick, hfollow⟩
    · exact exact_deregister htick hfollow ht
  refine ⟨⟨htick'.set, htick'.unset, htick'.registered⟩, hfollow'.running, hfollow'.interest, ?_⟩
  refine List.forall_mem_append.mpr ⟨hfollow'.calls, List.forall_mem_singleton.mpr ?_⟩
  exact beq_eq_false_iff_ne.mpr (hfollow'.ne_disarm htick')

/-- **One step.** -/
theorem exact_step {a : Act H} (h : s.Ticking) (hc : s.Contract a) (hq : s.Follows)
    (hs : s.step a = .ok s') : Exact s s' a := by
  cases a with
  | register cb intervalMs repeating => exact exact_register hq hs
  | update intervalMs repeating => exact exact_update hs
  | disarm =>
    cases hs
    exact exact_disarm h hc
  | rearm =>
    cases hs
    exact exact_rearm h hq hc
  | deregister => exact ⟨fun _ => trivial, fun _ => exact_deregister h hq hs⟩
  | expire => exact exact_expire h hq hs
  | report =>
    cases hs
    exact ⟨fun _ => trivial, fun _ => ⟨⟨h.set, h.unset, h.registered⟩, hq.running, hq.interest,
      hq.calls⟩⟩
  | dispatch =>
    refine ⟨fun _ => trivial, fun _ => ?_⟩
    simp only [step] at hs
    split at hs
    · exact exact_handler h hq hs
    · cases hs
      exact ⟨h, hq⟩

/-- A step that aborts is none of the bad ones. -/
theorem steady_of_error {a : Act H} {e : Abort} (hc : s.Contract a) (hs : s.step a = .error e) :
    s.Steady a := by
  cases a with
  | register cb intervalMs repeating =>
    cases hr : s.registration with
    | some i => exact .inl (by simp [hr])
    | none => simp [step, register, set, Registration.register, hr] at hs
  | update intervalMs repeating =>
    obtain ⟨i, hi⟩ := Option.isSome_iff_exists.mp hc.2
    simp [step, update, set, Registration.reregister, hi] at hs
  | disarm => cases hs
  | expire => cases hs
  | _ => trivial

/-- **The timer watcher.** In a run that keeps the contract, the kernel's timer, the interest and
the calls of the handler follow the operations in every state, exactly if the timer is never updated
or disarmed, does not go off while it is not repeating, and is never registered with an interval
whose nanoseconds come to a multiple of `2 ^ 64`. -/
theorem follows_iff_steady {as : List (Act H)}
    (hc : Machine.Along step Contract (new : RtorTimer H) as) :
    Machine.Always step Follows (new : RtorTimer H) as ↔
      Machine.Along step Steady (new : RtorTimer H) as :=
  Machine.always_iff_along_within
    (fun _ _ _ h hf hq hs hq' =>
      ((exact_step h hf hq hs).2 ((exact_step h hf hq hs).1 hq')).1)
    (fun _ _ _ h hf hq hs =>
      ⟨(exact_step h hf hq hs).1, fun hp => ((exact_step h hf hq hs).2 hp).2⟩)
    (fun _ _ _ _ hf _ hs => steady_of_error hf hs) new_ticking new_follows hc

/-- A repeating timer goes off, its handler is called, and it is rearmed and deregistered. -/
theorem follows_repeating :
    Machine.Always step Follows (new : RtorTimer Unit)
      [.register (some ()) 100 true, .expire, .report, .dispatch, .rearm, .deregister] := by
  have hc : Machine.Along step Contract (new : RtorTimer Unit)
      [.register (some ()) 100 true, .expire, .report, .dispatch, .rearm, .deregister] := by
    decide +kernel
  refine (follows_iff_steady hc).mpr ?_
  decide +kernel

/-- A repeating timer is disarmed. It goes off again, and its handler is called. -/
def disarmed : List (Act Unit) :=
  [.register (some ()) 100 true, .disarm, .expire, .report, .dispatch]

/-- The kernel's timer is running after `rtor_timer_disarm`, and the handler is called. -/
theorem not_follows_disarmed :
    Machine.Along step Contract new disarmed ∧
      (Machine.run step new disarmed).map (fun s => (s.timerfd.running, s.calls)) =
        .ok (true, [true]) ∧
      ¬ Machine.Always step Follows new disarmed := by
  have hrun : (Machine.run step new disarmed).map (fun s => (s.timerfd.running, s.calls)) =
      .ok (true, [true]) := by decide +kernel
  refine ⟨by decide +kernel, hrun, fun hall => ?_⟩
  obtain ⟨s, hs, heq⟩ := Except.map_eq_ok.mp hrun
  have hcalls : s.calls = [true] := congrArg Prod.snd heq
  have hcall := (hall.last hs).calls true (by rw [hcalls]; exact List.mem_singleton_self true)
  cases hcall

end RtorTimer

end CHttp
