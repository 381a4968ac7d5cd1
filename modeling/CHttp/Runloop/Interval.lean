import CHttp.Runloop.Timer

/-!
# Intervals of timers

`WTimerFd_update_interval` multiplies the milliseconds by 1000, which makes microseconds, and splits
them at 1000000 into seconds and a rest. The rest goes into `tv_nsec` as it is, so microseconds are
taken for nanoseconds: whole seconds come out right and the part below a second is a thousand times
too short. The order of two intervals is kept.
-/

namespace CHttp

/-- The time of `it_value`, in nanoseconds. -/
def Itimerspec.valueNs (its : Itimerspec) : ℕ :=
  its.valueSec.toNat * 1000000000 + its.valueNsec.toNat

/-- The setting is that of a timer with this interval. -/
structure Itimerspec.Converts (its : Itimerspec) (intervalMs : UInt64) (repeating : Bool) :
    Prop where
  value : its.valueNs = intervalMs.toNat * 1000000
  nsec_lt : its.valueNsec.toNat < 1000000000
  interval : repeating = true →
    its.intervalSec = its.valueSec ∧ its.intervalNsec = its.valueNsec

namespace RtorTimer

variable {H : Type} {intervalMs : UInt64}

/-- The product does not wrap around. -/
theorem toNat_mul_of_lt (h : 1000 * intervalMs.toNat < UInt64.size) :
    (1000 * intervalMs).toNat = 1000 * intervalMs.toNat := by
  rw [UInt64.toNat_mul]
  exact Nat.mod_eq_of_lt h

/-- Seconds, and what is put into `tv_nsec`. -/
theorem itimerspec_value (h : 1000 * intervalMs.toNat < UInt64.size) (repeating : Bool) :
    (itimerspec intervalMs repeating).valueSec.toNat = intervalMs.toNat / 1000 ∧
      (itimerspec intervalMs repeating).valueNsec.toNat = 1000 * (intervalMs.toNat % 1000) := by
  have hsec : ((1000 * intervalMs) / 1000000).toNat = (1000 * intervalMs).toNat / 1000000 :=
    UInt64.toNat_div _ 1000000
  have hnsec : ((1000 * intervalMs) % 1000000).toNat = (1000 * intervalMs).toNat % 1000000 :=
    UInt64.toNat_mod _ 1000000
  rw [toNat_mul_of_lt h] at hsec hnsec
  have hvalue : (itimerspec intervalMs repeating).valueSec = (1000 * intervalMs) / 1000000 ∧
      (itimerspec intervalMs repeating).valueNsec = (1000 * intervalMs) % 1000000 := by
    cases repeating with
    | true => exact ⟨rfl, rfl⟩
    | false => exact ⟨rfl, rfl⟩
  rw [hvalue.1, hvalue.2, hsec, hnsec]
  omega

/-- A repeating timer goes off again after the same time. -/
theorem itimerspec_interval (intervalMs : UInt64) :
    (itimerspec intervalMs true).intervalSec = (itimerspec intervalMs true).valueSec ∧
      (itimerspec intervalMs true).intervalNsec = (itimerspec intervalMs true).valueNsec :=
  ⟨rfl, rfl⟩

/-- The conversion is exact for whole seconds. -/
theorem itimerspec_converts_iff (h : 1000 * intervalMs.toNat < UInt64.size) (repeating : Bool) :
    (itimerspec intervalMs repeating).Converts intervalMs repeating ↔ 1000 ∣ intervalMs.toNat := by
  obtain ⟨hsec, hnsec⟩ := itimerspec_value h repeating
  have hns : (itimerspec intervalMs repeating).valueNs =
      intervalMs.toNat / 1000 * 1000000000 + 1000 * (intervalMs.toNat % 1000) := by
    rw [Itimerspec.valueNs, hsec, hnsec]
  constructor
  · intro hc
    have hvalue := hc.value
    omega
  · intro hdvd
    refine ⟨hns.trans ?_, ?_, fun hrep => ?_⟩
    · omega
    · rw [hnsec]
      omega
    · subst hrep
      exact itimerspec_interval intervalMs

/-- A longer interval is set to a longer time, although not to its own. -/
theorem valueNs_lt {intervalMs' : UInt64} (h : 1000 * intervalMs.toNat < UInt64.size)
    (h' : 1000 * intervalMs'.toNat < UInt64.size) (hlt : intervalMs < intervalMs')
    (repeating repeating' : Bool) :
    (itimerspec intervalMs repeating).valueNs < (itimerspec intervalMs' repeating').valueNs := by
  obtain ⟨hsec, hnsec⟩ := itimerspec_value h repeating
  obtain ⟨hsec', hnsec'⟩ := itimerspec_value h' repeating'
  have hnat : intervalMs.toNat < intervalMs'.toNat := UInt64.lt_iff_toNat_lt.mp hlt
  rw [Itimerspec.valueNs, Itimerspec.valueNs, hsec, hnsec, hsec', hnsec']
  omega

/-! ### What is installed -/

private theorem its_of_register {s s' : RtorTimer H} {cb : Option H} {repeating : Bool}
    (h : s.register cb intervalMs repeating = .ok s') :
    s'.timerfd.its = itimerspec intervalMs repeating := by
  simp only [register, Except.bind_eq_ok] at h
  obtain ⟨reg, -, heq⟩ := h
  cases heq
  rfl

private theorem its_of_update {s s' : RtorTimer H} {repeating : Bool}
    (h : s.update intervalMs repeating = .ok s') :
    s'.timerfd.its = itimerspec intervalMs repeating := by
  simp only [update, Except.bind_eq_ok] at h
  obtain ⟨reg, -, heq⟩ := h
  cases heq
  rfl

/-- **Timer intervals.** What `rtor_timer_register`, `rtor_timer_update` and `rtor_timer_rearm`
install for an interval whose microseconds fit in 64 bits is that interval exactly if it is a number
of whole seconds. A longer interval is set to a longer time in any case. -/
theorem converts_iff_whole_seconds (h : 1000 * intervalMs.toNat < UInt64.size) (repeating : Bool) :
    ((itimerspec intervalMs repeating).Converts intervalMs repeating ↔
      1000 ∣ intervalMs.toNat) ∧
    (∀ (s s' : RtorTimer H) (cb : Option H), s.register cb intervalMs repeating = .ok s' →
      (s'.timerfd.its.Converts intervalMs repeating ↔ 1000 ∣ intervalMs.toNat)) ∧
    (∀ s s' : RtorTimer H, s.update intervalMs repeating = .ok s' →
      (s'.timerfd.its.Converts intervalMs repeating ↔ 1000 ∣ intervalMs.toNat)) ∧
    (∀ s : RtorTimer H, s.interval = intervalMs → s.repeating = repeating →
      (s.rearm.timerfd.its.Converts intervalMs repeating ↔ 1000 ∣ intervalMs.toNat)) ∧
    ∀ intervalMs' : UInt64, 1000 * intervalMs'.toNat < UInt64.size → intervalMs < intervalMs' →
      (itimerspec intervalMs repeating).valueNs < (itimerspec intervalMs' repeating).valueNs := by
  have hiff := itimerspec_converts_iff h repeating
  refine ⟨hiff, fun s s' cb hs => ?_, fun s s' hs => ?_, fun s hi hr => ?_,
    fun intervalMs' h' hlt => valueNs_lt h h' hlt repeating repeating⟩
  · rw [its_of_register hs]
    exact hiff
  · rw [its_of_update hs]
    exact hiff
  · subst hi hr
    exact hiff

/-- Three seconds are converted, for a timer that repeats. -/
theorem converts_three_seconds : (itimerspec 3000 true).Converts 3000 true :=
  (converts_iff_whole_seconds (H := Unit) (by decide) true).1.mpr (by decide)

/-- Half a second is set to half a millisecond. -/
theorem not_converts_half_second :
    (itimerspec 500 false).valueNs = 500000 ∧ ¬ (itimerspec 500 false).Converts 500 false := by
  refine ⟨by decide, fun hc => ?_⟩
  have hvalue : (itimerspec 500 false).valueNs = 500000000 := hc.value
  cases hvalue.symm.trans (show (itimerspec 500 false).valueNs = 500000 by decide)

end RtorTimer

end CHttp
