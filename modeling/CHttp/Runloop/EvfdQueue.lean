import CHttp.ForMathlib.Machine
import CHttp.Runloop.FunctorList

/-!
# The interthread queue

`evfd_queue.c` and the parts of `reactor.c` that use it. Any thread posts a functor to
another thread's reactor with `rtor_reactor_interthread_post`: under the queue's mutex
`Evfdq_add` puts it on a functor ring and writes `1` to an eventfd. The reactor's `epoll`
reports the eventfd while its counter is not zero; `interthread_queue_handler` then takes
one functor off the ring with `Evfdq_remove`, which also reads the eventfd and so sets the
counter to zero, however many functors are left.

The handler does not pass the functor's argument on: it keeps it in the watcher's
`queue_event_handler_arg` and posts the function to the ready list with the watcher as
argument, where the function finds it. The history fields `moved` and `executed` record what
each function would find there when it is put on the ready list and when it runs.
-/

namespace CHttp

/-- `Functor`: a postable function and its argument. -/
structure Functor (F A : Type) where
  f : F
  arg : A
  deriving DecidableEq, Repr

/-- A `void*` argument on the ready list: a value, or the interthread queue's watcher. -/
inductive ReadyArg (A : Type)
  | value (arg : A)
  | wqueue

/-- The largest value an eventfd counter can hold. -/
def eventfdMax : ℕ := 2 ^ 64 - 2

/-- `EvfdQueue`: the functor ring and the counter of its eventfd. -/
structure EvfdQueue (F A : Type) where
  list : FunctorList (Functor F A)
  counter : ℕ

namespace EvfdQueue

variable {F A : Type}

/-- `Evfdq_init`: a ring of `RTOR_MAX_FDS` cells and an eventfd drained to zero. -/
def new (junk : ℕ → Functor F A) : Except Abort (EvfdQueue F A) := do
  return { list := ← FunctorList.new rtorMaxFds junk, counter := 0 }

/-- `Evfdq_add`. The eventfd is non-blocking: a write that would overflow it is refused, and
the result is not looked at. -/
def add (q : EvfdQueue F A) (item : Functor F A) : Except Abort (EvfdQueue F A) := do
  let list ← q.list.add item
  return { list, counter := if q.counter + 1 ≤ eventfdMax then q.counter + 1 else q.counter }

/-- `Evfdq_remove`: reading an eventfd without `EFD_SEMAPHORE` sets it to zero. -/
def remove (q : EvfdQueue F A) : Except Abort (Functor F A × EvfdQueue F A) := do
  let (op, list) ← q.list.remove
  return (op, { list, counter := 0 })

end EvfdQueue

/-- A reactor with its interthread queue. `posted`, `moved` and `executed` are history: the
functors posted, those put on the ready list and those run, oldest first. -/
structure Reactor (F A : Type) where
  interthreadQueue : EvfdQueue F A
  /-- `queue_event_handler_arg` of the queue's watcher. -/
  queueEventHandlerArg : Option A
  readyList : FunctorList (Functor F (ReadyArg A))
  posted : List (Functor F A)
  moved : List (F × Option A)
  executed : List (F × Option A)

namespace Reactor

variable {F A : Type}

/-- `rtor_reactor_init` and `rtor_reactor_enable_interthread_queue`. -/
def new (junk : ℕ → Functor F A) (readyJunk : ℕ → Functor F (ReadyArg A)) :
    Except Abort (Reactor F A) := do
  return {
    readyList := ← FunctorList.new rtorReadyListMax readyJunk
    interthreadQueue := ← EvfdQueue.new junk
    queueEventHandlerArg := none
    posted := []
    moved := []
    executed := [] }

/-- `rtor_reactor_post`. -/
def post (r : Reactor F A) (cb : F) (arg : ReadyArg A) : Except Abort (Reactor F A) := do
  return { r with readyList := ← r.readyList.add ⟨cb, arg⟩ }

/-- `rtor_reactor_interthread_post`. -/
def interthreadPost (r : Reactor F A) (cb : F) (arg : A) : Except Abort (Reactor F A) := do
  return { r with
    interthreadQueue := ← r.interthreadQueue.add ⟨cb, arg⟩
    posted := r.posted ++ [⟨cb, arg⟩] }

/-- `interthread_queue_handler`. -/
def interthreadQueueHandler (r : Reactor F A) : Except Abort (Reactor F A) := do
  let (func, q) ← r.interthreadQueue.remove
  let r := { r with interthreadQueue := q, queueEventHandlerArg := some func.arg }
  let r ← r.post func.f .wqueue
  return { r with moved := r.moved ++ [(func.f, r.queueEventHandlerArg)] }

/-- One turn of the inner loop of `rtor_reactor_run`: take the oldest functor off the ready
list and call it. A function posted by the handler finds its argument in the watcher. -/
def runReady (r : Reactor F A) : Except Abort (Reactor F A) := do
  let (func, lst) ← r.readyList.remove
  return { r with
    readyList := lst
    executed := r.executed ++ [(func.f, match func.arg with
      | .value arg => some arg
      | .wqueue => r.queueEventHandlerArg)] }

/-- What can happen next: some thread posts, `epoll_wait` reports the eventfd, or the loop
runs a ready functor. -/
inductive Act (F A : Type)
  | post (cb : F) (arg : A)
  | dispatch
  | run

/-- The functors waiting in the interthread queue, oldest first. -/
def queued (r : Reactor F A) : List (Functor F A) := r.interthreadQueue.list.toList

/-- `epoll_wait` is called only with an empty ready list, and reports the eventfd only while
its counter is not zero. -/
def Wakes (r : Reactor F A) : Prop := r.readyList.size = 0 ∧ r.interthreadQueue.counter ≠ 0

instance (r : Reactor F A) : Decidable r.Wakes := inferInstanceAs (Decidable (_ ∧ _))

/-- One atomic step: `Evfdq_add` and `Evfdq_remove` are atomic under their mutex. -/
def step (r : Reactor F A) : Act F A → Except Abort (Reactor F A)
  | .post cb arg => r.interthreadPost cb arg
  | .dispatch => if r.Wakes then r.interthreadQueueHandler else .ok r
  | .run => if r.readyList.size = 0 then .ok r else r.runReady

/-! ### The invariant -/

/-- What a functor carries, as the history records it. -/
def pair (x : Functor F A) : F × Option A := (x.f, some x.arg)

/-- What holds in every run, stranded functors or not: both rings are sound, nothing posted
is lost or reordered, the counter never runs ahead of the queue, and at most one function is
on the ready list, its argument still in the watcher. -/
structure Inv (r : Reactor F A) : Prop where
  queueValid : r.interthreadQueue.list.Valid
  queueCapacity : r.interthreadQueue.list.capacity = rtorMaxFds
  readyValid : r.readyList.Valid
  readyCapacity : r.readyList.capacity = rtorReadyListMax
  counter_le : r.interthreadQueue.counter ≤ r.queued.length
  order : r.posted.map pair = r.moved ++ r.queued.map pair
  ready : r.readyList.toList = [] ∧ r.executed = r.moved ∨
    ∃ cb arg, r.readyList.toList = [⟨cb, .wqueue⟩] ∧ r.queueEventHandlerArg = some arg ∧
      r.moved = r.executed ++ [(cb, some arg)]

private theorem Inv.queued_length_lt {r : Reactor F A} (h : r.Inv) :
    r.queued.length < rtorMaxFds := by
  rw [queued, FunctorList.length_toList, ← h.queueCapacity]
  exact FunctorList.size_lt h.queueValid

/-- A fresh reactor. -/
theorem new_spec (junk : ℕ → Functor F A) (readyJunk : ℕ → Functor F (ReadyArg A)) :
    ∃ r, new junk readyJunk = .ok r ∧ r.Inv ∧ r.posted = [] ∧ r.queued = [] := by
  obtain ⟨lst, hl, hv, hc, hq⟩ := FunctorList.new_spec rtorReadyListMax readyJunk (by decide) le_rfl
  obtain ⟨lst', hl', hv', hc', hq'⟩ := FunctorList.new_spec rtorMaxFds junk (by decide) (by decide)
  refine ⟨⟨⟨lst', 0⟩, none, lst, [], [], []⟩, ?_, ?_, rfl, hq'⟩
  · simp only [new, EvfdQueue.new, hl, hl']
    rfl
  · exact ⟨hv', hc', hv, hc, Nat.zero_le _, by simp [queued, hq'], Or.inl ⟨hq, rfl⟩⟩

/-! ### One step -/

/-- A post with room on the ring: the functor joins the queue and the counter goes up. -/
theorem interthreadPost_spec {r : Reactor F A} (h : r.Inv) (cb : F) (arg : A)
    (hroom : r.queued.length + 1 < rtorMaxFds) :
    ∃ r', r.interthreadPost cb arg = .ok r' ∧ r'.Inv ∧
      r'.queued = r.queued ++ [⟨cb, arg⟩] ∧
      r'.interthreadQueue.counter = r.interthreadQueue.counter + 1 ∧
      r'.moved = r.moved ∧ r'.executed = r.executed := by
  have hroom' : r.interthreadQueue.list.size + 1 < r.interthreadQueue.list.capacity := by
    rw [h.queueCapacity, ← FunctorList.length_toList]
    exact hroom
  obtain ⟨lst, hl, hv, hc, hq⟩ := FunctorList.add_spec h.queueValid ⟨cb, arg⟩ hroom'
  have hcount : r.interthreadQueue.counter + 1 ≤ eventfdMax := by
    have h1 := h.counter_le
    have h2 : rtorMaxFds ≤ eventfdMax := by decide
    omega
  have hqueued : lst.toList = r.queued ++ [⟨cb, arg⟩] := hq
  refine ⟨{ r with
      interthreadQueue := ⟨lst, r.interthreadQueue.counter + 1⟩
      posted := r.posted ++ [⟨cb, arg⟩] }, ?_, ?_, hqueued, rfl, rfl, rfl⟩
  · simp only [interthreadPost, EvfdQueue.add, hl, if_pos hcount]
    rfl
  · refine ⟨hv, hc.trans h.queueCapacity, h.readyValid, h.readyCapacity, ?_, ?_, h.ready⟩
    · change r.interthreadQueue.counter + 1 ≤ lst.toList.length
      rw [hqueued, List.length_append]
      exact Nat.add_le_add_right h.counter_le 1
    · change (r.posted ++ [_]).map pair = r.moved ++ lst.toList.map pair
      rw [hqueued, List.map_append, h.order, List.map_append, List.append_assoc]

/-- A post on a full ring aborts. -/
theorem interthreadPost_full {r : Reactor F A} (h : r.Inv) (cb : F) (arg : A)
    (hfull : ¬ r.queued.length + 1 < rtorMaxFds) : ¬ ∃ r', r.interthreadPost cb arg = .ok r' := by
  have hlt := h.queued_length_lt
  have hsize : r.interthreadQueue.list.size + 1 = r.interthreadQueue.list.capacity := by
    rw [h.queueCapacity, ← FunctorList.length_toList]
    change r.queued.length + 1 = _
    omega
  simp only [interthreadPost, EvfdQueue.add, FunctorList.add_full h.queueValid _ hsize]
  rintro ⟨r', hr⟩
  cases hr

/-- A dispatch: the oldest functor goes to the ready list with its argument in the watcher,
and the eventfd counter drops to zero whatever is left in the queue. -/
theorem interthreadQueueHandler_spec {r : Reactor F A} (h : r.Inv)
    (hready : r.readyList.size = 0) {x : Functor F A} {rest : List (Functor F A)}
    (hq : r.queued = x :: rest) :
    ∃ r', r.interthreadQueueHandler = .ok r' ∧ r'.Inv ∧ r'.queued = rest ∧
      r'.interthreadQueue.counter = 0 ∧ r'.moved = r.moved ++ [pair x] ∧
      r'.executed = r.executed := by
  have hnil := FunctorList.toList_eq_nil_iff.mpr hready
  obtain ⟨q, hrem, hqv, hqc, hqq⟩ := FunctorList.remove_spec h.queueValid hq
  have hroom : r.readyList.size + 1 < r.readyList.capacity := by
    rw [hready, h.readyCapacity]
    decide
  obtain ⟨lst, hadd, hlv, hlc, hlq⟩ :=
    FunctorList.add_spec h.readyValid ⟨x.f, ReadyArg.wqueue⟩ hroom
  have hexec : r.executed = r.moved := by
    rcases h.ready with ⟨-, he⟩ | ⟨cb, arg, hl, -⟩
    · exact he
    · rw [hnil] at hl
      cases hl
  refine ⟨{ r with
      interthreadQueue := ⟨q, 0⟩
      queueEventHandlerArg := some x.arg
      readyList := lst
      moved := r.moved ++ [pair x] }, ?_, ?_, hqq, rfl, rfl, rfl⟩
  · simp only [interthreadQueueHandler, EvfdQueue.remove, hrem]
    change (do
      let r ← ({ r with interthreadQueue := ⟨q, 0⟩, queueEventHandlerArg := some x.arg } :
        Reactor F A).post x.f .wqueue
      return { r with moved := r.moved ++ [(x.f, r.queueEventHandlerArg)] }) = _
    simp only [post, hadd]
    rfl
  · refine ⟨hqv, hqc.trans h.queueCapacity, hlv, hlc.trans h.readyCapacity, Nat.zero_le _,
      ?_, Or.inr ⟨x.f, x.arg, ?_, rfl, ?_⟩⟩
    · change r.posted.map pair = (r.moved ++ [pair x]) ++ q.toList.map pair
      rw [h.order, hq, hqq, List.map_cons, List.append_assoc, List.singleton_append]
    · rw [hlq, hnil, List.nil_append]
    · rw [hexec]
      rfl

/-- Running the ready functor: it finds the argument it was posted with. -/
theorem runReady_spec {r : Reactor F A} (h : r.Inv) (hready : r.readyList.size ≠ 0) :
    ∃ r', r.runReady = .ok r' ∧ r'.Inv ∧ r'.queued = r.queued ∧
      r'.interthreadQueue.counter = r.interthreadQueue.counter ∧ r'.moved = r.moved ∧
      r'.executed = r.moved := by
  rcases h.ready with ⟨hnil, -⟩ | ⟨cb, arg, hl, harg, hmoved⟩
  · rw [← FunctorList.length_toList, hnil] at hready
    exact absurd rfl hready
  · obtain ⟨lst, hrem, hv, hc, hq⟩ := FunctorList.remove_spec h.readyValid hl
    refine ⟨{ r with readyList := lst, executed := r.executed ++ [(cb, some arg)] }, ?_, ?_,
      rfl, rfl, rfl, hmoved.symm⟩
    · simp only [runReady, hrem, ← harg]
      rfl
    · exact ⟨h.queueValid, h.queueCapacity, hv, hc.trans h.readyCapacity, h.counter_le, h.order,
        Or.inl ⟨hq, hmoved.symm⟩⟩

/-- A dispatch that wakes finds the queue non-empty: the counter never exceeds its length. -/
theorem Inv.exists_queued {r : Reactor F A} (h : r.Inv) (hw : r.Wakes) :
    ∃ x rest, r.queued = x :: rest := by
  refine List.exists_cons_of_ne_nil fun hnil => hw.2 ?_
  have := h.counter_le
  rw [hnil, List.length_nil] at this
  omega

/-- Every step that does not abort keeps the invariant. -/
theorem step_inv {r r' : Reactor F A} {a : Act F A} (h : r.Inv) (hs : r.step a = .ok r') :
    r'.Inv := by
  cases a with
  | post cb arg =>
    by_cases hroom : r.queued.length + 1 < rtorMaxFds
    · obtain ⟨r₁, h₁, hinv, -⟩ := interthreadPost_spec h cb arg hroom
      cases h₁.symm.trans hs
      exact hinv
    · exact absurd ⟨r', hs⟩ (interthreadPost_full h cb arg hroom)
  | dispatch =>
    by_cases hw : r.Wakes
    · obtain ⟨x, rest, hq⟩ := h.exists_queued hw
      obtain ⟨r₁, h₁, hinv, -⟩ := interthreadQueueHandler_spec h hw.1 hq
      simp only [step, if_pos hw] at hs
      cases h₁.symm.trans hs
      exact hinv
    · simp only [step, if_neg hw] at hs
      cases hs
      exact h
  | run =>
    by_cases hready : r.readyList.size = 0
    · simp only [step, if_pos hready] at hs
      cases hs
      exact h
    · obtain ⟨r₁, h₁, hinv, -⟩ := runReady_spec h hready
      simp only [step, if_neg hready] at hs
      cases h₁.symm.trans hs
      exact hinv

/-! ### Stranded functors -/

/-- What the queue is meant to guarantee in every state: a wake-up is pending while a functor
is queued; the functors put on the ready list and those still queued are, together and in
order, those posted, each with its own argument; those run so far are the first ones put
there; and when the loop next waits, the oldest queued functor is moved. -/
structure NeverStranded (r : Reactor F A) : Prop where
  wake : r.queued ≠ [] → r.interthreadQueue.counter ≠ 0
  order : r.posted.map pair = r.moved ++ r.queued.map pair
  executed : r.executed <+: r.moved
  progress : ∀ x rest, r.queued = x :: rest → r.readyList.size = 0 →
    ∃ r', r.step .dispatch = .ok r' ∧ r'.queued = rest ∧ r'.moved = r.moved ++ [pair x]

/-- The condition on a step: a dispatch finds exactly one functor queued, and a post finds
room on the ring. -/
def OneAtATime (r : Reactor F A) : Act F A → Prop
  | .post _ _ => r.queued.length + 1 < rtorMaxFds
  | .dispatch => r.Wakes → r.queued.length = 1
  | .run => True

/-- Given the invariant, only the wake-up can be missing. -/
theorem neverStranded_iff {r : Reactor F A} (h : r.Inv) :
    r.NeverStranded ↔ (r.queued ≠ [] → r.interthreadQueue.counter ≠ 0) := by
  refine ⟨fun hq => hq.wake, fun hw => ⟨hw, h.order, ?_, fun x rest hq hready => ?_⟩⟩
  · rcases h.ready with ⟨-, he⟩ | ⟨cb, arg, -, -, hm⟩
    · exact he ▸ List.prefix_rfl
    · rw [hm]
      exact List.prefix_append _ _
  · have hwakes : r.Wakes := ⟨hready, hw (by simp [hq])⟩
    obtain ⟨r', hr', -, hq', -, hm', -⟩ := interthreadQueueHandler_spec h hready hq
    exact ⟨r', by simp only [step, if_pos hwakes, hr'], hq', hm'⟩

/-- **One step.** From a state in which nothing is stranded, a step succeeds and strands
nothing exactly when it meets `OneAtATime`. -/
theorem step_neverStranded_iff {r : Reactor F A} (h : r.Inv) (hq : r.NeverStranded)
    (a : Act F A) :
    (∃ r', r.step a = .ok r' ∧ r'.NeverStranded) ↔ r.OneAtATime a := by
  cases a with
  | post cb arg =>
    constructor
    · rintro ⟨r', hr', -⟩
      by_contra hroom
      exact interthreadPost_full h cb arg hroom ⟨r', hr'⟩
    · intro hroom
      obtain ⟨r', hr', hinv, -, hc, -⟩ := interthreadPost_spec h cb arg hroom
      exact ⟨r', hr', (neverStranded_iff hinv).mpr fun _ => by omega⟩
  | dispatch =>
    by_cases hw : r.Wakes
    · obtain ⟨x, rest, hx⟩ := h.exists_queued hw
      obtain ⟨r', hr', hinv, hq', hc, -⟩ := interthreadQueueHandler_spec h hw.1 hx
      have hstep : r.step .dispatch = .ok r' := by simp only [step, if_pos hw, hr']
      have hlen : r.OneAtATime .dispatch ↔ rest = [] := by
        simp only [OneAtATime, hw, forall_true_left, hx, List.length_cons]
        rw [← List.length_eq_zero_iff]
        omega
      rw [hlen, hstep]
      constructor
      · rintro ⟨r₁, h₁, hns⟩
        cases h₁
        by_contra hne
        exact hns.wake (by rwa [hq']) hc
      · rintro rfl
        exact ⟨r', rfl, (neverStranded_iff hinv).mpr fun hne => absurd hq' hne⟩
    · have hstep : r.step .dispatch = .ok r := by simp only [step, if_neg hw]
      exact iff_of_true ⟨r, hstep, hq⟩ fun hw' => absurd hw' hw
  | run =>
    refine iff_of_true ?_ trivial
    by_cases hready : r.readyList.size = 0
    · exact ⟨r, by simp only [step, if_pos hready], hq⟩
    · obtain ⟨r', hr', hinv, hq', hc, -⟩ := runReady_spec h hready
      refine ⟨r', by simp only [step, if_neg hready, hr'], (neverStranded_iff hinv).mpr ?_⟩
      rw [hq', hc]
      exact hq.wake

/-- **Interthread posting, exactly.** Over every interleaving of posts, dispatches and ready
functors, the process never aborts and no state strands a functor if and only if every
dispatch finds exactly one functor in the queue and every post finds room on the ring. -/
theorem interthread_neverStranded_iff (junk : ℕ → Functor F A)
    (readyJunk : ℕ → Functor F (ReadyArg A)) (as : List (Act F A)) :
    ∃ r, new junk readyJunk = .ok r ∧
      (((∃ r', Machine.run step r as = .ok r') ∧ Machine.Always step NeverStranded r as) ↔
        Machine.Along step OneAtATime r as) := by
  obtain ⟨r, hr, hinv, -, hq⟩ := new_spec junk readyJunk
  refine ⟨r, hr, Machine.run_ok_always_iff_along (fun _ _ _ h hs => step_inv h hs)
    (fun s a h hns => step_neverStranded_iff h hns a) hinv ?_⟩
  exact (neverStranded_iff hinv).mpr fun hne => absurd hq hne

/-- Two posts before the first dispatch: the second functor is left in the queue with the
counter at zero, so no wake-up is pending for it. -/
theorem two_posts_strand :
    ∃ r r' : Reactor ℕ ℕ, new (fun _ => ⟨0, 0⟩) (fun _ => ⟨0, .wqueue⟩) = .ok r ∧
      Machine.run step r [.post 1 10, .post 2 20, .dispatch, .run] = .ok r' ∧
      r'.queued = [⟨2, 20⟩] ∧ r'.interthreadQueue.counter = 0 ∧ ¬ r'.NeverStranded := by
  refine ⟨_, _, rfl, rfl, by decide, rfl, fun h => h.wake ?_ rfl⟩
  decide

end Reactor

end CHttp
