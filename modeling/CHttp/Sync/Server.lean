import CHttp.Common.Queue
import Mathlib.Data.Fintype.Card

/-!
# The worker queue of the synchronous server

`sync_server.c` and the loop of `worker.c`, as they are built with `SYNC_WORKER_QUEUE`: the
listening thread puts each accepted socket on the queue, each worker takes one off, serves it to its
end and comes back, and `sync_server_terminate` puts one `-1` on the queue for each worker. A worker
that takes a `-1` stops; the listening thread joins the workers and disposes of the queue.

The threads share the queue of `queue.c`, and an interleaving of their sections under its mutex is a
list of actions. What a worker does with a socket is its own affair: here it takes some time.
-/

namespace CHttp

namespace Queue

/-! ### What a section of the queue does -/

variable {T SocketFD : Type} [DecidableEq T]

/-- The thread is not asleep in one of the functions. -/
def Waiting.isOutside : Waiting SocketFD → Bool
  | .outside => true
  | _ => false

private theorem Waiting.isOutside_iff {s : Waiting SocketFD} :
    s.isOutside = true ↔ s = .outside := by
  cases s <;> simp [Waiting.isOutside]

/-- Where a thread stands, whether or not it was signalled. -/
def Waiting.place : Waiting SocketFD → Waiting SocketFD
  | .outside => .outside
  | .notEmptyCv _ => .notEmptyCv false
  | .notFullCv sock _ => .notFullCv sock false

@[simp]
theorem Waiting.place_signalNotEmpty (s : Waiting SocketFD) :
    s.signalNotEmpty.place = s.place := by
  cases s <;> rfl

@[simp]
theorem Waiting.place_signalNotFull (s : Waiting SocketFD) : s.signalNotFull.place = s.place := by
  cases s <;> rfl

private theorem Waiting.place_eq_notEmptyCv {s : Waiting SocketFD} :
    s.place = .notEmptyCv false ↔ ∃ b, s = .notEmptyCv b := by
  cases s <;> simp [Waiting.place]

namespace World

/-- `Queue_add`, from its loop test on: the thread has stored its socket, or it sleeps. -/
inductive Added (w : World T SocketFD) (t : T) (sock : SocketFD) (w' : World T SocketFD) : Prop
  | stored (hc : w'.calls = w.calls) (hr : w'.removed = w.removed)
      (ha : w'.added = w.added ++ [(t, sock)])
      (ht : ∀ t', (w'.threads t').place = if t' = t then .outside else (w.threads t').place)
  | asleep (hc : w'.calls = w.calls) (hr : w'.removed = w.removed) (ha : w'.added = w.added)
      (ht : ∀ t', (w'.threads t').place =
        if t' = t then .notFullCv sock false else (w.threads t').place)

/-- `Queue_remove`, from its loop test on: it returns a socket, or it sleeps. -/
inductive Removed (w : World T SocketFD) (t : T) (w' : World T SocketFD) : Prop
  | returned (r : SocketFD) (hc : w'.calls = w.calls) (ha : w'.added = w.added)
      (hr : w'.removed = w.removed ++ [(t, r)])
      (ht : ∀ t', (w'.threads t').place = if t' = t then .outside else (w.threads t').place)
  | asleep (hc : w'.calls = w.calls) (ha : w'.added = w.added) (hr : w'.removed = w.removed)
      (ht : ∀ t', (w'.threads t').place =
        if t' = t then .notEmptyCv false else (w.threads t').place)

variable {w w' : World T SocketFD} {t : T}

/-- One thread's state is set. -/
theorem place_update (threads : T → Waiting SocketFD) (t : T) (x : Waiting SocketFD) (t' : T) :
    (Function.update threads t x t').place = if t' = t then x.place else (threads t').place := by
  by_cases h : t' = t
  · simp [h]
  · simp [h]

private theorem added_of_add {sock : SocketFD} (h : w.add t sock = .ok w') : Added w t sock w' := by
  by_cases hfull : w.queue.size = w.queue.maxSize
  · rw [add, if_pos hfull] at h
    cases h
    exact .asleep rfl rfl rfl (place_update _ _ _)
  · simp only [add, if_neg hfull, Except.bind_eq_ok] at h
    obtain ⟨⟨queue, broadcast⟩, -, h⟩ := h
    cases h
    split
    · refine .stored rfl rfl rfl fun t' => ?_
      simp only [broadcastNotEmpty, Waiting.place_signalNotEmpty]
      exact place_update _ _ _ t'
    · exact .stored rfl rfl rfl (place_update _ _ _)

private theorem removed_of_remove (h : w.remove t = .ok w') : Removed w t w' := by
  by_cases hempty : w.queue.isEmpty = true
  · rw [remove, if_pos hempty] at h
    cases h
    exact .asleep rfl rfl rfl (place_update _ _ _)
  · simp only [remove, if_neg hempty, Except.bind_eq_ok] at h
    obtain ⟨⟨r, queue, broadcast⟩, -, h⟩ := h
    cases h
    split
    · refine .returned r rfl rfl rfl fun t' => ?_
      simp only [broadcastNotFull, Waiting.place_signalNotFull]
      exact place_update _ _ _ t'
    · exact .returned r rfl rfl rfl (place_update _ _ _)

end World

end Queue

/-! ### The threads of the server -/

/-- The thread that listens, the one that calls `sync_server_terminate`, and the workers. -/
inductive ServerThread (n : ℕ)
  | listener
  | terminator
  | worker (i : Fin n)
  deriving DecidableEq

/-- Where `Worker_main` is: at the head of its loop, or in `Queue_remove`; with a connection; or at
its end. -/
inductive WorkerState
  | free
  | serving (sock : ℤ)
  | stopped
  deriving DecidableEq

/-- The server, with what its threads are at: the listening loop, the calls of `Queue_add` that
`sync_server_terminate` still has to make, and the workers. `terminations` counts its calls. -/
structure SyncServer (n : ℕ) where
  queue : Queue.World (ServerThread n) ℤ
  listening : Bool
  toAdd : ℕ
  terminations : ℕ
  workers : Fin n → WorkerState

namespace SyncServer

variable {n : ℕ}

/-- What `Queue_remove` has returned in a section. -/
def returned (before after : Queue.World (ServerThread n) ℤ) : Option ℤ :=
  ((after.removed.drop before.removed.length).map Prod.snd).head?

/-- `Worker_main`, from `Queue_remove` on. -/
def workerTakes (this : SyncServer n) (i : Fin n) (queue : Queue.World (ServerThread n) ℤ) :
    SyncServer n :=
  match returned this.queue queue with
  | some r =>
    { this with
      queue
      workers := Function.update this.workers i (if r = -1 then .stopped else .serving r) }
  | none => { this with queue }

/-- What can happen next: `accept` returns, `sync_server_terminate` is called and makes one of its
calls, a free worker calls `Queue_remove`, a sleeping thread wakes up, or a worker is done with its
connection. -/
inductive Act (n : ℕ)
  | accept (sock2 : ℤ)
  | terminate
  | addTerminate
  | remove (i : Fin n)
  | wake (t : ServerThread n)
  | served (i : Fin n)

/-- One section of one thread; an action that cannot happen changes nothing. -/
def step (this : SyncServer n) : Act n → Except Abort (SyncServer n)
  | .accept sock2 =>
    if this.listening ∧ (this.queue.threads .listener).isOutside then
      -- a failed `accept` ends the loop
      if sock2 ≤ 0 then .ok { this with listening := false }
      else do return { this with queue := ← this.queue.step (.add .listener sock2) }
    else .ok this
  | .terminate =>
    if this.toAdd = 0 ∧ (this.queue.threads .terminator).isOutside then
      .ok { this with toAdd := n, terminations := this.terminations + 1 }
    else .ok this
  | .addTerminate =>
    if 0 < this.toAdd ∧ (this.queue.threads .terminator).isOutside then do
      return { this with
        queue := ← this.queue.step (.add .terminator (-1))
        toAdd := this.toAdd - 1 }
    else .ok this
  | .remove i =>
    if this.workers i = .free ∧ (this.queue.threads (.worker i)).isOutside then do
      return this.workerTakes i (← this.queue.step (.remove (.worker i)))
    else .ok this
  | .wake t => do
    let queue ← this.queue.step (.wake t)
    match t with
    | .worker i => return this.workerTakes i queue
    | _ => return { this with queue }
  | .served i =>
    match this.workers i with
    | .serving _ => .ok { this with workers := Function.update this.workers i .free }
    | _ => .ok this

/-- `sync_server_new`, and `sync_server_listen` up to its loop. -/
def start (n : ℕ) (junk : ℕ → ℤ) : SyncServer n where
  queue := Queue.World.start (Queue.new junk)
  listening := true
  toAdd := 0
  terminations := 0
  workers := fun _ => .free

/-! ### The invariant -/

open Queue.World (byThread byThread_concat)

/-- The workers that have stopped. -/
def stoppedWorkers (s : SyncServer n) : Finset (Fin n) :=
  Finset.univ.filter fun i => s.workers i = .stopped

/-- What worker `i` has taken: sockets, the last of which it may be serving, and then at most one
`-1`, by which it stopped. -/
structure Taken (s : SyncServer n) (i : Fin n) (socks : List ℤ) : Prop where
  removed : byThread (.worker i) s.queue.removed =
    socks ++ if s.workers i = .stopped then [-1] else []
  sockets : -1 ∉ socks
  serving : ∀ sock, s.workers i = .serving sock → socks.getLast? = some sock

/-- What holds between any two sections. Only the listener and the terminator add to the queue, only
a free worker waits in `Queue_remove`, and each `-1` that was removed has stopped a worker. -/
structure Inv (s : SyncServer n) : Prop where
  queue : s.queue.Inv
  calls : ∀ e ∈ s.queue.calls, e.1 = .terminator ∧ e.2 = -1 ∨ e.1 = .listener ∧ 0 < e.2
  signals : (byThread .terminator s.queue.calls).length + s.toAdd = n * s.terminations
  waits : ∀ t, (s.queue.threads t).place = .notEmptyCv false →
    ∃ i, t = .worker i ∧ s.workers i = .free
  taken : ∀ i, ∃ socks, s.Taken i socks
  stopped : (s.queue.removed.map Prod.snd).count (-1) = s.stoppedWorkers.card

theorem start_inv (n : ℕ) (junk : ℕ → ℤ) : (start n junk).Inv where
  queue := Queue.World.start_inv
    (Queue.newWithCapacity_valid _ _ (show 1 ≤ u32 queueDefaultSize by decide)) rfl
  calls := List.forall_mem_nil _
  signals := (Nat.mul_zero n).symm
  waits t ht := by cases ht
  taken i := ⟨[], ⟨rfl, List.not_mem_nil, fun _ h => by cases h⟩⟩
  stopped := by simp [start, Queue.World.start, stoppedWorkers]

variable {s : SyncServer n}

/-- Nothing was taken between the two states. -/
theorem Inv.taken_of_eq {s' : SyncServer n} (h : s.Inv) (hr : s'.queue.removed = s.queue.removed)
    (hw : s'.workers = s.workers) (i : Fin n) : ∃ socks, s'.Taken i socks := by
  obtain ⟨socks, hsocks⟩ := h.taken i
  exact ⟨socks, hr ▸ hw ▸ hsocks.removed, hsocks.sockets, hw ▸ hsocks.serving⟩

/-- `Queue_add` by a thread other than a worker: nothing is taken by it. -/
theorem Inv.of_added {q : Queue.World (ServerThread n) ℤ} {t : ServerThread n} {sock : ℤ}
    {toAdd : ℕ} {before : Queue.World (ServerThread n) ℤ} (h : s.Inv)
    (hadd : Queue.World.Added before t sock q) (hq : q.Inv)
    (hr : before.removed = s.queue.removed) (hth : before.threads = s.queue.threads)
    (hcalls : ∀ e ∈ before.calls, e.1 = .terminator ∧ e.2 = -1 ∨ e.1 = .listener ∧ 0 < e.2)
    (hsignals : (byThread .terminator before.calls).length + toAdd = n * s.terminations) :
    ({ s with queue := q, toAdd := toAdd } : SyncServer n).Inv := by
  have hold : ∀ {x : Queue.Waiting ℤ}, x ≠ .notEmptyCv false →
      (∀ t', (q.threads t').place = if t' = t then x else (before.threads t').place) →
      ∀ t', (q.threads t').place = .notEmptyCv false →
        ∃ i, t' = .worker i ∧ s.workers i = .free := by
    intro x hx hplace t' ht'
    rw [hplace t'] at ht'
    split at ht'
    · exact absurd ht' hx
    · exact h.waits t' (hth ▸ ht')
  have hrest : q.calls = before.calls → q.removed = before.removed →
      (∀ t', (q.threads t').place = .notEmptyCv false → ∃ i, t' = .worker i ∧ s.workers i = .free) →
      ({ s with queue := q, toAdd := toAdd } : SyncServer n).Inv := by
    intro hqc hqr hwaits
    exact ⟨hq, hqc ▸ hcalls, hqc ▸ hsignals, hwaits, h.taken_of_eq (hqr.trans hr) rfl,
      hqr.trans hr ▸ h.stopped⟩
  cases hadd with
  | stored hc hr' _ ht => exact hrest hc hr' (hold (by simp) ht)
  | asleep hc hr' _ ht => exact hrest hc hr' (hold (by simp) ht)

/-- A free worker takes one more. -/
theorem Taken.concat {q : Queue.World (ServerThread n) ℤ} {i : Fin n} {socks : List ℤ} {r : ℤ}
    (h : s.Taken i socks) (hfree : s.workers i = .free)
    (hr : q.removed = s.queue.removed ++ [(.worker i, r)]) :
    ∃ socks', ({ s with
      queue := q
      workers := Function.update s.workers i (if r = -1 then .stopped else .serving r) } :
        SyncServer n).Taken i socks' := by
  have hremoved : byThread (.worker i) q.removed = socks ++ [r] := by
    rw [hr, byThread_concat, h.removed, hfree]
    simp
  by_cases hend : r = -1
  · subst hend
    exact ⟨socks, by simpa using hremoved, h.sockets, by simp⟩
  · refine ⟨socks ++ [r], by simpa [hend] using hremoved, ?_, by simp [hend]⟩
    simpa [h.sockets] using fun heq => hend heq.symm

/-- A free worker stops if what it takes is `-1`. -/
theorem card_stoppedWorkers_update {i : Fin n} (hfree : s.workers i = .free) (r : ℤ)
    {q : Queue.World (ServerThread n) ℤ} :
    ({ s with
      queue := q
      workers := Function.update s.workers i (if r = -1 then .stopped else .serving r) } :
        SyncServer n).stoppedWorkers.card =
      s.stoppedWorkers.card + [r].count (-1) := by
  have hni : i ∉ s.stoppedWorkers := by simp [stoppedWorkers, hfree]
  by_cases hend : r = -1
  · subst hend
    have hset : ({ s with
        queue := q
        workers := Function.update s.workers i .stopped } : SyncServer n).stoppedWorkers =
        insert i s.stoppedWorkers := by
      ext j
      by_cases hji : j = i
      · simp [stoppedWorkers, hji]
      · simp [stoppedWorkers, hji]
    simp [hset, Finset.card_insert_of_notMem hni]
  · have hset : ({ s with
        queue := q
        workers := Function.update s.workers i (.serving r) } : SyncServer n).stoppedWorkers =
        s.stoppedWorkers := by
      ext j
      by_cases hji : j = i
      · simp [stoppedWorkers, hji, hfree]
      · simp [stoppedWorkers, hji]
    simp [hend, hset]

/-- `Queue_remove` by a free worker. -/
theorem Inv.workerTakes {q : Queue.World (ServerThread n) ℤ} {i : Fin n} (h : s.Inv) (hq : q.Inv)
    (hfree : s.workers i = .free) (hrem : Queue.World.Removed s.queue (.worker i) q) :
    (s.workerTakes i q).Inv := by
  cases hrem with
  | asleep hc ha hr ht =>
    have heq : s.workerTakes i q = { s with queue := q } := by
      simp [SyncServer.workerTakes, returned, hr]
    rw [heq]
    refine ⟨hq, hc ▸ h.calls, hc ▸ h.signals, fun t' ht' => ?_, h.taken_of_eq hr rfl,
      hr ▸ h.stopped⟩
    rw [ht t'] at ht'
    split at ht'
    · next heq => exact ⟨i, heq, hfree⟩
    · exact h.waits t' ht'
  | returned r hc ha hr ht =>
    have heq : s.workerTakes i q = { s with
        queue := q
        workers := Function.update s.workers i (if r = -1 then .stopped else .serving r) } := by
      simp [SyncServer.workerTakes, returned, hr]
    rw [heq]
    refine ⟨hq, hc ▸ h.calls, hc ▸ h.signals, fun t' ht' => ?_, fun j => ?_, ?_⟩
    · rw [ht t'] at ht'
      split at ht'
      · cases ht'
      · next hne =>
        obtain ⟨j, rfl, hj⟩ := h.waits t' ht'
        have hji : j ≠ i := fun hji => hne (by rw [hji])
        exact ⟨j, rfl, by simpa [hji] using hj⟩
    · obtain ⟨socks, hsocks⟩ := h.taken j
      by_cases hji : j = i
      · subst hji
        exact hsocks.concat hfree hr
      · refine ⟨socks, ?_, hsocks.sockets, by simpa [hji] using hsocks.serving⟩
        have hother : ServerThread.worker j ≠ .worker i := by simpa using hji
        simpa [hr, byThread_concat, hother, hji] using hsocks.removed
    · rw [hr, List.map_append, List.count_append, h.stopped]
      exact (card_stoppedWorkers_update hfree r).symm

/-- The thread that wakes up was asleep in `Queue_remove` or in `Queue_add`, or it was not asleep.
-/
theorem wake_cases {q : Queue.World (ServerThread n) ℤ} {t : ServerThread n}
    (hs : s.queue.step (.wake t) = .ok q) :
    q = s.queue ∨ (∃ b, s.queue.threads t = .notEmptyCv b ∧ Queue.World.Removed s.queue t q) ∨
      ∃ sock b, s.queue.threads t = .notFullCv sock b ∧ Queue.World.Added s.queue t sock q := by
  cases ht : s.queue.threads t with
  | outside =>
    simp only [Queue.World.step, ht, Except.ok.injEq] at hs
    exact .inl hs.symm
  | notEmptyCv b =>
    simp only [Queue.World.step, ht] at hs
    exact .inr (.inl ⟨b, rfl, Queue.World.removed_of_remove hs⟩)
  | notFullCv sock b =>
    simp only [Queue.World.step, ht] at hs
    exact .inr (.inr ⟨sock, b, rfl, Queue.World.added_of_add hs⟩)

/-- A call of `Queue_add`. -/
theorem added_of_step {q : Queue.World (ServerThread n) ℤ} {t : ServerThread n} {sock : ℤ}
    (ht : s.queue.threads t = .outside) (hs : s.queue.step (.add t sock) = .ok q) :
    Queue.World.Added { s.queue with calls := s.queue.calls ++ [(t, sock)] } t sock q := by
  simp only [Queue.World.step, ht] at hs
  exact Queue.World.added_of_add hs

/-- **One section keeps the invariant**, and no assertion fails. -/
theorem Inv.step (h : s.Inv) (a : Act n) : ∃ s', s.step a = .ok s' ∧ s'.Inv := by
  cases a with
  | accept sock2 =>
    simp only [SyncServer.step]
    split
    · next hcond =>
      have hout := Queue.Waiting.isOutside_iff.mp hcond.2
      split
      · exact ⟨_, rfl, h.queue, h.calls, h.signals, h.waits, h.taken_of_eq rfl rfl, h.stopped⟩
      · next hpos =>
        obtain ⟨q, hq, hinv⟩ := Queue.World.step_spec h.queue (.add .listener sock2)
        refine ⟨{ s with queue := q }, by simp [hq], ?_⟩
        refine h.of_added (added_of_step hout hq) hinv rfl rfl ?_ ?_
        · simp only [List.mem_append, List.mem_singleton]
          rintro e (he | rfl)
          · exact h.calls e he
          · exact .inr ⟨rfl, Int.not_le.mp hpos⟩
        · simpa [byThread_concat] using h.signals
    · exact ⟨s, rfl, h⟩
  | terminate =>
    simp only [SyncServer.step]
    split
    · next hcond =>
      refine ⟨_, rfl, h.queue, h.calls, ?_, h.waits, h.taken_of_eq rfl rfl, h.stopped⟩
      have hsignals := h.signals
      rw [hcond.1] at hsignals
      simp only [Nat.mul_succ, ← hsignals, Nat.add_zero]
    · exact ⟨s, rfl, h⟩
  | addTerminate =>
    simp only [SyncServer.step]
    split
    · next hcond =>
      obtain ⟨q, hq, hinv⟩ := Queue.World.step_spec h.queue (.add .terminator (-1))
      refine ⟨{ s with queue := q, toAdd := s.toAdd - 1 }, by simp [hq], ?_⟩
      refine h.of_added (added_of_step (Queue.Waiting.isOutside_iff.mp hcond.2) hq) hinv rfl rfl
        ?_ ?_
      · simp only [List.mem_append, List.mem_singleton]
        rintro e (he | rfl)
        · exact h.calls e he
        · exact .inl ⟨rfl, rfl⟩
      · have hsignals := h.signals
        have hpos := hcond.1
        simp only [byThread_concat, if_true, List.length_append, List.length_singleton]
        omega
    · exact ⟨s, rfl, h⟩
  | remove i =>
    simp only [SyncServer.step]
    split
    · next hcond =>
      obtain ⟨q, hq, hinv⟩ := Queue.World.step_spec h.queue (.remove (.worker i))
      refine ⟨s.workerTakes i q, by simp [hq], h.workerTakes hinv hcond.1 ?_⟩
      simp only [Queue.World.step, Queue.Waiting.isOutside_iff.mp hcond.2] at hq
      exact Queue.World.removed_of_remove hq
    · exact ⟨s, rfl, h⟩
  | wake t =>
    obtain ⟨q, hq, hinv⟩ := Queue.World.step_spec h.queue (.wake t)
    -- the state after the section, for a thread that has taken nothing
    have hquiet : returned s.queue q = none → s.step (.wake t) = .ok { s with queue := q } := by
      intro hnone
      cases t with
      | worker i => simp [SyncServer.step, hq, SyncServer.workerTakes, hnone]
      | listener => simp [SyncServer.step, hq]
      | terminator => simp [SyncServer.step, hq]
    rcases wake_cases hq with heq | ⟨b, ht, hrem⟩ | ⟨sock, b, ht, hadd⟩
    · refine ⟨s, ?_, h⟩
      rw [hquiet (by simp [heq, returned]), heq]
    · obtain ⟨i, rfl, hfree⟩ := h.waits t (Queue.Waiting.place_eq_notEmptyCv.mpr ⟨b, ht⟩)
      exact ⟨s.workerTakes i q, by simp [SyncServer.step, hq], h.workerTakes hinv hfree hrem⟩
    · have hnone : returned s.queue q = none := by
        cases hadd with
        | stored _ hr => simp [returned, hr]
        | asleep _ hr => simp [returned, hr]
      exact ⟨_, hquiet hnone, h.of_added hadd hinv rfl rfl h.calls h.signals⟩
  | served i =>
    simp only [SyncServer.step]
    split
    · next sock hserving =>
      refine ⟨_, rfl, h.queue, h.calls, h.signals, fun t ht => ?_, fun j => ?_, ?_⟩
      · obtain ⟨j, rfl, hj⟩ := h.waits t ht
        have hji : j ≠ i := by
          rintro rfl
          cases hserving.symm.trans hj
        exact ⟨j, rfl, by simpa [hji] using hj⟩
      · obtain ⟨socks, hsocks⟩ := h.taken j
        by_cases hji : j = i
        · subst hji
          refine ⟨socks, ?_, hsocks.sockets, by simp⟩
          simpa [hserving] using hsocks.removed
        · refine ⟨socks, ?_, hsocks.sockets, by simpa [hji] using hsocks.serving⟩
          simpa [hji] using hsocks.removed
      · rw [h.stopped]
        refine congrArg Finset.card (Finset.filter_congr fun j _ => ?_)
        by_cases hji : j = i
        · simp [hji, hserving]
        · simp [hji]
    · exact ⟨s, rfl, h⟩

/-! ### Dispatch and shutdown -/

/-- What the server promises between any two sections. -/
structure Orderly (s : SyncServer n) : Prop where
  /-- The sockets accepted are those that workers took, in order, then those on the queue, then one
  that still waits for room. -/
  dispatched : byThread .listener s.queue.calls =
    (s.queue.removed.map Prod.snd).filter (· ≠ -1) ++ s.queue.queue.contents.filter (· ≠ -1) ++
      (s.queue.threads .listener).pending
  /-- A worker stops at the first `-1` it takes, and serves what it took last. -/
  taken : ∀ i, ∃ socks, s.Taken i socks
  /-- A worker stops only once the server is told to terminate. -/
  running : s.terminations = 0 → ∀ i, s.workers i ≠ .stopped
  /-- Once `sync_server_terminate` has returned, there is something on the queue for each worker
  that runs, and none of them sleeps without having been signalled. -/
  awake : 0 < s.terminations → s.toAdd = 0 → s.queue.threads .terminator = .outside →
    ∀ i, s.workers i ≠ .stopped →
      -1 ∈ s.queue.queue.contents ∧ s.queue.threads (.worker i) ≠ .notEmptyCv false
  /-- When all the workers have stopped after one termination, nobody but the listener can be in
  one of the queue's functions, and what is left on the queue are sockets. -/
  joined : s.terminations = 1 → (∀ i, s.workers i = .stopped) →
    s.toAdd = 0 ∧ (∀ t, t ≠ .listener → s.queue.threads t = .outside) ∧
      -1 ∉ s.queue.queue.contents

/-- The calls and what they have stored are of the two kinds. -/
theorem Inv.added_kinds (h : s.Inv) :
    ∀ e ∈ s.queue.added, e.1 = .terminator ∧ e.2 = -1 ∨ e.1 = .listener ∧ 0 < e.2 := by
  intro e he
  have hmem : e.2 ∈ byThread e.1 s.queue.added := by
    simp only [byThread, List.mem_map, List.mem_filter, decide_eq_true_eq]
    exact ⟨e, ⟨he, rfl⟩, rfl⟩
  have hcall : e.2 ∈ byThread e.1 s.queue.calls := by
    rw [h.queue.calls e.1]
    exact List.mem_append_left _ hmem
  simp only [byThread, List.mem_map, List.mem_filter, decide_eq_true_eq] at hcall
  obtain ⟨⟨t, sock⟩, ⟨hmem', ht⟩, hsock⟩ := hcall
  obtain rfl : t = e.1 := ht
  obtain rfl : sock = e.2 := hsock
  exact h.calls _ hmem'

/-- A worker does not add to the queue. -/
theorem Inv.pending_worker (h : s.Inv) (i : Fin n) :
    (s.queue.threads (.worker i)).pending = [] := by
  have hnone : byThread (.worker i) s.queue.calls = [] := by
    rw [byThread, List.map_eq_nil_iff, List.filter_eq_nil_iff]
    intro e he
    rcases h.calls e he with ⟨ht, -⟩ | ⟨ht, -⟩
    · simp [ht]
    · simp [ht]
  have hcalls := h.queue.calls (.worker i)
  rw [hnone] at hcalls
  exact (List.append_eq_nil_iff.mp hcalls.symm).2

/-- Of a history of the two kinds, the terminator's part are the `-1`s and the listener's the
rest. -/
theorem byThread_of_kinds {history : List (ServerThread n × ℤ)}
    (h : ∀ e ∈ history, e.1 = .terminator ∧ e.2 = -1 ∨ e.1 = .listener ∧ 0 < e.2) :
    (byThread .terminator history).length = (history.map Prod.snd).count (-1) ∧
      byThread .listener history = (history.map Prod.snd).filter (· ≠ -1) := by
  induction history with
  | nil => exact ⟨rfl, rfl⟩
  | cons e history ih =>
    obtain ⟨he, hrest⟩ := List.forall_mem_cons.mp h
    obtain ⟨hlen, hlist⟩ := ih hrest
    obtain ⟨t, sock⟩ := e
    simp only [byThread, List.length_map, ne_eq, decide_not] at hlen hlist ⊢
    rcases he with ⟨rfl, rfl⟩ | ⟨rfl, hpos⟩
    · exact ⟨by simpa using hlen, by simpa using hlist⟩
    · have hne : sock ≠ -1 := by
        have hpos : 0 < sock := hpos
        omega
      exact ⟨by simpa [hne] using hlen, by simpa [hne] using hlist⟩

/-- Every `-1` that is to be put on the queue is still to be stored, or on the queue, or has stopped
a worker. -/
theorem Inv.signals_eq (h : s.Inv) :
    s.stoppedWorkers.card + s.queue.queue.contents.count (-1) +
      ((s.queue.threads .terminator).pending.length + s.toAdd) = n * s.terminations := by
  have hcalls := congrArg List.length (h.queue.calls .terminator)
  have hcount := congrArg (List.count (-1)) h.queue.order
  rw [List.length_append, (byThread_of_kinds h.added_kinds).1] at hcalls
  rw [List.count_append, h.stopped] at hcount
  have hsignals := h.signals
  omega

private theorem Inv.orderly (h : s.Inv) : s.Orderly := by
  have hcard : s.stoppedWorkers.card ≤ n := by
    simpa using Finset.card_le_univ s.stoppedWorkers
  have hsignals := h.signals_eq
  have houtside : ∀ t, (∀ b, s.queue.threads t ≠ .notEmptyCv b) →
      (s.queue.threads t).pending = [] → s.queue.threads t = .outside := by
    intro t hempty hpending
    cases ht : s.queue.threads t with
    | outside => rfl
    | notEmptyCv b => exact absurd ht (hempty b)
    | notFullCv sock b =>
      rw [ht] at hpending
      cases hpending
  refine ⟨?_, h.taken, fun hzero i hi => ?_, fun hpos hadd hout i hi => ?_, fun hone hall => ?_⟩
  · rw [h.queue.calls, (byThread_of_kinds h.added_kinds).2, h.queue.order, List.filter_append]
  · have hmem : i ∈ s.stoppedWorkers := by simp [stoppedWorkers, hi]
    have hcard' := Finset.card_pos.mpr ⟨i, hmem⟩
    rw [hzero, Nat.mul_zero] at hsignals
    omega
  · have hlt : s.stoppedWorkers.card < n := by
      have hmem : i ∉ s.stoppedWorkers := by simp [stoppedWorkers, hi]
      simpa using Finset.card_lt_univ_of_notMem hmem
    have hmul : n * 1 ≤ n * s.terminations := Nat.mul_le_mul_left n hpos
    have hpending : (s.queue.threads .terminator).pending.length = 0 := by simp [hout]
    have hin : -1 ∈ s.queue.queue.contents := List.count_pos_iff.mp (by omega)
    refine ⟨hin, fun hsleeps => ?_⟩
    have hnil : s.queue.queue.contents = [] := by
      rw [← List.length_eq_zero_iff, Queue.length_contents]
      exact h.queue.notEmpty _ hsleeps
    rw [hnil] at hin
    cases hin
  · have huniv : s.stoppedWorkers.card = n := by
      have heq : s.stoppedWorkers = Finset.univ := by
        ext i
        simp [stoppedWorkers, hall i]
      rw [heq, Finset.card_univ, Fintype.card_fin]
    rw [hone, Nat.mul_one, huniv] at hsignals
    refine ⟨by omega, fun t ht => ?_, fun hin => ?_⟩
    · refine houtside t (fun b hb => ?_) ?_
      · obtain ⟨i, -, hfree⟩ := h.waits t (Queue.Waiting.place_eq_notEmptyCv.mpr ⟨b, hb⟩)
        cases (hall i).symm.trans hfree
      · cases t with
        | listener => exact absurd rfl ht
        | terminator => exact List.length_eq_zero_iff.mp (by omega)
        | worker i => exact h.pending_worker i
    · have := List.count_pos_iff.mpr hin
      omega

/-- **Dispatch and shutdown.** For any number of workers and every interleaving of the threads, no
assertion of the queue fails and the server is orderly. -/
theorem dispatch_and_shutdown (n : ℕ) (junk : ℕ → ℤ) (as : List (Act n)) :
    (∃ s, Machine.run step (start n junk) as = .ok s) ∧
      Machine.Always step Orderly (start n junk) as := by
  have hrun := Machine.run_ok_always as (fun _ a hs => Inv.step hs a) (start_inv n junk)
  exact ⟨hrun.1, hrun.2.mono fun _ hs => hs.orderly⟩

end SyncServer

end CHttp
